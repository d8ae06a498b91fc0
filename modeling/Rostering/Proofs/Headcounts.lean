import Rostering.Proofs.Generated
import Mathlib.Algebra.BigOperators.Group.List.Basic
import Mathlib.Algebra.Ring.Int.Defs

namespace Rostering

/-! The same seats counted from both sides. What groups take up on the shifts is what they hold
times their size, since a join adds the group's size to either count. And what is counted over open
shifts alone is counted over all shifts, since nobody is on a closed one. -/

theorem sum_map_set {f : α → Int} {xs : List α} {i : Nat} {x y : α} {more : Int}
    (hx : xs[i]? = some x) (hy : f y = f x + more) :
    ((xs.set i y).map f).sum = (xs.map f).sum + more := by
  induction xs generalizing i with
  | nil => simp at hx
  | cons z rest ih =>
      cases i with
      | zero =>
          obtain rfl : z = x := by simpa using hx
          simp only [List.set_cons_zero, List.map_cons, List.sum_cons, hy]
          omega
      | succ i =>
          have hrest := ih (i := i) (by simpa using hx)
          simp only [List.set_cons_succ, List.map_cons, List.sum_cons, hrest]
          omega

theorem sum_map_filter {f : α → Int} {p : α → Bool} {xs : List α}
    (hzero : ∀ x ∈ xs, p x = false → f x = 0) : ((xs.filter p).map f).sum = (xs.map f).sum := by
  induction xs with
  | nil => rfl
  | cons x rest ih =>
      have hrest := ih fun y hy => hzero y (by simp [hy])
      cases hp : p x with
      | true => simp [hp, hrest]
      | false => simp [hp, hrest, hzero x (by simp) hp]

namespace Shift

def isOpen (s : Shift) : Bool := decide (0 < s.size)

/-- The seats left on a shift; below zero where it is overfull. -/
def spare (s : Shift) : Int := s.size - s.currentSize

theorem isFull_iff_spare_le {s : Shift} : s.isFull = true ↔ s.spare ≤ 0 := by
  rw [isFull, decide_eq_true_eq, spare]
  omega

namespace Sound

variable {s : Shift}

theorem spare_nonneg (hsound : s.Sound) : 0 ≤ s.spare := by
  have := hsound.size_le
  rw [spare]
  omega

theorem spare_eq_zero (hsound : s.Sound) (hfull : s.isFull = true) : s.spare = 0 :=
  Int.le_antisymm (isFull_iff_spare_le.mp hfull) hsound.spare_nonneg

theorem size_eq_zero (hsound : s.Sound) (hclosed : s.isOpen = false) :
    s.size = 0 ∧ s.currentSize = 0 := by
  have := hsound.size_le
  rw [isOpen, decide_eq_false_iff_not] at hclosed
  omega

theorem isFull_of_closed (hsound : s.Sound) (hclosed : s.isOpen = false) : s.isFull = true := by
  obtain ⟨hsize, hpeople⟩ := hsound.size_eq_zero hclosed
  simp [isFull, hsize, hpeople]

end Sound

variable {shifts : List Shift} (hsound : ∀ s ∈ shifts, s.Sound)
include hsound

theorem countP_isFull : shifts.countP isFull =
    (shifts.filter isOpen).countP isFull + (shifts.length - (shifts.filter isOpen).length) := by
  have hclosed : (shifts.filter fun s => !s.isOpen).countP isFull =
      (shifts.filter fun s => !s.isOpen).length := by
    refine List.countP_eq_length.mpr fun s hs => ?_
    obtain ⟨hs, hopen⟩ := List.mem_filter.mp hs
    exact (hsound s hs).isFull_of_closed (by simpa using hopen)
  have hsplit := List.length_eq_length_filter_add (l := shifts) isOpen
  have hcount := shifts.countP_eq_countP_filter_add isFull isOpen
  omega

theorem sum_currentSize_open : ((shifts.filter isOpen).map fun s => (s.currentSize : Int)).sum =
    (shifts.map fun s => (s.currentSize : Int)).sum := by
  refine sum_map_filter fun s hs hclosed => ?_
  simp [((hsound s hs).size_eq_zero hclosed).2]

/-- The seats missing on shifts that are not full are the seats less the people. -/
theorem sum_spare : ((shifts.filter fun s => !s.isFull).map spare).sum =
    ((shifts.filter isOpen).map size).sum -
      ((shifts.filter isOpen).map fun s => (s.currentSize : Int)).sum := by
  have hspare : ((shifts.filter fun s => !s.isFull).map spare).sum = (shifts.map spare).sum :=
    sum_map_filter fun s hs hfull => (hsound s hs).spare_eq_zero (by simpa using hfull)
  have hsize : ((shifts.filter isOpen).map size).sum = (shifts.map size).sum :=
    sum_map_filter fun s hs hclosed => ((hsound s hs).size_eq_zero hclosed).1
  have hparts : (shifts.map size).sum =
      (shifts.map spare).sum + (shifts.map fun s => (s.currentSize : Int)).sum := by
    rw [← List.sum_map_add]
    simp [spare]
  rw [hspare, hsize, hparts, sum_currentSize_open hsound]
  omega

end Shift

namespace Rota

/-- The seats that groups take, counted on the shifts. -/
def seatsTaken (rota : Rota) : Int :=
  (rota.shifts.map fun s => (Shift.headcount s.placements : Int)).sum

/-- The seats that groups take, counted on the groups. -/
def seatsHeld (rota : Rota) : Int :=
  (rota.groups.map fun g => (g.allocationCount : Int) * g.size).sum

/-- Everybody on a shift was fixed beforehand or takes a seat with a group. -/
theorem sum_currentSize (rota : Rota) : (rota.shifts.map fun s => (s.currentSize : Int)).sum =
    (rota.shifts.map fun s => (s.preallocated.length : Int)).sum + rota.seatsTaken := by
  rw [seatsTaken, ← List.sum_map_add]
  simp [Shift.currentSize]

variable {rota after : Rota} {criteria : List Criterion} {positions : List Nat} {i j : Nat}
  {g : Group} {s : Shift}

theorem seatsTaken_join (hshift : rota.shifts[j]? = some s) :
    (rota.join i g j s).seatsTaken = rota.seatsTaken + g.size :=
  sum_map_set hshift (by simp)

theorem seatsHeld_join (hgroup : rota.groups[i]? = some g) :
    (rota.join i g j s).seatsHeld = rota.seatsHeld + g.size := by
  refine sum_map_set hgroup ?_
  rw [show (g.take s.index).size = g.size from rfl]
  simp [Group.allocationCount, Int.add_mul]

/-- A run takes on the shifts what it holds in the groups. -/
theorem Picks.seatsTaken_eq_seatsHeld (hpicks : Picks criteria positions rota after)
    (hstart : rota.seatsTaken = rota.seatsHeld) : after.seatsTaken = after.seatsHeld := by
  refine hpicks.preserves (P := fun between => between.seatsTaken = between.seatsHeld)
    (fun before next j hpick heven => ?_) hstart
  obtain ⟨hgroup, hshift, -, -⟩ := hpick
  rw [seatsTaken_join hshift, seatsHeld_join hgroup, heven]

end Rota

theorem Fairness.overview_ok {rota : Rota} {rows : List Row} (h : overview rota = .ok rows) :
    rows.length = rota.groups.length ∧
      (rows.map fun row => (row.count : Int) * row.members.length).sum = rota.seatsHeld := by
  simp only [overview, bind_eq_ok, pure_eq_ok] at h
  obtain ⟨unsorted, hrows, rfl⟩ := h
  have hperm := List.mergeSort_perm unsorted Row.before
  have hheld : (unsorted.map fun row => (row.count : Int) * row.members.length) =
      rota.groups.map fun g => (g.allocationCount : Int) * g.size := by
    refine map_eq_of_mapM_eq_ok (fun g row hrow => ?_) hrows
    simp only [rowOf, bind_eq_ok, pure_eq_ok] at hrow
    obtain ⟨owed, -, rfl⟩ := hrow
    simp [Group.memberIds, Group.size]
  constructor
  · have hlength := congrArg List.length hheld
    rw [List.length_map, List.length_map] at hlength
    rw [hperm.length_eq, hlength]
  · rw [(hperm.map _).sum_eq, hheld, Rota.seatsHeld]

theorem generate_seatsTaken {request : Request} {outcome : Outcome}
    (h : generate request = .ok outcome) : outcome.rota.seatsTaken = outcome.rota.seatsHeld := by
  obtain ⟨start, hprepares, hallocate, -⟩ := generate_ok h
  refine (Rota.allocate_picks hallocate).seatsTaken_eq_seatsHeld ?_
  have htaken : start.seatsTaken = 0 := by
    refine List.sum_eq_zero fun people hpeople => ?_
    obtain ⟨s, hs, rfl⟩ := List.mem_map.mp hpeople
    obtain ⟨j, hj⟩ := List.getElem?_of_mem hs
    rw [← (hprepares.prepared j s hj).blank_eq]
    rfl
  have hheld : start.seatsHeld = 0 := by
    refine List.sum_eq_zero fun people hpeople => ?_
    obtain ⟨g, hg, rfl⟩ := List.mem_map.mp hpeople
    simp [Group.allocationCount, hprepares.allocated_eq_nil g hg]
  rw [htaken, hheld]

end Rostering
