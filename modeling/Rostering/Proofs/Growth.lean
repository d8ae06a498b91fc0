import Rostering.Proofs.Foresight
import Rostering.Proofs.Headcounts
import Mathlib.Data.List.Forall2

namespace Rostering

/-! What filling leaves of a rota. Whatever stood in it stays where it stood, and entries are only
added behind those that were there, as many on the shifts as in the groups. -/

/-- A shift has the entries that it had, in their order, and perhaps some behind them. -/
structure Shift.Grows (s t : Shift) : Prop where
  day_eq : t.day = s.day
  index_eq : t.index = s.index
  size_eq : t.size = s.size
  preallocated_eq : t.preallocated = s.preallocated
  added : ∃ more, t.placements = s.placements ++ more ∧
    t.maleCount = s.maleCount + Shift.countMen more
  lead_kept : ∀ lead, s.teamLead = some lead → t.teamLead = some lead
  full_kept : s.isFull = true → t = s

structure Group.Grows (g h : Group) : Prop where
  key_eq : h.key = g.key
  members_eq : h.members = g.members
  available_eq : h.available = g.available
  historicalCount_eq : h.historicalCount = g.historicalCount
  held : g.allocated <+: h.allocated

namespace Rota

def entryCount (rota : Rota) : Int := (rota.shifts.map fun s => (s.placements.length : Int)).sum

/-- How many shifts the groups hold, each counted for every group that does. -/
def heldCount (rota : Rota) : Int := (rota.groups.map fun g => (g.allocationCount : Int)).sum

structure Grows (rota after : Rota) : Prop where
  shifts : List.Forall₂ Shift.Grows rota.shifts after.shifts
  groups : List.Forall₂ Group.Grows rota.groups after.groups
  history_eq : after.history = rota.history
  cap_eq : after.cap = rota.cap
  target_eq : after.target = rota.target
  count : after.heldCount - rota.heldCount = after.entryCount - rota.entryCount

end Rota

theorem Shift.Grows.refl (s : Shift) : s.Grows s where
  day_eq := rfl
  index_eq := rfl
  size_eq := rfl
  preallocated_eq := rfl
  added := ⟨[], (List.append_nil _).symm, (Int.add_zero _).symm⟩
  lead_kept := fun _ => id
  full_kept := fun _ => rfl

theorem Shift.Grows.trans {s t u : Shift} (hfirst : s.Grows t) (hnext : t.Grows u) : s.Grows u where
  day_eq := hnext.day_eq.trans hfirst.day_eq
  index_eq := hnext.index_eq.trans hfirst.index_eq
  size_eq := hnext.size_eq.trans hfirst.size_eq
  preallocated_eq := hnext.preallocated_eq.trans hfirst.preallocated_eq
  added := by
    obtain ⟨more, hmore, hmen⟩ := hfirst.added
    obtain ⟨again, hagain, hmenAgain⟩ := hnext.added
    refine ⟨more ++ again, ?_, ?_⟩
    · rw [hagain, hmore, List.append_assoc]
    · rw [hmenAgain, hmen, Shift.countMen_append, Int.add_assoc]
  lead_kept := fun lead hlead => hnext.lead_kept lead (hfirst.lead_kept lead hlead)
  full_kept := by
    intro hfull
    obtain rfl := hfirst.full_kept hfull
    exact hnext.full_kept hfull

theorem Shift.grows_seat {s : Shift} {g : Group} (hadmits : s.Admits g)
    (hroom : s.isFull = false) : s.Grows (s.seat g) where
  day_eq := rfl
  index_eq := rfl
  size_eq := rfl
  preallocated_eq := rfl
  added := ⟨[.ofGroup g], rfl, by simp [Placement.ofGroup]⟩
  lead_kept := fun _ => hadmits.teamLead_seat
  full_kept := fun hfull => absurd (hroom.symm.trans hfull) Bool.false_ne_true

theorem Group.Grows.refl (g : Group) : g.Grows g := ⟨rfl, rfl, rfl, rfl, List.prefix_refl _⟩

theorem Group.Grows.trans {g h k : Group} (hfirst : g.Grows h) (hnext : h.Grows k) : g.Grows k where
  key_eq := hnext.key_eq.trans hfirst.key_eq
  members_eq := hnext.members_eq.trans hfirst.members_eq
  available_eq := hnext.available_eq.trans hfirst.available_eq
  historicalCount_eq := hnext.historicalCount_eq.trans hfirst.historicalCount_eq
  held := hfirst.held.trans hnext.held

theorem Group.grows_take (g : Group) (i : Int) : g.Grows (g.take i) :=
  ⟨rfl, rfl, rfl, rfl, List.prefix_append _ _⟩

theorem forall₂_set_self {R : α → α → Prop} (hrefl : ∀ x, R x x) {xs : List α} {i : Nat}
    {x y : α} (hx : xs[i]? = some x) (hy : R x y) : List.Forall₂ R xs (xs.set i y) := by
  obtain ⟨hi, rfl⟩ := List.getElem?_eq_some_iff.mp hx
  have hset := forall₂_set (List.forall₂_same.mpr fun z (_ : z ∈ xs) => hrefl z) hy i
  rwa [List.set_getElem_self] at hset

theorem forall₂_trans {R : α → α → Prop} (htrans : ∀ x y z, R x y → R y z → R x z)
    {xs ys zs : List α} (hfirst : List.Forall₂ R xs ys) (hnext : List.Forall₂ R ys zs) :
    List.Forall₂ R xs zs := by
  induction hfirst generalizing zs with
  | nil => exact hnext
  | cons hxy _ ih =>
      cases hnext with
      | cons hyz hrest => exact .cons (htrans _ _ _ hxy hyz) (ih hrest)

namespace Rota

variable {rota between after : Rota} {criteria : List Criterion} {policy : Policy}
  {positions : List Nat} {i j : Nat} {g : Group} {s : Shift}

theorem entryCount_join (hshift : rota.shifts[j]? = some s) :
    (rota.join i g j s).entryCount = rota.entryCount + 1 :=
  sum_map_set hshift (by simp)

theorem heldCount_join (hgroup : rota.groups[i]? = some g) :
    (rota.join i g j s).heldCount = rota.heldCount + 1 :=
  sum_map_set hgroup (by simp [Group.allocationCount])

theorem Grows.refl (rota : Rota) : rota.Grows rota where
  shifts := List.forall₂_same.mpr fun s _ => .refl s
  groups := List.forall₂_same.mpr fun g _ => .refl g
  history_eq := rfl
  cap_eq := rfl
  target_eq := rfl
  count := by rw [Int.sub_self, Int.sub_self]

theorem Grows.trans (hfirst : rota.Grows between) (hnext : between.Grows after) :
    rota.Grows after where
  shifts := forall₂_trans (fun _ _ _ => .trans) hfirst.shifts hnext.shifts
  groups := forall₂_trans (fun _ _ _ => .trans) hfirst.groups hnext.groups
  history_eq := hnext.history_eq.trans hfirst.history_eq
  cap_eq := hnext.cap_eq.trans hfirst.cap_eq
  target_eq := hnext.target_eq.trans hfirst.target_eq
  count := by
    have := hfirst.count
    have := hnext.count
    omega

theorem Pick.grows (hpick : Pick criteria j rota after) : rota.Grows after := by
  obtain @⟨i, g, s, hgroup, hshift, hroom, hjoin⟩ := hpick
  have hjoins := (mayJoin_iff.mp hjoin).1
  constructor
  case shifts =>
    exact forall₂_set_self Shift.Grows.refl hshift (Shift.grows_seat hjoins.toAdmits hroom)
  case groups => exact forall₂_set_self Group.Grows.refl hgroup (Group.grows_take g s.index)
  case count =>
    rw [entryCount_join hshift, heldCount_join hgroup]
    omega
  all_goals rfl

theorem Picks.grows (hpicks : Picks criteria positions rota after) : rota.Grows after :=
  hpicks.preserves (P := rota.Grows) (fun _ _ _ hpick hsofar => hsofar.trans hpick.grows)
    (.refl rota)

/-- A run comes to a rota: the first shifts in its order are done with, and some groups have been
chosen for the next. -/
def Visits (policy : Policy) (start rota : Rota) : Prop :=
  ∃ done j later filled, start.shiftOrder = done ++ j :: later ∧
    done.foldlM (fillShift policy) start = .ok filled ∧ Choices policy j filled rota

def Unranked (policy : Policy) (rota : Rota) (fault : Fault) : Prop :=
  ∃ s ∈ rota.shifts, ∃ positions, rota.ranked policy s positions = .error fault

theorem Visits.grows (hvisits : Visits policy rota after) : rota.Grows after := by
  obtain ⟨done, j, later, filled, -, hfill, hchoices⟩ := hvisits
  exact (fillShifts_picks hfill).grows.trans hchoices.picks.grows

/-! A run that is stopped has come to a rota in which it cannot rank. -/

variable {fault : Fault}

theorem fillLead_stopped (h : fillLead policy j rota = .error fault) :
    rota.Unranked policy fault := by
  rw [fillLead] at h
  split at h
  · cases h
  · next s hshift =>
      split at h
      · cases h
      · rcases bind_eq_error.mp h with hstop | ⟨order, horder, hplace⟩
        · exact ⟨s, List.mem_of_getElem? hshift, _, hstop⟩
        · cases order with
          | nil => cases hplace
          | cons best rest =>
              obtain ⟨g, hgroup, htest⟩ := exists_of_ranked_head horder
              have hjoin := (Bool.and_eq_true _ _ ▸ htest).2
              cases (placeAt_of_mayJoin hgroup hshift hjoin).symm.trans hplace

theorem fillMembers_stopped {fuel : Nat} (h : fillMembers policy j fuel rota = .error fault) :
    ∃ stopped, Choices policy j rota stopped ∧ stopped.Unranked policy fault := by
  induction fuel generalizing rota with
  | zero => cases h
  | succ fuel ih =>
      rw [fillMembers] at h
      split at h
      · cases h
      · next s hshift =>
          split at h
          · cases h
          · next hroom =>
              rcases bind_eq_error.mp h with hstop | ⟨order, horder, hplace⟩
              · exact ⟨rota, .refl, s, List.mem_of_getElem? hshift, _, hstop⟩
              · cases order with
                | nil => cases hplace
                | cons best rest =>
                    obtain ⟨g, hgroup, hjoin⟩ := exists_of_ranked_head horder
                    simp only [placeAt_of_mayJoin hgroup hshift hjoin] at hplace
                    obtain ⟨stopped, hchoices, hunranked⟩ := ih hplace
                    refine ⟨stopped, .head ⟨best, ?_⟩ hchoices, hunranked⟩
                    exact .member hgroup hshift (by simpa using hroom) horder

theorem fillShift_stopped (h : fillShift policy rota j = .error fault) :
    ∃ stopped, Choices policy j rota stopped ∧ stopped.Unranked policy fault := by
  rcases bind_eq_error.mp h with hlead | ⟨middle, hlead, hmembers⟩
  · exact ⟨rota, .refl, fillLead_stopped hlead⟩
  · obtain ⟨stopped, hchoices, hunranked⟩ := fillMembers_stopped hmembers
    exact ⟨stopped, (fillLead_choices hlead).trans hchoices, hunranked⟩

theorem fillShifts_stopped {order : List Nat}
    (h : order.foldlM (fillShift policy) rota = .error fault) :
    ∃ done j later filled stopped, order = done ++ j :: later ∧
      done.foldlM (fillShift policy) rota = .ok filled ∧ Choices policy j filled stopped ∧
      stopped.Unranked policy fault := by
  induction order generalizing rota with
  | nil => cases h
  | cons j rest ih =>
      rw [List.foldlM_cons] at h
      rcases bind_eq_error.mp h with hfill | ⟨next, hfill, hrest⟩
      · obtain ⟨stopped, hchoices, hunranked⟩ := fillShift_stopped hfill
        exact ⟨[], j, rest, rota, stopped, rfl, rfl, hchoices, hunranked⟩
      · obtain ⟨done, k, later, filled, stopped, rfl, hdone, hstopped⟩ := ih hrest
        refine ⟨j :: done, k, later, filled, stopped, rfl, ?_, hstopped⟩
        rw [List.foldlM_cons]
        exact bind_eq_ok.mpr ⟨next, hfill, hdone⟩

theorem allocate_stopped (h : rota.allocate policy = .error fault) :
    ∃ stopped, rota.Visits policy stopped ∧ stopped.Unranked policy fault := by
  obtain ⟨done, j, later, filled, stopped, horder, hfill, hchoices, hunranked⟩ :=
    fillShifts_stopped h
  exact ⟨stopped, ⟨done, j, later, filled, horder, hfill, hchoices⟩, hunranked⟩

/-- Filling only adds to a rota, whatever the rota holds before. So do all the picks on the way,
also in a run that is stopped, which leaves a rota that it cannot rank in. -/
theorem filling_only_adds (rota : Rota) (policy : Policy) :
    (∀ after, rota.allocate policy = .ok after → rota.Grows after) ∧
    (∀ fault, rota.allocate policy = .error fault →
      ∃ stopped, rota.Visits policy stopped ∧ stopped.Unranked policy fault) ∧
    ∀ between, rota.Visits policy between → rota.Grows between :=
  ⟨fun _ hallocate => (allocate_picks hallocate).grows, fun _ => allocate_stopped,
    fun _ => Visits.grows⟩

end Rota

namespace Sample

def underway : Rota :=
  { start with
    shifts := [⟨week 1, 0, 1, [⟨"red", ["ada", "bob"], 1, some "ada"⟩], [], none, 5⟩,
      ⟨week 2, 1, 4, [⟨"individual_cy", ["cy"], 0, none⟩], ["dan"], none, 2⟩,
      ⟨week 3, 2, 2, [], [], some ada, 0⟩]
    groups := [⟨"individual_cy", [cy], .ofList [0, 1, 2], [7], 1⟩,
      ⟨"red", [ada, bob], .ofList [1, 2], [9, 9], 0⟩,
      ⟨"individual_cy", [cy], .ofList [0, 1, 2], [], 1⟩]
    cap := 3 }

end Sample

open Sample in
theorem filling_only_adds_sample :
    ∃ after, underway.allocate strict = .ok after ∧
      after.shifts.map Shift.groupKeys =
        [["red"], ["individual_cy", "red"], ["individual_cy"]] ∧
      underway.Grows after := by
  obtain ⟨after, hallocate, hkeys⟩ : ∃ after, underway.allocate strict = .ok after ∧
      after.shifts.map Shift.groupKeys =
        [["red"], ["individual_cy", "red"], ["individual_cy"]] :=
    allocate_strict (by decide) (by decide +kernel)
  exact ⟨after, hallocate, hkeys, (Rota.filling_only_adds underway strict).1 after hallocate⟩

end Rostering
