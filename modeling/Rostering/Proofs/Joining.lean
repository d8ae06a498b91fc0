import Rostering.Allocation
import Rostering.Proofs.Basic

namespace Rostering

/-! What it takes for a group to join a shift, and what becomes of the two. Placing, recording and
assigning succeed exactly under these conditions, and `Rota.mayJoin` tests them. -/

namespace Group

def take (g : Group) (shift : Int) : Group := { g with allocated := g.allocated ++ [shift] }

@[simp] theorem take_key (g : Group) (i : Int) : (g.take i).key = g.key := rfl
@[simp] theorem take_members (g : Group) (i : Int) : (g.take i).members = g.members := rfl
@[simp] theorem take_available (g : Group) (i : Int) : (g.take i).available = g.available := rfl
@[simp] theorem take_allocated (g : Group) (i : Int) :
    (g.take i).allocated = g.allocated ++ [i] := rfl

@[simp] theorem ofGroup_take (g : Group) (i : Int) :
    Placement.ofGroup (g.take i) = .ofGroup g := rfl

theorem isAvailable_iff {g : Group} {i : Int} : g.isAvailable i = true ↔ i ∈ g.available := by
  simp [isAvailable]

theorem holds_iff {g : Group} {i : Int} : g.holds i = true ↔ i ∈ g.allocated := by
  simp [holds]

theorem record_eq_ok_iff {g g' : Group} {i : Int} :
    g.record i = .ok g' ↔ i ∈ g.available ∧ i ∉ g.allocated ∧ g' = g.take i := by
  rw [← isAvailable_iff, ← holds_iff, record]
  cases g.isAvailable i <;> cases g.holds i <;> simp [take, eq_comm]

end Group

namespace Shift

def seat (s : Shift) (g : Group) : Shift :=
  { s with
    placements := s.placements ++ [.ofGroup g]
    maleCount := s.maleCount + g.maleCount
    teamLead := g.teamLead?.or s.teamLead }

@[simp] theorem seat_index (s : Shift) (g : Group) : (s.seat g).index = s.index := rfl
@[simp] theorem seat_size (s : Shift) (g : Group) : (s.seat g).size = s.size := rfl
@[simp] theorem seat_preallocated (s : Shift) (g : Group) :
    (s.seat g).preallocated = s.preallocated := rfl
@[simp] theorem seat_placements (s : Shift) (g : Group) :
    (s.seat g).placements = s.placements ++ [.ofGroup g] := rfl
@[simp] theorem seat_maleCount (s : Shift) (g : Group) :
    (s.seat g).maleCount = s.maleCount + g.maleCount := rfl
@[simp] theorem seat_teamLead (s : Shift) (g : Group) :
    (s.seat g).teamLead = g.teamLead?.or s.teamLead := rfl

@[simp] theorem groupKeys_seat (s : Shift) (g : Group) :
    (s.seat g).groupKeys = s.groupKeys ++ [g.key] := by
  simp [groupKeys, Placement.ofGroup]

@[simp] theorem headcount_singleton (p : Placement) : headcount [p] = p.size := rfl

@[simp] theorem countMen_singleton (p : Placement) : countMen [p] = p.maleCount :=
  Int.add_zero _

@[simp] theorem headcount_append (xs ys : List Placement) :
    headcount (xs ++ ys) = headcount xs + headcount ys := by
  induction xs with
  | nil => exact (Nat.zero_add _).symm
  | cons p rest ih =>
      change p.size + headcount (rest ++ ys) = p.size + headcount rest + headcount ys
      rw [ih, Nat.add_assoc]

@[simp] theorem countMen_append (xs ys : List Placement) :
    countMen (xs ++ ys) = countMen xs + countMen ys := by
  induction xs with
  | nil => exact (Int.zero_add _).symm
  | cons p rest ih =>
      change p.maleCount + countMen (rest ++ ys) = p.maleCount + countMen rest + countMen ys
      rw [ih, Int.add_assoc]

@[simp] theorem currentSize_seat (s : Shift) (g : Group) :
    (s.seat g).currentSize = s.currentSize + g.size := by
  simp [currentSize, Nat.add_assoc]

theorem hasGroup_iff {s : Shift} {key : String} : s.hasGroup key = true ↔ key ∈ s.groupKeys := by
  simp [hasGroup]

theorem canFit_iff {s : Shift} {people : Int} :
    s.canFit people = true ↔ s.currentSize + people ≤ s.size := by
  simp [canFit]

/-- A shift has room for a group that is not on it, and brings no second lead. -/
structure Admits (s : Shift) (g : Group) : Prop where
  notOn : g.key ∉ s.groupKeys
  fits : s.currentSize + (g.size : Int) ≤ s.size
  leadFree : g.hasTeamLead = true → s.teamLead = none

theorem place_eq_ok_iff {s s' : Shift} {g : Group} :
    s.place g = .ok s' ↔ s.Admits g ∧ s' = s.seat g := by
  rw [place]
  split
  · next hon =>
      refine iff_of_false (by simp) fun h => h.1.notOn (hasGroup_iff.mp hon)
  · next hoff =>
      split
      · next hfull =>
          refine iff_of_false (by simp) fun h => ?_
          simp [canFit_iff.mpr h.1.fits] at hfull
      · next hfit =>
          have hon : g.key ∉ s.groupKeys := fun hmem => hoff (hasGroup_iff.mpr hmem)
          have hfits : s.currentSize + (g.size : Int) ≤ s.size :=
            canFit_iff.mp (by simpa using hfit)
          cases hlead : g.teamLead? with
          | none =>
              have hadmits : s.Admits g := ⟨hon, hfits, by simp [Group.hasTeamLead, hlead]⟩
              simp [hadmits, seat, hlead, eq_comm]
          | some lead =>
              cases hcurrent : s.teamLead with
              | none =>
                  have hadmits : s.Admits g := ⟨hon, hfits, fun _ => hcurrent⟩
                  simp [hadmits, seat, hlead, eq_comm]
              | some current =>
                  refine iff_of_false (by simp) fun h => ?_
                  have := h.1.leadFree (by simp [Group.hasTeamLead, hlead])
                  simp [hcurrent] at this

/-- A shift with a lead takes only groups without one. -/
theorem Admits.teamLead_seat {s : Shift} {g : Group} {lead : Volunteer} (hadmits : s.Admits g)
    (hlead : s.teamLead = some lead) : (s.seat g).teamLead = some lead := by
  cases hled : g.teamLead? with
  | none => simp [hled, hlead]
  | some other =>
      have hfree := hadmits.leadFree (by simp [Group.hasTeamLead, hled])
      simp [hlead] at hfree

end Shift

/-- All that a group and a shift need for the group to join, criteria aside. -/
structure Joins (cap : Int) (g : Group) (s : Shift) : Prop extends s.Admits g where
  capacity : (g.allocationCount : Int) < cap
  available : s.index ∈ g.available
  notHolding : s.index ∉ g.allocated

namespace Rota

theorem remainingCapacity_pos_iff {g : Group} {cap : Int} :
    0 < g.remainingCapacity cap ↔ (g.allocationCount : Int) < cap := by
  rw [Group.remainingCapacity]
  omega

theorem assign_eq_ok_iff {cap : Int} {g g' : Group} {s s' : Shift} :
    assign cap g s = .ok (g', s') ↔ Joins cap g s ∧ g' = g.take s.index ∧ s' = s.seat g := by
  simp only [assign, check_eq_ok, bind_eq_ok, pure_eq_ok, Prod.mk.injEq, Bool.not_eq_true',
    Bool.not_eq_false, Bool.not_eq_true, Int.not_le, remainingCapacity_pos_iff,
    Group.isAvailable_iff, Shift.place_eq_ok_iff, Group.record_eq_ok_iff]
  constructor
  · intro hassign
    obtain ⟨hcapacity, havailable, hholding, _, ⟨hadmits, rfl⟩, _, ⟨-, hfree, rfl⟩, rfl, rfl⟩ :=
      hassign
    exact ⟨⟨hadmits, hcapacity, havailable, hfree⟩, rfl, rfl⟩
  · intro hassign
    obtain ⟨hjoins, rfl, rfl⟩ := hassign
    refine ⟨hjoins.capacity, hjoins.available, ?_, _, ⟨hjoins.toAdmits, rfl⟩, _,
      ⟨hjoins.available, hjoins.notHolding, rfl⟩, rfl, rfl⟩
    simpa [Group.holds] using hjoins.notHolding

theorem mayJoin_iff {rota : Rota} {criteria : List Criterion} {g : Group} {s : Shift} :
    rota.mayJoin criteria g s = true ↔
      Joins rota.cap g s ∧ ∀ c ∈ criteria, c.kind.allows rota g s = true := by
  simp only [mayJoin, Bool.and_eq_true, decide_eq_true_eq, Bool.not_eq_true', List.all_eq_true,
    remainingCapacity_pos_iff, Group.isAvailable_iff, Shift.canFit_iff]
  constructor
  · intro hmay
    obtain ⟨⟨⟨⟨⟨⟨hcapacity, havailable⟩, hholding⟩, hon⟩, hlead⟩, hfits⟩, hallowed⟩ := hmay
    refine ⟨⟨⟨?_, hfits, fun hled => ?_⟩, hcapacity, havailable, ?_⟩, hallowed⟩
    · simpa [Shift.hasGroup] using hon
    · simpa [hled] using hlead
    · simpa [Group.holds] using hholding
  · intro hmay
    obtain ⟨hjoins, hallowed⟩ := hmay
    refine ⟨⟨⟨⟨⟨⟨hjoins.capacity, hjoins.available⟩, ?_⟩, ?_⟩, ?_⟩, hjoins.fits⟩, hallowed⟩
    · simpa [Group.holds] using hjoins.notHolding
    · simpa [Shift.hasGroup] using hjoins.notOn
    · cases hled : g.hasTeamLead with
      | false => rfl
      | true => simp [hjoins.leadFree hled]

/-- The rota once a group has joined a shift, each at its position. -/
def join (rota : Rota) (group : Nat) (g : Group) (shift : Nat) (s : Shift) : Rota :=
  { rota with
    groups := rota.groups.set group (g.take s.index)
    shifts := rota.shifts.set shift (s.seat g) }

theorem place_eq_ok_iff {rota after : Rota} {i j : Nat} {g : Group} {s : Shift}
    (hgroup : rota.groups[i]? = some g) (hshift : rota.shifts[j]? = some s) :
    rota.place i j = .ok after ↔ Joins rota.cap g s ∧ after = rota.join i g j s := by
  simp only [place, hgroup, hshift, bind_eq_ok, Prod.exists, assign_eq_ok_iff, pure_eq_ok]
  constructor
  · intro hplace
    obtain ⟨_, _, ⟨hjoins, rfl, rfl⟩, rfl⟩ := hplace
    exact ⟨hjoins, rfl⟩
  · intro hplace
    obtain ⟨hjoins, rfl⟩ := hplace
    exact ⟨_, _, ⟨hjoins, rfl, rfl⟩, rfl⟩

theorem place_eq_self {rota : Rota} {i j : Nat}
    (habsent : rota.groups[i]? = none ∨ rota.shifts[j]? = none) : rota.place i j = .ok rota := by
  rw [place]
  rcases habsent with hgroup | hshift
  · rw [hgroup]
  · cases hgroup : rota.groups[i]? <;> simp [hshift]

end Rota

end Rostering
