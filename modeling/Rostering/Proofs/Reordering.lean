import Rostering.Proofs.RosterOrder

namespace Rostering

/-! Rotas that differ only in the order in which the members of a group stand. No check of the
audit can tell two of them apart. -/

section

variable {R : α → β → Prop} {xs : List α} {ys : List β}

theorem isEmpty_eq_of_forall₂ (h : List.Forall₂ R xs ys) : xs.isEmpty = ys.isEmpty := by
  cases h <;> rfl

theorem map_eq_of_forall₂ {f : α → γ} {g : β → γ} (hsame : ∀ x y, R x y → f x = g y)
    (h : List.Forall₂ R xs ys) : xs.map f = ys.map g := by
  induction h with
  | nil => rfl
  | cons hhead _ ih => rw [List.map_cons, List.map_cons, hsame _ _ hhead, ih]

theorem flatMap_eq_of_forall₂ {f : α → List γ} {g : β → List γ}
    (hsame : ∀ x y, R x y → f x = g y) (h : List.Forall₂ R xs ys) :
    xs.flatMap f = ys.flatMap g := by
  rw [List.flatMap_def, List.flatMap_def, map_eq_of_forall₂ hsame h]

theorem find?_of_forall₂ {test : α → Bool} {test' : β → Bool}
    (hsame : ∀ x y, R x y → test x = test' y) (h : List.Forall₂ R xs ys) :
    (xs.find? test = none ∧ ys.find? test' = none) ∨
      ∃ x y, xs.find? test = some x ∧ ys.find? test' = some y ∧ R x y := by
  induction h with
  | nil => exact .inl ⟨rfl, rfl⟩
  | @cons x y _ _ hhead _ ih =>
      rw [List.find?_cons, List.find?_cons, hsame x y hhead]
      cases test' y with
      | true => exact .inr ⟨x, y, rfl, rfl, hhead⟩
      | false => exact ih

theorem forall₂_set {x : α} {y : β} (h : List.Forall₂ R xs ys) (hnew : R x y) (i : Nat) :
    List.Forall₂ R (xs.set i x) (ys.set i y) := by
  induction h generalizing i with
  | nil => exact .nil
  | cons hhead htail ih =>
      cases i with
      | zero => exact .cons hnew htail
      | succ i => exact .cons hhead (ih i)

theorem forall₂_zipIdx (h : List.Forall₂ R xs ys) (first : Nat) :
    List.Forall₂ (fun x y => R x.1 y.1 ∧ x.2 = y.2) (xs.zipIdx first) (ys.zipIdx first) := by
  induction h generalizing first with
  | nil => exact .nil
  | cons hhead _ ih => exact .cons ⟨hhead, rfl⟩ (ih (first + 1))

end

/-- The same entry, with the members in any order. -/
structure Placement.Reordered (p q : Placement) : Prop where
  groupKey_eq : p.groupKey = q.groupKey
  memberIds_perm : p.memberIds.Perm q.memberIds
  maleCount_eq : p.maleCount = q.maleCount
  teamLeadId_eq : p.teamLeadId = q.teamLeadId

/-- The same shift with the same groups in the same order, the members of each in any order. -/
structure Shift.Reordered (s t : Shift) : Prop where
  day_eq : s.day = t.day
  index_eq : s.index = t.index
  size_eq : s.size = t.size
  placements : List.Forall₂ Placement.Reordered s.placements t.placements
  preallocated_eq : s.preallocated = t.preallocated
  lead_eq : s.teamLead = t.teamLead
  maleCount_eq : s.maleCount = t.maleCount

/-- The same rota, with the members of each group in any order. -/
structure Rota.Reordered (a b : Rota) : Prop where
  shifts : List.Forall₂ Shift.Reordered a.shifts b.shifts
  groups : List.Forall₂ Group.Reordered a.groups b.groups
  history_eq : a.history = b.history
  cap_eq : a.cap = b.cap
  target_eq : a.target = b.target

namespace Group.Reordered

variable {g h : Group} (hsame : g.Reordered h)
include hsame

theorem size_eq : g.size = h.size := hsame.members_perm.length_eq

theorem maleCount_eq : g.maleCount = h.maleCount := hsame.members_perm.countP_eq _

theorem hasTeamLead_eq : g.hasTeamLead = h.hasTeamLead := by
  rw [hasTeamLead, hasTeamLead, hsame.lead_eq]

theorem allocationCount_eq : g.allocationCount = h.allocationCount := by
  rw [allocationCount, allocationCount, hsame.allocated_eq]

theorem totalCount_eq : g.totalCount = h.totalCount := by
  rw [totalCount, totalCount, hsame.historicalCount_eq, hsame.allocationCount_eq]

theorem isAvailable_eq (i : Int) : g.isAvailable i = h.isAvailable i := by
  rw [isAvailable, isAvailable, hsame.available_eq]

theorem holds_eq (i : Int) : g.holds i = h.holds i := by
  rw [holds, holds, hsame.allocated_eq]

theorem take (i : Int) : (g.take i).Reordered (h.take i) where
  key_eq := hsame.key_eq
  members_perm := hsame.members_perm
  lead_eq := hsame.lead_eq
  available_eq := hsame.available_eq
  allocated_eq := by rw [take_allocated, take_allocated, hsame.allocated_eq]
  historicalCount_eq := hsame.historicalCount_eq

theorem placement : (Placement.ofGroup g).Reordered (.ofGroup h) where
  groupKey_eq := hsame.key_eq
  memberIds_perm := hsame.members_perm.map _
  maleCount_eq := congrArg Int.ofNat hsame.maleCount_eq
  teamLeadId_eq := congrArg (Option.map Volunteer.id) hsame.lead_eq

end Group.Reordered

theorem Placement.Reordered.refl (p : Placement) : p.Reordered p := ⟨rfl, .refl _, rfl, rfl⟩

theorem Shift.Reordered.refl (s : Shift) : s.Reordered s :=
  ⟨rfl, rfl, rfl, List.forall₂_same.mpr fun p _ => .refl p, rfl, rfl, rfl⟩

namespace Shift.Reordered

variable {s t : Shift} (hsame : s.Reordered t)
include hsame

theorem groupKeys_eq : s.groupKeys = t.groupKeys :=
  map_eq_of_forall₂ (fun _ _ => Placement.Reordered.groupKey_eq) hsame.placements

theorem currentSize_eq : s.currentSize = t.currentSize := by
  have hpeople : headcount s.placements = headcount t.placements := by
    refine List.rel_foldr ?_ rfl hsame.placements
    rintro p q hentry people _ rfl
    beta_reduce
    rw [Placement.size, Placement.size, hentry.memberIds_perm.length_eq]
  rw [currentSize, currentSize, hsame.preallocated_eq, hpeople]

theorem isFull_eq : s.isFull = t.isFull := by
  rw [isFull, isFull, hsame.size_eq, hsame.currentSize_eq]

theorem hasGroup_eq (key : String) : s.hasGroup key = t.hasGroup key := by
  rw [hasGroup, hasGroup, hsame.groupKeys_eq]

theorem canFit_eq (people : Int) : s.canFit people = t.canFit people := by
  rw [canFit, canFit, hsame.size_eq, hsame.currentSize_eq]

theorem seat {g h : Group} (hgroup : g.Reordered h) : (s.seat g).Reordered (t.seat h) where
  day_eq := hsame.day_eq
  index_eq := hsame.index_eq
  size_eq := hsame.size_eq
  placements := List.rel_append hsame.placements (.cons hgroup.placement .nil)
  preallocated_eq := hsame.preallocated_eq
  lead_eq := by rw [seat_teamLead, seat_teamLead, hgroup.lead_eq, hsame.lead_eq]
  maleCount_eq := by rw [seat_maleCount, seat_maleCount, hgroup.maleCount_eq, hsame.maleCount_eq]

end Shift.Reordered

namespace Audit

variable {a b : Rota} {s t : Shift} {g h : Group}

theorem issueOn_eq (hsame : s.Reordered t) (check : String) (severity : Severity)
    (description : String) :
    issueOn s check severity description = issueOn t check severity description := by
  rw [issueOn, issueOn, hsame.index_eq, hsame.day_eq]

theorem leadIds_eq (hsame : s.Reordered t) : leadIds s = leadIds t := by
  rw [leadIds, leadIds]
  refine List.forall₂_eq_eq_eq ▸ List.rel_filterMap ?_ hsame.placements
  intro p q hentry
  beta_reduce
  rw [hentry.teamLeadId_eq]
  cases q.teamLeadId.filter (!·.isEmpty) with
  | none => exact .none
  | some id => exact .some rfl

theorem shiftIssues_eq (hsame : s.Reordered t) : shiftIssues s = shiftIssues t := by
  simp only [shiftIssues, sizeIssues, doubleBookings, leadIssues, issueOn_eq hsame,
    leadIds_eq hsame, hsame.currentSize_eq, hsame.size_eq, hsame.groupKeys_eq, hsame.lead_eq]

theorem dateOfIndex_eq (hsame : a.Reordered b) (i : Int) : dateOfIndex a i = dateOfIndex b i := by
  have hindex : ∀ s t : Shift, s.Reordered t → (s.index == i) = (t.index == i) :=
    fun s t hshift => by rw [hshift.index_eq]
  rw [dateOfIndex, dateOfIndex]
  rcases find?_of_forall₂ hindex (List.rel_reverse hsame.shifts) with
    ⟨hnone, hnone'⟩ | ⟨s, t, hs, ht, hshift⟩
  · rw [hnone, hnone']
  · rw [hs, ht]
    exact congrArg Day.isoText hshift.day_eq

theorem groupIssues_eq (hsame : a.Reordered b) (hgroup : g.Reordered h) :
    groupIssues a g = groupIssues b h := by
  simp only [groupIssues, availabilityIssues, capIssues, dateOfIndex_eq hsame, hsame.cap_eq,
    hgroup.key_eq, hgroup.allocated_eq, hgroup.allocationCount_eq, hgroup.isAvailable_eq]

theorem maleIssues_eq (hsame : a.Reordered b) : maleIssues a = maleIssues b := by
  refine map_eq_of_forall₂ (fun s t hshift => issueOn_eq hshift _ _ _)
    (List.rel_filter ?_ hsame.shifts)
  intro s t hshift
  beta_reduce
  rw [isEmpty_eq_of_forall₂ hshift.placements, hshift.maleCount_eq]

theorem sharedKeys_eq {other other' : Shift} (hshift : s.Reordered t)
    (hother : other.Reordered other') : sharedKeys s other = sharedKeys t other' := by
  rw [sharedKeys, sharedKeys, hshift.groupKeys_eq, funext hother.hasGroup_eq]

theorem doubleShiftsAt_eq (hsame : a.Reordered b) (hshift : s.Reordered t) (position : Nat) :
    doubleShiftsAt a s position = doubleShiftsAt b t position := by
  cases position with
  | zero =>
      simp only [doubleShiftsAt, hsame.history_eq, issueOn_eq hshift, sharedKeys,
        hshift.groupKeys_eq]
  | succ before =>
      rcases getElem?_of_forall₂ hsame.shifts before with
        ⟨hnone, hnone'⟩ | ⟨other, other', hs, ht, hother⟩
      · simp only [doubleShiftsAt, hnone, hnone']
      · simp only [doubleShiftsAt, hs, ht, issueOn_eq hshift, sharedKeys_eq hshift hother]

theorem criterionIssues_eq (hsame : a.Reordered b) (c : Criterion) :
    criterionIssues a c = criterionIssues b c := by
  rw [criterionIssues, criterionIssues]
  split
  · exact maleIssues_eq hsame
  · refine flatMap_eq_of_forall₂ ?_ (forall₂_zipIdx hsame.shifts 0)
    rintro ⟨s, i⟩ ⟨t, _⟩ ⟨hshift, rfl⟩
    exact doubleShiftsAt_eq hsame hshift i
  · rfl

end Audit

open Audit in
theorem audit_eq_of_reordered {a b : Rota} (hsame : a.Reordered b) (criteria : List Criterion) :
    audit a criteria = audit b criteria := by
  have hshifts : a.shifts.flatMap shiftIssues = b.shifts.flatMap shiftIssues :=
    flatMap_eq_of_forall₂ (fun _ _ => shiftIssues_eq) hsame.shifts
  have hgroups : a.groups.flatMap (groupIssues a) = b.groups.flatMap (groupIssues b) :=
    flatMap_eq_of_forall₂ (fun _ _ => groupIssues_eq hsame) hsame.groups
  rw [audit, audit, hshifts, hgroups, funext (criterionIssues_eq hsame)]

end Rostering
