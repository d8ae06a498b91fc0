import Rostering.Proofs.Openings
import Rostering.Proofs.RuleLines
import Rostering.Proofs.Volunteers
import Mathlib.Data.Finset.Card

namespace Rostering

open Text

/-! Who has a seat on a shift: the people whom overrides fix beforehand, each once, and the members
of the groups placed there, each once. Nothing compares the two, so a person may be among both and
then takes two seats. -/

/-- Everybody on a shift, seat by seat. -/
def Shift.people (s : Shift) : List String := s.preallocated ++ s.memberIds

namespace Rotation

theorem mem_addNew {people more : List String} {id : String} :
    id ∈ addNew people more ↔ id ∈ people ∨ id ∈ more := by
  induction more generalizing people with
  | nil => simp [addNew]
  | cons p rest ih =>
      rw [addNew, List.foldl_cons, ← addNew, ih]
      by_cases hp : people.contains p = true
      · have hmem : id = p → id ∈ people := fun heq => heq ▸ List.contains_iff_mem.mp hp
        rw [if_pos hp, List.mem_cons, ← or_assoc, or_iff_left_of_imp hmem]
      · rw [if_neg hp, List.mem_append, List.mem_singleton, List.mem_cons, or_assoc]

theorem nodup_addNew {people : List String} (hpeople : people.Nodup) (more : List String) :
    (addNew people more).Nodup := by
  induction more generalizing people with
  | nil => exact hpeople
  | cons p rest ih =>
      rw [addNew, List.foldl_cons, ← addNew]
      refine ih ?_
      by_cases hp : people.contains p = true
      · simpa only [hp, if_true] using hpeople
      · have hnew : p ∉ people := fun hmem => hp (List.contains_iff_mem.mpr hmem)
        rw [if_neg hp, List.nodup_append]
        refine ⟨hpeople, List.nodup_singleton p, fun id hid other hother heq => ?_⟩
        obtain rfl := List.mem_singleton.mp hother
        exact hnew (heq ▸ hid)

theorem foldl_apply_preallocated (hits : List Hits) (plan : Plan) :
    (hits.foldl (fun plan hit => plan.apply hit.1) plan).preallocated =
      hits.foldl (fun people hit => addNew people hit.1.preallocated) plan.preallocated := by
  induction hits generalizing plan with
  | nil => rfl
  | cons hit rest ih => exact ih (plan.apply hit.1)

theorem mem_planOf_preallocated {size : Int} {hits : List Hits} {day : Day} {id : String} :
    id ∈ (planOf size hits day).preallocated ↔
      ∃ hit ∈ hits, day ∈ hit.2 ∧ id ∈ hit.1.preallocated := by
  have hfold : ∀ (hits : List Hits) (people : List String),
      id ∈ hits.foldl (fun people hit => addNew people hit.1.preallocated) people ↔
        id ∈ people ∨ ∃ hit ∈ hits, id ∈ hit.1.preallocated := by
    intro hits
    induction hits with
    | nil => simp
    | cons hit rest ih =>
        intro people
        rw [List.foldl_cons, ih, mem_addNew, or_assoc]
        simp
  rw [planOf, foldl_apply_preallocated, hfold]
  simp [and_assoc]

theorem planOf_preallocated_nodup (size : Int) (hits : List Hits) (day : Day) :
    (planOf size hits day).preallocated.Nodup := by
  rw [planOf, foldl_apply_preallocated]
  exact List.foldlRecOn (motive := List.Nodup) _ _ .nil fun _ hpeople hit _ =>
    nodup_addNew hpeople hit.1.preallocated

theorem Plan.shift_preallocated (plan : Plan) (day : Day) (index : Int) :
    (plan.shift day index).preallocated = if plan.closed then [] else plan.preallocated := by
  rw [Plan.shift]
  split <;> rfl

theorem hitsOf_overrides {dates : List Day} {overrides : List Override} {hits : List Hits}
    (h : hitsOf dates overrides = .ok hits) {hit : Hits} (hhit : hit ∈ hits) :
    hit.1 ∈ overrides := by
  rw [hitsOf] at h
  split at h
  · obtain ⟨o, ho, hpair⟩ := (mem_of_mapM_eq_ok h).mp hhit
    obtain ⟨days, -, hpair⟩ := bind_eq_ok.mp hpair
    rw [← pure_eq_ok.mp hpair]
    exact ho
  · obtain rfl := Except.ok.inj h
    cases hhit

end Rotation

open Rotation in
/-- On a new shift everybody stands once, and only people whom an override names. -/
theorem buildShifts_preallocated {dates : List Day} {size : Int} {overrides : List Override}
    {shifts : List Shift} (h : buildShifts dates size overrides = .ok shifts) {s : Shift}
    (hs : s ∈ shifts) :
    s.preallocated.Nodup ∧ ∀ id ∈ s.preallocated, ∃ o ∈ overrides, id ∈ o.preallocated := by
  simp only [buildShifts, check_eq_ok, bind_eq_ok, pure_eq_ok] at h
  obtain ⟨-, hits, hhits, rfl⟩ := h
  obtain ⟨⟨day, i⟩, -, rfl⟩ := List.mem_map.mp hs
  rw [Plan.shift_preallocated]
  split
  · simp
  · refine ⟨planOf_preallocated_nodup _ _ _, fun id hid => ?_⟩
    obtain ⟨hit, hhit, -, hid⟩ := mem_planOf_preallocated.mp hid
    exact ⟨hit.1, hitsOf_overrides hhits hhit, hid⟩

namespace Shift

theorem length_memberIds (s : Shift) : s.memberIds.length = headcount s.placements := by
  rw [memberIds]
  induction s.placements with
  | nil => rfl
  | cons p rest ih =>
      rw [List.flatMap_cons, List.length_append, ih]
      rfl

theorem length_people (s : Shift) : s.people.length = s.currentSize := by
  rw [people, List.length_append, length_memberIds, currentSize]

/-- Where both parts name each person once, the seats are the people and, once more, those whom both
parts name. -/
theorem currentSize_eq_card_add {s : Shift} (hfixed : s.preallocated.Nodup)
    (hplaced : s.memberIds.Nodup) :
    s.currentSize = s.people.toFinset.card +
      (s.preallocated.filter fun id => decide (id ∈ s.memberIds)).length := by
  have hboth : (s.preallocated.filter fun id => decide (id ∈ s.memberIds)).toFinset =
      s.preallocated.toFinset ∩ s.memberIds.toFinset := by
    ext id
    simp
  rw [← length_people, people, List.length_append, ← List.toFinset_card_of_nodup hfixed,
    ← List.toFinset_card_of_nodup hplaced, ← List.toFinset_card_of_nodup (hfixed.filter _), hboth,
    List.toFinset_append, Finset.card_union_add_card_inter]

end Shift

variable {request : Request} {outcome : Outcome}

theorem generate_preallocated (h : generate request = .ok outcome) {s : Shift}
    (hs : s ∈ outcome.rota.shifts) :
    s.preallocated.Nodup ∧
      ∀ id ∈ s.preallocated, ∃ o ∈ request.overrides, id ∈ o.preallocated := by
  obtain ⟨start, report, final, hprepare, hfill, rfl⟩ := generate_eq_ok_iff.mp h
  obtain ⟨j, hj⟩ := List.getElem?_of_mem hs
  obtain ⟨before, hbefore, hblank⟩ :=
    Rota.exists_shift_of_blank_eq (Rota.fillShifts_picks hfill).blank_eq hj
  simp only [Request.prepare, bind_eq_ok, pure_eq_ok] at hprepare
  obtain ⟨_, -, _, -, shifts, hshifts, hpair⟩ := hprepare
  obtain ⟨rfl, -⟩ := Prod.mk.inj hpair
  rw [← Shift.preallocated_eq_of_blank_eq hblank]
  exact buildShifts_preallocated hshifts (List.mem_of_getElem? hbefore)

/-- Where identifiers are distinct, a shift names each person it fixes once and each member placed
there once. The seats are one to a person exactly if nobody is among both; each who is takes two. So
they are one to a person where the overrides name nobody of the roster. -/
theorem one_seat_each_iff (h : generate request = .ok outcome)
    (hroster : (request.volunteers.map Volunteer.id).Nodup) {s : Shift}
    (hs : s ∈ outcome.rota.shifts) :
    s.preallocated.Nodup ∧ s.memberIds.Nodup ∧
    (s.people.Nodup ↔ ∀ id ∈ s.preallocated, id ∉ s.memberIds) ∧
    s.currentSize = s.people.toFinset.card +
      (s.preallocated.filter fun id => decide (id ∈ s.memberIds)).length ∧
    ((∀ o ∈ request.overrides, ∀ id ∈ o.preallocated, ∀ v ∈ request.volunteers, v.id ≠ id) →
      s.people.Nodup) := by
  obtain ⟨hfixed, hnamed⟩ := generate_preallocated h hs
  have hplaced := generate_memberIds_nodup h hroster hs
  have hiff : s.people.Nodup ↔ ∀ id ∈ s.preallocated, id ∉ s.memberIds := by
    rw [Shift.people, List.nodup_append']
    simp only [hfixed, hplaced, true_and, List.Disjoint]
  refine ⟨hfixed, hplaced, hiff, Shift.currentSize_eq_card_add hfixed hplaced, fun hapart => ?_⟩
  refine hiff.mpr fun id hid hmember => ?_
  obtain ⟨o, ho, hid⟩ := hnamed id hid
  obtain ⟨g, hg, -, hmember⟩ := generate_mem_memberIds h hs hmember
  obtain ⟨v, hv, rfl⟩ := List.mem_map.mp hmember
  exact hapart o ho v.id hid v ((generate_resolved h hg).mem_members_iff.mp hv).1 rfl

namespace Sample

def pinning : Override where
  ruleText := "FREQ=DAILY"
  schedule := { rules := [{ frequency := .daily }] }
  preallocated := ["cy"]

theorem make_pinning : Override.make "FREQ=DAILY" none ["cy"] = .ok pinning :=
  @Override.make_of_line _ _ _ _ _ _ "FREQ=DAILY".toList _ (by decide +kernel) (by decide +kernel)
    (by decide +kernel) (by simp)

def pinned : Request where
  volunteers := [cy]
  responses := [⟨"cy", true, .empty⟩]
  dates := [week 1]
  defaultSize := 2
  overrides := [pinning]

def pinnedShift : Shift :=
  ⟨week 1, 0, 2, [⟨"individual_cy", ["cy"], 0, none⟩], ["cy"], none, 0⟩

theorem prepare_pinned : pinned.prepare.toOption.map (·.1) =
    some { shifts := [⟨week 1, 0, 2, [], ["cy"], none, 0⟩]
           groups := [⟨"individual_cy", [cy], .ofList [0], [], 0⟩] } := by
  simp only [Request.prepare, resolve, Resolution.decisions,
    Resolution.groupKeys_eq_insertionSort]
  decide +kernel

theorem generate_pinned : ∃ outcome, generate pinned = .ok outcome ∧ outcome.rota =
    { shifts := [pinnedShift], groups := [⟨"individual_cy", [cy], .ofList [0], [0], 0⟩] } :=
  exists_generate prepare_pinned (by decide +kernel)

end Sample

theorem one_seat_each_iff_sample :
    ∃ outcome, generate Sample.pinned = .ok outcome ∧
      (Sample.pinned.volunteers.map Volunteer.id).Nodup ∧
      Sample.pinnedShift ∈ outcome.rota.shifts ∧
      (Sample.pinnedShift.people.Nodup ↔
        ∀ id ∈ Sample.pinnedShift.preallocated, id ∉ Sample.pinnedShift.memberIds) ∧
      Sample.pinnedShift.currentSize = Sample.pinnedShift.people.toFinset.card + 1 := by
  obtain ⟨outcome, h, hrota⟩ := Sample.generate_pinned
  have hroster : (Sample.pinned.volunteers.map Volunteer.id).Nodup := by decide
  have hs : Sample.pinnedShift ∈ outcome.rota.shifts := by
    rw [hrota]
    exact List.mem_singleton_self _
  obtain ⟨-, -, hiff, hseats, -⟩ := one_seat_each_iff h hroster hs
  exact ⟨outcome, h, hroster, hs, hiff, hseats⟩

/-- A person of the roster whom an override fixes may also be placed with the group, and then has
two seats on the shift. -/
theorem seat_taken_twice :
    Override.make "FREQ=DAILY" none ["cy"] = .ok Sample.pinning ∧
    (Sample.pinned.volunteers.map Volunteer.id).Nodup ∧
    ∃ outcome, generate Sample.pinned = .ok outcome ∧
      ∃ s ∈ outcome.rota.shifts, ¬ s.people.Nodup ∧ s.people.toFinset.card < s.currentSize := by
  obtain ⟨outcome, h, hrota⟩ := Sample.generate_pinned
  have hs : Sample.pinnedShift ∈ outcome.rota.shifts := by
    rw [hrota]
    exact List.mem_singleton_self _
  exact ⟨Sample.make_pinning, by decide, outcome, h, Sample.pinnedShift, hs, by decide, by decide⟩

end Rostering
