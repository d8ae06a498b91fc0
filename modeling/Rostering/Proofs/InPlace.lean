import Rostering.Proofs.Generated
import Rostering.Proofs.Joining

namespace Rostering

/-! Joining a shift as it happens in memory: shift and group are written one after the other and
field by field, and the checks of the second read what the writes to the first left. A refused
join has still written nothing: all checks of the shift stand before its first write, and those of
the group were made before the shift was touched. -/

/-- A step on a group and a shift. A refusal keeps what was written before it. -/
abbrev InPlace := EStateM Refusal (Group × Shift)

namespace InPlace

def place : InPlace Placement := do
  let (g, s) ← get
  if s.hasGroup g.key then throw (.alreadyOn g.key s.index)
  if !s.canFit g.size then throw (.doesNotFit g.key g.size s.index s.currentSize s.size)
  if let (some _, some current) := (g.teamLead?, s.teamLead) then
    throw (.leadTaken s.index current.id)
  let entry := Placement.ofGroup g
  modify fun (g, s) => (g, { s with placements := s.placements ++ [entry] })
  modify fun (g, s) => (g, { s with maleCount := s.maleCount + entry.maleCount })
  if let some lead := g.teamLead? then
    modify fun (g, s) => (g, { s with teamLead := some lead })
  return entry

def record : InPlace Unit := do
  let (g, s) ← get
  if !g.isAvailable s.index then throw (.notAvailable g.key s.index)
  if g.holds s.index then throw (.alreadyHolds g.key s.index)
  modify fun (g, s) => ({ g with allocated := g.allocated ++ [s.index] }, s)

/-- The first half of a join: after it the shift is changed and the group is not. -/
def reserve (cap : Int) : InPlace Placement := do
  let (g, s) ← get
  if g.remainingCapacity cap ≤ 0 then throw (.noCapacity g.key)
  if !g.isAvailable s.index then throw (.notAvailable g.key s.index)
  if g.holds s.index then throw (.alreadyHolds g.key s.index)
  place

def assign (cap : Int) : InPlace Placement := do
  let entry ← reserve cap
  record
  return entry

variable {cap : Int} {g : Group} {s : Shift}

/-- All of a placing's checks stand before its first write. -/
theorem run_place : place.run (g, s) = match s.place g with
    | .ok s' => .ok (.ofGroup g) (g, s')
    | .error refusal => .error refusal (g, s) := by
  obtain ⟨day, index, size, placements, preallocated, current, men⟩ := s
  rw [Shift.place, place]
  simp only [EStateM.run_bind, EStateM.run_get]
  split
  · rfl
  · split
    · rfl
    · cases hlead : g.teamLead? <;> cases current <;> rfl

theorem run_record : record.run (g, s) = match g.record s.index with
    | .ok g' => .ok () (g', s)
    | .error refusal => .error refusal (g, s) := by
  rw [Group.record, record]
  simp only [EStateM.run_bind, EStateM.run_get]
  split
  · rfl
  · split <;> rfl

theorem run_reserve : (reserve cap).run (g, s) =
    if g.remainingCapacity cap ≤ 0 then .error (.noCapacity g.key) (g, s)
    else if !g.isAvailable s.index then .error (.notAvailable g.key s.index) (g, s)
    else if g.holds s.index then .error (.alreadyHolds g.key s.index) (g, s)
    else place.run (g, s) := by
  simp only [reserve, EStateM.run_bind, EStateM.run_get]
  split
  · rfl
  · split
    · rfl
    · split <;> rfl

theorem run_reserve_eq_ok_iff {entry : Placement} {between : Group × Shift} :
    (reserve cap).run (g, s) = .ok entry between ↔
      Joins cap g s ∧ entry = .ofGroup g ∧ between = (g, s.seat g) := by
  rw [run_reserve]
  split
  · next hspent =>
      refine iff_of_false (by simp) fun h => ?_
      have := Rota.remainingCapacity_pos_iff.mpr h.1.capacity
      omega
  · next hcapacity =>
      split
      · next haway =>
          refine iff_of_false (by simp) fun h => ?_
          simp [Group.isAvailable_iff.mpr h.1.available] at haway
      · next havailable =>
          split
          · next hholds =>
              exact iff_of_false (by simp) fun h => h.1.notHolding (Group.holds_iff.mp hholds)
          · next hfree =>
              rw [run_place]
              cases hplace : s.place g with
              | error refusal =>
                  refine iff_of_false (by simp) fun h => ?_
                  simp [Shift.place_eq_ok_iff.mpr ⟨h.1.toAdmits, rfl⟩] at hplace
              | ok s' =>
                  obtain ⟨hadmits, rfl⟩ := Shift.place_eq_ok_iff.mp hplace
                  have hjoins : Joins cap g s :=
                    { hadmits with
                      capacity := Rota.remainingCapacity_pos_iff.mp (by omega)
                      available := Group.isAvailable_iff.mp (by simpa using havailable)
                      notHolding := fun hmem => hfree (Group.holds_iff.mpr hmem) }
                  simp [hjoins, eq_comm]

/-- The checks of the first half are those of the second, and no write of the first half changes
what they read: the position of the shift, and the group. -/
theorem run_record_of_reserve {entry : Placement} {between : Group × Shift}
    (hreserved : (reserve cap).run (g, s) = .ok entry between) :
    record.run between = .ok () (g.take s.index, s.seat g) := by
  obtain ⟨hjoins, -, rfl⟩ := run_reserve_eq_ok_iff.mp hreserved
  have hrecord : g.record (s.seat g).index = .ok (g.take s.index) :=
    Group.record_eq_ok_iff.mpr ⟨hjoins.available, hjoins.notHolding, rfl⟩
  rw [run_record, hrecord]

/-- The first half writes nothing before it refuses. -/
theorem run_reserve_eq_error {refusal : Refusal} {left : Group × Shift}
    (hrefused : (reserve cap).run (g, s) = .error refusal left) :
    left = (g, s) ∧ Rota.assign cap g s = .error refusal := by
  rw [run_reserve] at hrefused
  rw [Rota.assign]
  split at hrefused
  · next hspent =>
      cases hrefused
      exact ⟨rfl, by rw [if_pos hspent]; rfl⟩
  · next hcapacity =>
      rw [if_neg hcapacity]
      split at hrefused
      · next haway =>
          cases hrefused
          exact ⟨rfl, by rw [if_pos haway]; rfl⟩
      · next havailable =>
          rw [if_neg havailable]
          split at hrefused
          · next hholds =>
              cases hrefused
              exact ⟨rfl, by rw [if_pos hholds]; rfl⟩
          · next hfree =>
              rw [if_neg hfree]
              rw [run_place] at hrefused
              cases hplace : s.place g with
              | ok s' => simp [hplace] at hrefused
              | error refusal' =>
                  rw [hplace] at hrefused
                  cases hrefused
                  exact ⟨rfl, rfl⟩

/-- Run in place, a join returns and refuses as it does on values. -/
theorem run_assign : (assign cap).run (g, s) = match Rota.assign cap g s with
    | .ok after => .ok (.ofGroup g) after
    | .error refusal => .error refusal (g, s) := by
  simp only [assign, EStateM.run_bind]
  cases hreserved : (reserve cap).run (g, s) with
  | error refusal left =>
      obtain ⟨rfl, hassign⟩ := run_reserve_eq_error hreserved
      simp [hassign]
  | ok entry between =>
      obtain ⟨hjoins, rfl, -⟩ := run_reserve_eq_ok_iff.mp hreserved
      have hassign : Rota.assign cap g s = .ok (g.take s.index, s.seat g) :=
        Rota.assign_eq_ok_iff.mpr ⟨hjoins, rfl, rfl⟩
      simp [run_record_of_reserve hreserved, hassign]

end InPlace

/-- Joining is atomic. A refused join leaves group and shift as they were. A finished one has put
the group last on the shift, with its men and its lead, and the shift last in the group, and has
changed nothing else. In between, noting the shift in the group is never refused. -/
theorem joining_atomic (rota : Rota) (g : Group) (s : Shift) :
    (∀ refusal left, (InPlace.assign rota.cap).run (g, s) = .error refusal left →
      left = (g, s) ∧ Rota.assign rota.cap g s = .error refusal) ∧
    (∀ entry after, (InPlace.assign rota.cap).run (g, s) = .ok entry after →
      entry = .ofGroup g ∧
      after.1 = { g with allocated := g.allocated ++ [s.index] } ∧
      after.2 =
        { s with
          placements := s.placements ++ [entry]
          maleCount := s.maleCount + g.maleCount
          teamLead := if g.hasTeamLead then g.teamLead? else s.teamLead } ∧
      Rota.assign rota.cap g s = .ok after) ∧
    ∀ entry between, (InPlace.reserve rota.cap).run (g, s) = .ok entry between →
      ∃ after, InPlace.record.run between = .ok () after := by
  rw [InPlace.run_assign]
  refine ⟨?_, ?_, ?_⟩
  · intro refusal left hrefused
    cases hassign : Rota.assign rota.cap g s with
    | ok after => simp [hassign] at hrefused
    | error refusal' =>
        rw [hassign] at hrefused
        cases hrefused
        exact ⟨rfl, rfl⟩
  · intro entry after hreturned
    cases hassign : Rota.assign rota.cap g s with
    | error refusal => simp [hassign] at hreturned
    | ok after' =>
        rw [hassign] at hreturned
        cases hreturned
        obtain ⟨-, hgroup, hshift⟩ := Rota.assign_eq_ok_iff.mp hassign
        refine ⟨rfl, hgroup, ?_, rfl⟩
        rw [hshift]
        cases hlead : g.teamLead? <;> simp [Shift.seat, Group.hasTeamLead, hlead]
  · intro entry between hreserved
    exact ⟨_, InPlace.run_record_of_reserve hreserved⟩

namespace Sample

def led : Shift := ⟨week 2, 1, 4, [], ["dan"], some ada, 0⟩

def cyOnLed : Placement := ⟨"individual_cy", ["cy"], 0, none⟩

def ledWithCy : Shift := { led with placements := [cyOnLed] }

end Sample

/-- A second lead is refused at the last of the checks; a group without one joins. -/
theorem joining_atomic_sample :
    (∃ red ∈ Sample.start.groups, ∃ left,
      (InPlace.assign 2).run (red, Sample.led) = .error (.leadTaken 1 "ada") left ∧
      left = (red, Sample.led) ∧ Rota.assign 2 red Sample.led = .error (.leadTaken 1 "ada")) ∧
    ∃ cy ∈ Sample.start.groups, ∃ after,
      (InPlace.assign 2).run (cy, Sample.led) = .ok Sample.cyOnLed after ∧
      after = ({ cy with allocated := [1] }, Sample.ledWithCy) := by
  constructor
  · let red := Sample.start.groups[1]
    have hrun : (InPlace.assign 2).run (red, Sample.led) =
        .error (.leadTaken 1 "ada") (red, Sample.led) := rfl
    exact ⟨red, List.getElem_mem _, _, hrun,
      (joining_atomic Sample.start red Sample.led).1 _ _ hrun⟩
  · let cy := Sample.start.groups[0]
    have hrun : (InPlace.assign 2).run (cy, Sample.led) =
        .ok Sample.cyOnLed ({ cy with allocated := [1] }, Sample.ledWithCy) := rfl
    obtain ⟨-, hgroup, hshift, -⟩ :=
      (joining_atomic Sample.start cy Sample.led).2.1 _ _ hrun
    exact ⟨cy, List.getElem_mem _, _, hrun, Prod.ext hgroup hshift⟩

end Rostering
