import Rostering.Proofs.Generated

namespace Rostering

/-! What a generated rota means for one volunteer: nobody is placed against their last word, every
placed group has answered, and people are placed as often as their group, so within the cap. -/

/-- The response that counts: no later one bears the same identifier. -/
def LastResponse (responses : List Response) (id : String) (r : Response) : Prop :=
  ∃ earlier later, responses = earlier ++ r :: later ∧ r.volunteerId = id ∧
    ∀ other ∈ later, other.volunteerId ≠ id

def Shift.memberIds (s : Shift) : List String := s.placements.flatMap Placement.memberIds

namespace Resolution

variable {responses : List Response} {members : List Volunteer} {total : Nat}

theorem answerOf?_eq_some_iff {id : String} {r : Response} :
    answerOf? responses id = some r ↔ LastResponse responses id r ∧ r.responded = true := by
  rw [answerOf?, Option.filter_eq_some_iff, List.find?_eq_some_iff_append]
  refine and_congr_left fun _ => ?_
  constructor
  · intro hfound
    obtain ⟨hid, later, earlier, hreverse, hlater⟩ := hfound
    refine ⟨earlier.reverse, later.reverse, ?_, by simpa using hid, fun other hother => ?_⟩
    · simpa using congrArg List.reverse hreverse
    · simpa using hlater other (List.mem_reverse.mp hother)
  · intro hlast
    obtain ⟨earlier, later, rfl, hid, hlater⟩ := hlast
    refine ⟨by simpa using hid, later.reverse, earlier.reverse, by simp, fun other hother => ?_⟩
    simpa using hlater other (List.mem_reverse.mp hother)

theorem mem_answers_iff {r : Response} :
    r ∈ answers responses members ↔
      ∃ v ∈ members, LastResponse responses v.id r ∧ r.responded = true := by
  simp only [answers, List.mem_filterMap, answerOf?_eq_some_iff]

variable {volunteers : List Volunteer} {history : List Shift} {g : Group}

/-- A shift is open to a group only if no member who answered ruled it out. -/
theorem Resolved.not_ruled_out (hresolved : Resolved volunteers responses total history g)
    {v : Volunteer} (hv : v ∈ g.members) {r : Response} (hlast : LastResponse responses v.id r)
    (hresponded : r.responded = true) {i : Int} (hi : i ∈ g.available) : i ∉ r.unavailable := by
  have havailable := (judge_eq_ok_iff.mp hresolved.judged).2.2.2
  rw [havailable, availableShifts, IndexSet.mem_below] at hi
  have hall := List.all_eq_true.mp hi.2.2 r (mem_answers_iff.mpr ⟨v, hv, hlast, hresponded⟩)
  simpa using hall

theorem Resolved.answered (hresolved : Resolved volunteers responses total history g) :
    ∃ v ∈ g.members, ∃ r, LastResponse responses v.id r ∧ r.responded = true := by
  have hsome := (judge_eq_ok_iff.mp hresolved.judged).2.1
  obtain ⟨r, hr⟩ := List.exists_mem_of_ne_nil _ hsome
  obtain ⟨v, hv, hlast⟩ := mem_answers_iff.mp hr
  exact ⟨v, hv, r, hlast⟩

theorem Resolved.mem_members_iff (hresolved : Resolved volunteers responses total history g)
    {v : Volunteer} : v ∈ g.members ↔ v ∈ volunteers ∧ v.effectiveKey = g.key := by
  rw [hresolved.members_eq, mem_membersOf]

end Resolution

variable {request : Request} {outcome : Outcome}

theorem generate_resolved (h : generate request = .ok outcome) {g : Group}
    (hg : g ∈ outcome.rota.groups) :
    Resolution.Resolved request.volunteers request.responses request.dates.length
      request.history g.blank :=
  (generate_prepares h).resolved _ (List.mem_map_of_mem hg)

/-- Where identifiers are distinct, each belongs to the members of one group. -/
theorem generate_group_eq (h : generate request = .ok outcome)
    (hroster : (request.volunteers.map Volunteer.id).Nodup) {g g' : Group}
    (hg : g ∈ outcome.rota.groups) (hg' : g' ∈ outcome.rota.groups) {id : String}
    (hid : id ∈ g.memberIds) (hid' : id ∈ g'.memberIds) : g = g' := by
  obtain ⟨v, hv, hvid⟩ := List.mem_map.mp hid
  obtain ⟨v', hv', hvid'⟩ := List.mem_map.mp hid'
  obtain ⟨hmem, hkey⟩ := (generate_resolved h hg).mem_members_iff.mp hv
  obtain ⟨hmem', hkey'⟩ := (generate_resolved h hg').mem_members_iff.mp hv'
  have hsame : v = v' :=
    List.inj_on_of_nodup_map hroster hmem hmem' (hvid.trans hvid'.symm)
  refine List.inj_on_of_nodup_map (generate_coherent h).keys_nodup hg hg' ?_
  exact hkey.symm.trans (congrArg Volunteer.effectiveKey hsame |>.trans hkey')

theorem generate_mem_memberIds (h : generate request = .ok outcome) {s : Shift}
    (hs : s ∈ outcome.rota.shifts) {id : String} (hid : id ∈ s.memberIds) :
    ∃ g ∈ outcome.rota.groups, s.index ∈ g.allocated ∧ id ∈ g.memberIds := by
  obtain ⟨p, hp, hid⟩ := List.mem_flatMap.mp hid
  obtain ⟨g, hg, hholds, rfl⟩ :=
    ((generate_coherent h).mem_placements_iff (generate_closed h) hs).mp hp
  exact ⟨g, hg, hholds, hid⟩

theorem generate_memberIds_nodup (h : generate request = .ok outcome)
    (hroster : (request.volunteers.map Volunteer.id).Nodup) {s : Shift}
    (hs : s ∈ outcome.rota.shifts) : s.memberIds.Nodup := by
  have hentry := fun p => (generate_coherent h).mem_placements_iff (generate_closed h) hs (p := p)
  rw [Shift.memberIds, List.nodup_flatMap]
  constructor
  · intro p hp
    obtain ⟨g, hg, -, rfl⟩ := (hentry p).mp hp
    have hmembers : g.members = _ := (generate_resolved h hg).members_eq
    rw [show (Placement.ofGroup g).memberIds = g.members.map Volunteer.id from rfl, hmembers]
    exact hroster.sublist ((List.filter_sublist).map _)
  · have hkeys := List.pairwise_map.mp ((generate_coherent h).shift_sound s hs).keys_nodup
    refine hkeys.imp_of_mem fun {p q} hp hq hne id hid hid' => hne ?_
    obtain ⟨g, hg, -, rfl⟩ := (hentry p).mp hp
    obtain ⟨g', hg', -, rfl⟩ := (hentry q).mp hq
    rw [generate_group_eq h hroster hg hg' hid hid']

/-- A person is on no more shifts than the cap lets one group hold. -/
theorem generate_shifts_of_member_le (h : generate request = .ok outcome)
    (hroster : (request.volunteers.map Volunteer.id).Nodup) (id : String) :
    ((outcome.rota.shifts.filter fun s => decide (id ∈ s.memberIds)).length : Int) ≤
      request.cap := by
  have hcap : outcome.rota.cap = request.cap := (generate_prepares h).cap_eq
  cases hwith : outcome.rota.shifts.filter fun s => decide (id ∈ s.memberIds) with
  | nil => simpa using (generate_prepares h).cap_nonneg
  | cons first rest =>
      have hmem : ∀ s ∈ first :: rest, s ∈ outcome.rota.shifts ∧ id ∈ s.memberIds := by
        intro s hs
        rw [← hwith] at hs
        simpa using hs
      obtain ⟨hfirst, hid⟩ := hmem first (by simp)
      obtain ⟨g, hg, -, hid⟩ := generate_mem_memberIds h hfirst hid
      -- All these shifts are held by the one group that the person belongs to.
      have hheld : (first :: rest).map Shift.index ⊆ g.allocated := by
        intro i hi
        obtain ⟨s, hs, rfl⟩ := List.mem_map.mp hi
        obtain ⟨hs, hids⟩ := hmem s hs
        obtain ⟨g', hg', hholds, hid'⟩ := generate_mem_memberIds h hs hids
        rwa [generate_group_eq h hroster hg hg' hid hid']
      have hdistinct : ((first :: rest).map Shift.index).Nodup := by
        rw [← hwith]
        exact (generate_coherent h).indices_nodup.sublist ((List.filter_sublist).map _)
      have hlength := (hdistinct.subperm hheld).length_le
      have hbound := ((generate_coherent h).group_sound g hg).le_cap
      rw [List.length_map] at hlength
      omega

/-- Nobody is placed on a shift that their last response rules out; every placed group has a member
who answered; and only people of the roster are placed, each at most once on a shift and on no more
shifts than the cap. -/
theorem volunteers_respected (h : generate request = .ok outcome) :
    (∀ id r i, LastResponse request.responses id r → r.responded = true → i ∈ r.unavailable →
      (∀ s ∈ outcome.rota.shifts, s.index = i → ∀ p ∈ s.placements, id ∉ p.memberIds) ∧
      ∀ g ∈ outcome.rota.groups, i ∈ g.allocated → id ∉ g.memberIds) ∧
    (∀ s ∈ outcome.rota.shifts, ∀ p ∈ s.placements, ∃ id ∈ p.memberIds, ∃ r,
      LastResponse request.responses id r ∧ r.responded = true) ∧
    (∀ s ∈ outcome.rota.shifts, ∀ id ∈ s.memberIds, ∃ v ∈ request.volunteers, v.id = id) ∧
    ((request.volunteers.map Volunteer.id).Nodup →
      (∀ s ∈ outcome.rota.shifts, s.memberIds.Nodup) ∧
      ∀ id, ((outcome.rota.shifts.filter fun s => decide (id ∈ s.memberIds)).length : Int) ≤
        request.cap) := by
  have hentry := fun {s p} (hs : s ∈ outcome.rota.shifts) =>
    (generate_coherent h).mem_placements_iff (generate_closed h) hs (p := p)
  have hrefused : ∀ id r i, LastResponse request.responses id r → r.responded = true →
      i ∈ r.unavailable → ∀ g ∈ outcome.rota.groups, i ∈ g.allocated → id ∉ g.memberIds := by
    intro id r i hlast hresponded hruled g hg hholds hid
    obtain ⟨v, hv, rfl⟩ := List.mem_map.mp hid
    have havailable := ((generate_coherent h).group_sound g hg).available i hholds
    exact (generate_resolved h hg).not_ruled_out hv hlast hresponded havailable hruled
  refine ⟨fun id r i hlast hresponded hruled => ⟨?_, ?_⟩, ?_, ?_, fun hroster => ⟨?_, ?_⟩⟩
  · intro s hs hindex p hp
    subst hindex
    obtain ⟨g, hg, hholds, rfl⟩ := (hentry hs).mp hp
    exact hrefused id r s.index hlast hresponded hruled g hg hholds
  · exact hrefused id r i hlast hresponded hruled
  · intro s hs p hp
    obtain ⟨g, hg, -, rfl⟩ := (hentry hs).mp hp
    obtain ⟨v, hv, hanswer⟩ := (generate_resolved h hg).answered
    exact ⟨v.id, List.mem_map_of_mem hv, hanswer⟩
  · intro s hs id hid
    obtain ⟨g, hg, -, hid⟩ := generate_mem_memberIds h hs hid
    obtain ⟨v, hv, rfl⟩ := List.mem_map.mp hid
    exact ⟨v, ((generate_resolved h hg).mem_members_iff.mp hv).1, rfl⟩
  · exact fun s hs => generate_memberIds_nodup h hroster hs
  · exact generate_shifts_of_member_le h hroster

theorem volunteers_respected_sample :
    ∃ outcome, generate Sample.input = .ok outcome ∧ outcome.rota = Sample.final ∧
      LastResponse Sample.input.responses "ada" ⟨"ada", true, .ofList [0]⟩ ∧
      (∀ s ∈ outcome.rota.shifts, s.index = 0 → ∀ p ∈ s.placements, "ada" ∉ p.memberIds) ∧
      (Sample.input.volunteers.map Volunteer.id).Nodup ∧
      (∀ s ∈ outcome.rota.shifts, s.memberIds.Nodup) ∧
      ((outcome.rota.shifts.filter fun s => decide ("ada" ∈ s.memberIds)).length : Int) ≤ 2 := by
  obtain ⟨outcome, h, hfinal⟩ := Sample.generate_input
  have hlast : LastResponse Sample.input.responses "ada" ⟨"ada", true, .ofList [0]⟩ :=
    ⟨[⟨"cy", true, .empty⟩, ⟨"ada", true, .ofList [1]⟩], [], rfl, rfl, by simp⟩
  have hroster : (Sample.input.volunteers.map Volunteer.id).Nodup := by decide
  obtain ⟨hrefused, -, -, hdistinct⟩ := volunteers_respected h
  obtain ⟨honce, hcap⟩ := hdistinct hroster
  exact ⟨outcome, h, hfinal, hlast, (hrefused _ _ 0 hlast rfl (by decide)).1, hroster, honce,
    hcap "ada"⟩

end Rostering
