import Rostering.Proofs.Openings

namespace Rostering

/-! A shift with seats to fill gets a team lead whenever a group with one could take it. The lead
comes first, and no second one joins. -/

namespace Resolution

/-- A resolved group has at most one lead, so the first one found is the only one. -/
theorem Resolved.leads_eq {volunteers : List Volunteer} {responses : List Response} {total : Nat}
    {history : List Shift} {g : Group}
    (hresolved : Resolved volunteers responses total history g) {lead : Volunteer}
    (hlead : g.teamLead? = some lead) : g.members.filter Volunteer.isTeamLead = [lead] := by
  have hone := (judge_eq_ok_iff.mp hresolved.judged).1
  rw [List.countP_eq_length_filter] at hone
  rw [Group.teamLead?, ← List.head?_filter] at hlead
  obtain ⟨rest, hleads⟩ := List.head?_eq_some_iff.mp hlead
  rw [hleads, List.length_cons] at hone
  rw [hleads, List.eq_nil_of_length_eq_zero (Nat.le_zero.mp (Nat.le_of_succ_le_succ hone))]

end Resolution

theorem Shift.Sound.exists_lead {s : Shift} (hsound : s.Sound)
    (hlead : s.teamLead.isSome = true) : ∃ p ∈ s.placements, p.teamLeadId.isSome = true := by
  obtain ⟨lead, hlead⟩ := Option.isSome_iff_exists.mp hlead
  obtain ⟨p, hp, hid⟩ := (hsound.lead_iff lead.id).mp (by rw [hlead]; rfl)
  exact ⟨p, hp, by rw [hid]; rfl⟩

theorem Placement.isSome_teamLeadId_ofGroup (g : Group) :
    (Placement.ofGroup g).teamLeadId.isSome = g.hasTeamLead := by
  simp [Placement.ofGroup, Group.hasTeamLead]

variable {request : Request} {outcome : Outcome} {s : Shift}

section

variable (h : generate request = .ok outcome) {j : Nat}
include h

theorem generate_filled (hshift : outcome.rota.shifts[j]? = some s)
    (hfilled : s.size ≤ s.preallocated.length) : s.blank = s := by
  have hindex := generate_index_eq h hshift
  have hfill := generate_fillShift h (generate_position_lt h hshift)
  have hbefore := Rota.upTo_later_shift (i := (j : Int)) hshift (by omega)
  have hafter := Rota.upTo_shift (i := (j + 1 : Int)) hshift (by omega)
  rw [Rota.fillShift_full hbefore (Shift.blank_isFull_iff.mpr hfilled)] at hfill
  rw [← Except.ok.inj hfill, hbefore] at hafter
  exact Option.some.inj hafter

/-- A group that joined a shift could take it, within the seats not fixed beforehand. -/
theorem generate_openTo (hshift : outcome.rota.shifts[j]? = some s) {g : Group}
    (hg : g ∈ outcome.rota.groups) (hheld : s.index ∈ g.allocated) :
    request.OpenTo g s.index ∧ (g.size : Int) ≤ s.size - s.preallocated.length := by
  obtain ⟨k, hk⟩ := List.getElem?_of_mem hg
  obtain ⟨between, next, t, hsofar, hchoice, -, hgroup, ht, hblank⟩ :=
    generate_choice h hshift hk hheld
  rw [← Shift.index_eq_of_blank_eq hblank] at hgroup ⊢
  obtain ⟨hopen, hadmits⟩ := (generate_mayJoin_iff h hsofar).mp (hchoice.mayJoin hgroup ht)
  have hfits := hadmits.fits
  rw [Shift.currentSize, Shift.size_eq_of_blank_eq hblank,
    Shift.preallocated_eq_of_blank_eq hblank] at hfits
  exact ⟨hopen, by omega⟩

/-- A group with a lead that could take a shift makes the run put one there first. -/
theorem generate_lead_first (hshift : outcome.rota.shifts[j]? = some s)
    (hroom : (s.preallocated.length : Int) < s.size) {g : Group} (hg : g ∈ outcome.rota.groups)
    (hled : g.hasTeamLead = true) (hopen : request.OpenTo g s.index)
    (hfits : (g.size : Int) ≤ s.size - s.preallocated.length) :
    ∃ first ∈ outcome.rota.groups, ∃ rest lead, s.placements = .ofGroup first :: rest ∧
      first.teamLead? = some lead ∧ s.teamLead = some lead := by
  have hindex := generate_index_eq h hshift
  obtain ⟨k, hk⟩ := List.getElem?_of_mem hg
  have hfill := generate_fillShift h (generate_position_lt h hshift)
  have hstart := Rota.upTo_later_shift (i := (j : Int)) hshift (by omega)
  have hnotFull : s.blank.isFull = false := by
    refine Bool.eq_false_iff.mpr fun hfull => ?_
    have := Shift.blank_isFull_iff.mp hfull
    omega
  have heligible : k ∈ (outcome.rota.upTo j).eligibleLeads request.policy.criteria s.blank := by
    have hjoin := (generate_mayJoin_iff h (j := j) (t := s.blank) .refl).mpr
      ⟨hopen, Shift.blank_admits_iff.mpr hfits⟩
    rw [Shift.blank_index, hindex] at hjoin
    refine Rota.mem_positionsWhere.mpr ⟨g.before j, Rota.upTo_group hk, ?_⟩
    rw [Bool.and_eq_true]
    exact ⟨hled, hjoin⟩
  obtain ⟨middle, hlead, hmembers⟩ := bind_eq_ok.mp hfill
  rcases Rota.fillLead_ok hstart hnotFull rfl hlead with
    ⟨hnone, -⟩ | ⟨i, order, first, hfirst, hfirstLed, -, rfl⟩
  · rw [hnone] at heligible
    exact absurd heligible List.not_mem_nil
  · obtain ⟨final, hfinal, rfl⟩ := Rota.exists_group_of_upTo hfirst
    obtain ⟨lead, hfirstLead⟩ := Option.isSome_iff_exists.mp hfirstLed
    have hseat : ((outcome.rota.upTo j).join i (final.before j) j s.blank).shifts[j]? =
        some (s.blank.seat (final.before j)) := by
      have hlength := (List.getElem?_eq_some_iff.mp hstart).1
      simp [Rota.join, hlength]
    have hchoices := (Rota.fillMembers_ok hseat (Rota.positionsWhere_length_le _) hmembers).1
    obtain ⟨t, rest, ht, -, hplacements, hkept⟩ := hchoices.picks.shift_grows hseat
    have hafter := Rota.upTo_shift (i := (j + 1 : Int)) hshift (by omega)
    obtain rfl : s = t := Option.some.inj (hafter.symm.trans ht)
    refine ⟨final, List.mem_of_getElem? hfinal, rest, lead, hplacements, hfirstLead, ?_⟩
    apply hkept
    rw [Shift.seat_teamLead, hfirstLead, Option.some_or]

/-- With seats to fill, a shift has a lead exactly when a group with one could take it. -/
theorem generate_lead_iff (hshift : outcome.rota.shifts[j]? = some s)
    (hroom : (s.preallocated.length : Int) < s.size) :
    s.teamLead.isSome = true ↔ ∃ g ∈ outcome.rota.groups, g.hasTeamLead = true ∧
      request.OpenTo g s.index ∧ (g.size : Int) ≤ s.size - s.preallocated.length := by
  have hs := List.mem_of_getElem? hshift
  have hcoherent := generate_coherent h
  constructor
  · intro hlead
    obtain ⟨p, hp, hled⟩ := (hcoherent.shift_sound s hs).exists_lead hlead
    obtain ⟨g, hg, hheld, rfl⟩ := (hcoherent.mem_placements_iff (generate_closed h) hs).mp hp
    rw [Placement.isSome_teamLeadId_ofGroup] at hled
    exact ⟨g, hg, hled, generate_openTo h hshift hg hheld⟩
  · rintro ⟨g, hg, hled, hopen, hfits⟩
    obtain ⟨_, _, _, lead, -, -, hlead⟩ := generate_lead_first h hshift hroom hg hled hopen hfits
    rw [hlead, Option.isSome_some]

/-- Behind a first group with a lead no other one with a lead stands. -/
theorem generate_only_lead (hs : s ∈ outcome.rota.shifts) {first : Group}
    (hfirst : first ∈ outcome.rota.groups) (hfirstLed : first.hasTeamLead = true)
    {rest : List Placement} (hplacements : s.placements = .ofGroup first :: rest) {g : Group}
    (hg : g ∈ outcome.rota.groups) (hkey : g.key ∈ s.groupKeys) (hled : g.hasTeamLead = true) :
    g = first := by
  have hcoherent := generate_coherent h
  have hone := (hcoherent.shift_sound s hs).leads_le_one
  rw [← Placement.isSome_teamLeadId_ofGroup] at hfirstLed
  rw [hplacements, List.countP_cons_of_pos (p := fun p : Placement => p.teamLeadId.isSome)
    hfirstLed] at hone
  have hrest := List.countP_eq_zero.mp (Nat.le_zero.mp (Nat.le_of_succ_le_succ hone))
  have hentry : Placement.ofGroup g ∈ s.placements :=
    (hcoherent.mem_placements_iff (generate_closed h) hs).mpr
      ⟨g, hg, (hcoherent.linked g hg s hs).mpr hkey, rfl⟩
  rw [hplacements] at hentry
  rcases List.mem_cons.mp hentry with hsame | hlater
  · exact List.inj_on_of_nodup_map hcoherent.keys_nodup hg hfirst
      (congrArg Placement.groupKey hsame)
  · exact absurd (by rw [Placement.isSome_teamLeadId_ofGroup, hled]) (hrest _ hlater)

end

/-- With seats to fill, a shift has a lead exactly when a group with one could take it. Its first
group then is the only one with a lead, and has that one alone. A shift that those fixed beforehand
fill gets nobody. -/
theorem lead_seats_filled (h : generate request = .ok outcome) :
    ∀ s ∈ outcome.rota.shifts,
      ((s.preallocated.length : Int) < s.size →
        (s.teamLead.isSome = true ↔ ∃ g ∈ outcome.rota.groups, g.hasTeamLead = true ∧
          request.OpenTo g s.index ∧ (g.size : Int) ≤ s.size - s.preallocated.length)) ∧
      (∀ lead, s.teamLead = some lead → ∃ first ∈ outcome.rota.groups, ∃ rest,
        s.placements = .ofGroup first :: rest ∧
        first.members.filter Volunteer.isTeamLead = [lead] ∧
        ∀ g ∈ outcome.rota.groups, g.key ∈ s.groupKeys → g.hasTeamLead = true → g = first) ∧
      (s.size ≤ s.preallocated.length → s.teamLead = none ∧ s.placements = []) := by
  intro s hs
  obtain ⟨j, hshift⟩ := List.getElem?_of_mem hs
  have hfilled : s.size ≤ s.preallocated.length → s.teamLead = none ∧ s.placements = [] := by
    intro hfull
    rw [← generate_filled h hshift hfull]
    exact ⟨rfl, rfl⟩
  refine ⟨generate_lead_iff h hshift, fun lead hlead => ?_, hfilled⟩
  have hroom : (s.preallocated.length : Int) < s.size := by
    by_contra hfull
    rw [(hfilled (Int.not_lt.mp hfull)).1] at hlead
    simp at hlead
  obtain ⟨g, hg, hled, hopen, hfits⟩ :=
    (generate_lead_iff h hshift hroom).mp (by rw [hlead, Option.isSome_some])
  obtain ⟨first, hfirst, rest, other, hplacements, hfirstLead, hother⟩ :=
    generate_lead_first h hshift hroom hg hled hopen hfits
  obtain rfl : lead = other := Option.some.inj (hlead.symm.trans hother)
  have hfirstLed : first.hasTeamLead = true := by rw [Group.hasTeamLead, hfirstLead]; rfl
  have hresolved := (generate_prepares h).resolved _ (List.mem_map_of_mem hfirst)
  exact ⟨first, hfirst, rest, hplacements, hresolved.leads_eq hfirstLead,
    fun _ hg hkey hled => generate_only_lead h hs hfirst hfirstLed hplacements hg hkey hled⟩

namespace Sample

def seatless : Request := { input with defaultSize := 0 }

theorem prepare_seatless : seatless.prepare.toOption.map (·.1) =
    some { start with shifts := start.shifts.map fun s => { s with size := 0 } } := by
  simp only [Request.prepare, resolve, Resolution.decisions,
    Resolution.groupKeys_eq_insertionSort]
  decide +kernel

theorem generate_seatless : ∃ outcome, generate seatless = .ok outcome ∧ outcome.rota =
    { start with shifts := start.shifts.map fun s => { s with size := 0 } } :=
  exists_generate prepare_seatless (by decide +kernel)

end Sample

theorem lead_seats_filled_sample :
    (∃ outcome, generate Sample.input = .ok outcome ∧ ∃ s ∈ outcome.rota.shifts, s.index = 1 ∧
      (s.preallocated.length : Int) < s.size ∧ s.teamLead = some Sample.ada ∧
      (∃ g ∈ outcome.rota.groups, g.hasTeamLead = true ∧ Sample.input.OpenTo g s.index ∧
        (g.size : Int) ≤ s.size - s.preallocated.length) ∧
      ∃ first ∈ outcome.rota.groups, ∃ rest, s.placements = .ofGroup first :: rest ∧
        first.members.filter Volunteer.isTeamLead = [Sample.ada]) ∧
    ∃ outcome, generate Sample.seatless = .ok outcome ∧ ∃ s ∈ outcome.rota.shifts,
      s.size ≤ s.preallocated.length ∧ s.teamLead = none ∧ s.placements = [] := by
  obtain ⟨outcome, h, hfinal⟩ := Sample.generate_input
  obtain ⟨bare, hbare, hseatless⟩ := Sample.generate_seatless
  have hs : ⟨Sample.week 2, 1, 2, [⟨"red", ["ada", "bob"], 1, some "ada"⟩], [],
      some Sample.ada, 1⟩ ∈ outcome.rota.shifts := by
    rw [hfinal]
    decide
  have ht : ⟨Sample.week 2, 1, 0, [], [], none, 0⟩ ∈ bare.rota.shifts := by
    rw [hseatless]
    decide
  obtain ⟨hlead, hfirst, -⟩ := lead_seats_filled h _ hs
  obtain ⟨first, hmem, rest, hplacements, hleads, -⟩ := hfirst Sample.ada rfl
  obtain ⟨-, -, hfilled⟩ := lead_seats_filled hbare _ ht
  exact ⟨⟨outcome, h, _, hs, rfl, by decide, rfl, (hlead (by decide)).mp rfl, first, hmem, rest,
    hplacements, hleads⟩, bare, hbare, _, ht, by decide, hfilled (by decide)⟩

end Rostering
