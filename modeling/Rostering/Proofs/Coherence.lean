import Rostering.Proofs.Filling

namespace Rostering

/-! A placement is stored twice: the shift has an entry for the group, and the group has the index
of the shift. A coherent rota keeps both sides in step and within their bounds. -/

/-- The entries of a shift fit it and add up, and at most one of them leads. -/
structure Shift.Sound (s : Shift) : Prop where
  size_le : (s.currentSize : Int) ≤ s.size
  keys_nodup : s.groupKeys.Nodup
  maleCount_eq : s.maleCount = Shift.countMen s.placements
  leads_le_one : s.placements.countP (fun p => p.teamLeadId.isSome) ≤ 1
  lead_iff : ∀ id, s.teamLead.map Volunteer.id = some id ↔
    ∃ p ∈ s.placements, p.teamLeadId = some id

/-- A group holds distinct shifts that are open to it, and no more than the cap. -/
structure Group.Sound (cap : Int) (g : Group) : Prop where
  nodup : g.allocated.Nodup
  available : ∀ i ∈ g.allocated, i ∈ g.available
  le_cap : (g.allocated.length : Int) ≤ cap

structure Rota.Coherent (rota : Rota) : Prop where
  keys_nodup : (rota.groups.map Group.key).Nodup
  indices_nodup : (rota.shifts.map Shift.index).Nodup
  shift_sound : ∀ s ∈ rota.shifts, s.Sound
  group_sound : ∀ g ∈ rota.groups, g.Sound rota.cap
  linked : ∀ g ∈ rota.groups, ∀ s ∈ rota.shifts,
    s.index ∈ g.allocated ↔ g.key ∈ s.groupKeys
  entry : ∀ g ∈ rota.groups, ∀ s ∈ rota.shifts, ∀ p ∈ s.placements,
    p.groupKey = g.key → p = .ofGroup g

namespace Shift

theorem Sound.no_lead {s : Shift} (hsound : s.Sound) (hlead : s.teamLead = none) :
    ∀ p ∈ s.placements, p.teamLeadId = none := by
  intro p hp
  cases hid : p.teamLeadId with
  | none => rfl
  | some id =>
      have := (hsound.lead_iff id).mpr ⟨p, hp, hid⟩
      simp [hlead] at this

theorem Sound.seat {s : Shift} {g : Group} (hsound : s.Sound) (hadmits : s.Admits g) :
    (s.seat g).Sound where
  size_le := by
    have := hadmits.fits
    simp only [currentSize_seat, seat_size]
    omega
  keys_nodup := by
    rw [groupKeys_seat, List.nodup_append]
    refine ⟨hsound.keys_nodup, List.nodup_singleton _, fun key hkey other hother => ?_⟩
    obtain rfl := List.mem_singleton.mp hother
    intro heq
    exact hadmits.notOn (heq ▸ hkey)
  maleCount_eq := by
    simp [hsound.maleCount_eq, Placement.ofGroup]
  leads_le_one := by
    have hbefore := hsound.leads_le_one
    cases hled : g.teamLead? with
    | none => simpa [Placement.ofGroup, hled] using hbefore
    | some lead =>
        have hfree := hadmits.leadFree (by simp [Group.hasTeamLead, hled])
        have hnone : s.placements.countP (fun p => p.teamLeadId.isSome) = 0 := by
          refine List.countP_eq_zero.mpr fun p hp => ?_
          simp [hsound.no_lead hfree p hp]
        simp [hnone, Placement.ofGroup, hled]
  lead_iff := by
    intro id
    cases hled : g.teamLead? with
    | none => simpa [Placement.ofGroup, hled, or_and_right, exists_or] using hsound.lead_iff id
    | some lead =>
        have hfree := hadmits.leadFree (by simp [Group.hasTeamLead, hled])
        have hnone : ¬ ∃ p ∈ s.placements, p.teamLeadId = some id := by
          intro hled
          obtain ⟨p, hp, hid⟩ := hled
          simp [hsound.no_lead hfree p hp] at hid
        simp only [seat_teamLead, hled, Option.some_or, Option.map_some, seat_placements,
          List.mem_append, List.mem_singleton, or_and_right, exists_or, exists_eq_left, hnone,
          false_or, Placement.ofGroup]

end Shift

theorem Group.Sound.take {cap : Int} {g : Group} {s : Shift} (hsound : g.Sound cap)
    (hjoins : Joins cap g s) : (g.take s.index).Sound cap where
  nodup := by
    rw [take_allocated, List.nodup_append]
    refine ⟨hsound.nodup, List.nodup_singleton _, fun i hi k hk => ?_⟩
    obtain rfl := List.mem_singleton.mp hk
    intro heq
    exact hjoins.notHolding (heq ▸ hi)
  available := by
    intro i hi
    rcases List.mem_append.mp hi with hi | hi
    · exact hsound.available i hi
    · obtain rfl := List.mem_singleton.mp hi
      exact hjoins.available
  le_cap := by
    have := hjoins.capacity
    simp only [take_allocated, List.length_append, List.length_singleton, allocationCount] at *
    omega

namespace Rota

variable {rota after : Rota} {criteria : List Criterion} {policy : Policy}

/-- A join keeps both sides in step: it adds the pair to each, and touches no other pair. -/
theorem Coherent.join {i j : Nat} {g : Group} {s : Shift} (hcoherent : rota.Coherent)
    (hgroup : rota.groups[i]? = some g) (hshift : rota.shifts[j]? = some s)
    (hjoins : Joins rota.cap g s) : (rota.join i g j s).Coherent := by
  have hg := List.mem_of_getElem? hgroup
  have hs := List.mem_of_getElem? hshift
  have hgroups : ∀ h ∈ (rota.join i g j s).groups,
      h = g.take s.index ∨ h ∈ rota.groups ∧ h.key ≠ g.key :=
    fun h => mem_set_of_nodup_map hcoherent.keys_nodup hgroup
  have hshifts : ∀ t ∈ (rota.join i g j s).shifts,
      t = s.seat g ∨ t ∈ rota.shifts ∧ t.index ≠ s.index :=
    fun t => mem_set_of_nodup_map hcoherent.indices_nodup hshift
  constructor
  case keys_nodup =>
    rw [Rota.join, set_map_self hgroup (Group.take_key g s.index)]
    exact hcoherent.keys_nodup
  case indices_nodup =>
    rw [Rota.join, set_map_self hshift (Shift.seat_index s g)]
    exact hcoherent.indices_nodup
  case shift_sound =>
    intro t ht
    rcases hshifts t ht with rfl | ⟨ht, -⟩
    · exact (hcoherent.shift_sound s hs).seat hjoins.toAdmits
    · exact hcoherent.shift_sound t ht
  case group_sound =>
    intro h hh
    rcases hgroups h hh with rfl | ⟨hh, -⟩
    · exact (hcoherent.group_sound g hg).take hjoins
    · exact hcoherent.group_sound h hh
  case linked =>
    intro h hh t ht
    rcases hgroups h hh with rfl | ⟨hh, hkey⟩ <;> rcases hshifts t ht with rfl | ⟨ht, hindex⟩
    · simp
    · simpa [hindex] using hcoherent.linked g hg t ht
    · simpa [hkey] using hcoherent.linked h hh s hs
    · exact hcoherent.linked h hh t ht
  case entry =>
    intro h hh t ht p hp hsame
    have hold : ∀ u ∈ rota.shifts, p ∈ u.placements → p = .ofGroup h := by
      intro u hu hp
      rcases hgroups h hh with rfl | ⟨hh, -⟩
      · exact hcoherent.entry g hg u hu p hp hsame
      · exact hcoherent.entry h hh u hu p hp hsame
    rcases hshifts t ht with rfl | ⟨ht, -⟩
    · rcases List.mem_append.mp hp with hp | hp
      · exact hold s hs hp
      · obtain rfl := List.mem_singleton.mp hp
        rcases hgroups h hh with rfl | ⟨-, hkey⟩
        · rfl
        · exact absurd hsame.symm hkey
    · exact hold t ht hp

theorem Coherent.place {i j : Nat} (hcoherent : rota.Coherent)
    (hplace : rota.place i j = .ok after) : after.Coherent := by
  cases hgroup : rota.groups[i]? with
  | none =>
      rw [place_eq_self (Or.inl hgroup)] at hplace
      exact Except.ok.inj hplace ▸ hcoherent
  | some g =>
      cases hshift : rota.shifts[j]? with
      | none =>
          rw [place_eq_self (Or.inr hshift)] at hplace
          exact Except.ok.inj hplace ▸ hcoherent
      | some s =>
          obtain ⟨hjoins, rfl⟩ := (place_eq_ok_iff hgroup hshift).mp hplace
          exact hcoherent.join hgroup hshift hjoins

theorem Coherent.picks {positions : List Nat} (hcoherent : rota.Coherent)
    (hpicks : Picks criteria positions rota after) : after.Coherent := by
  refine hpicks.preserves (fun _ _ _ hpick hcoherent => ?_) hcoherent
  obtain ⟨hgroup, hshift, -, hjoin⟩ := hpick
  exact hcoherent.join hgroup hshift (mayJoin_iff.mp hjoin).1

theorem Coherent.allocate (hcoherent : rota.Coherent)
    (hallocate : rota.allocate policy = .ok after) : after.Coherent :=
  hcoherent.picks (allocate_picks hallocate)

end Rota

end Rostering
