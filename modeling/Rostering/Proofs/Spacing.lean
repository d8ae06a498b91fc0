import Rostering.Proofs.AuditErrors
import Rostering.Proofs.Generated

namespace Rostering

/-! With double shifts ruled out no run makes one. Together with coherence that is all an audit
looks for, so a generated rota passes its own. -/

/-- A shift keeps its distance from a group: it is next to none that the group holds, and not the
first after the last one that the group worked. -/
structure Rota.Rests (rota : Rota) (g : Group) (s : Shift) : Prop where
  notLast : s.index = 0 → rota.workedLast g.key = false
  notAfter : s.index - 1 ∉ g.allocated
  notBefore : s.index + 1 ∉ g.allocated

structure Rota.Spaced (rota : Rota) : Prop where
  apart : ∀ g ∈ rota.groups, ∀ i ∈ g.allocated, i + 1 ∉ g.allocated
  rested : ∀ g ∈ rota.groups, 0 ∈ g.allocated → rota.workedLast g.key = false

namespace Rota

variable {rota after : Rota} {criteria : List Criterion} {g : Group} {s : Shift}

theorem workedLast_iff {key : String} :
    rota.workedLast key = true ↔
      ∃ worked, rota.history.getLast? = some worked ∧ key ∈ worked.groupKeys := by
  rw [workedLast]
  cases rota.history.getLast? <;> simp [Shift.hasGroup_iff]

theorem allows_noDoubleShifts_iff :
    CriterionKind.noDoubleShifts.allows rota g s = true ↔ rota.Rests g s := by
  simp only [CriterionKind.allows, Bool.and_eq_true, Bool.not_eq_true', Bool.and_eq_false_imp,
    Bool.or_eq_false_iff, beq_iff_eq]
  constructor
  · intro hallowed
    obtain ⟨hlast, hafter, hbefore⟩ := hallowed
    constructor
    case notLast => exact hlast
    case notAfter => simpa [Group.holds] using hafter
    case notBefore => simpa [Group.holds] using hbefore
  · intro hrests
    refine ⟨hrests.notLast, ?_, ?_⟩
    · simpa [Group.holds] using hrests.notAfter
    · simpa [Group.holds] using hrests.notBefore

/-- Only the rule against double shifts ever rules a pair out. -/
theorem allowed_iff :
    (∀ c ∈ criteria, c.kind.allows rota g s = true) ↔
      ((∃ c ∈ criteria, c.kind = .noDoubleShifts) → rota.Rests g s) := by
  constructor
  · intro hallowed hbarred
    obtain ⟨c, hc, hkind⟩ := hbarred
    exact allows_noDoubleShifts_iff.mp (hkind ▸ hallowed c hc)
  · intro hrests c hc
    cases hkind : c.kind with
    | noDoubleShifts => exact allows_noDoubleShifts_iff.mpr (hrests ⟨c, hc, hkind⟩)
    | maleBalance => rfl
    | currentRotaUrgency => rfl
    | promoteGroups => rfl
    | shiftSpread => rfl

/-- Why a group may not join a shift that it is not on. -/
theorem reason_of_mayJoin_eq_false (hrefused : rota.mayJoin criteria g s = false)
    (hoff : g.key ∉ s.groupKeys) (hfree : s.index ∉ g.allocated) :
    s.index ∉ g.available ∨ rota.cap ≤ g.allocationCount ∨
      (g.hasTeamLead = true ∧ s.teamLead.isSome = true) ∨ s.size - s.currentSize < g.size ∨
        (∃ c ∈ criteria, c.kind = .noDoubleShifts) ∧ ¬ rota.Rests g s := by
  by_contra hnone
  simp only [not_or, not_and, Classical.not_not, Int.not_le, Int.not_lt] at hnone
  obtain ⟨havailable, hcapacity, hlead, hfits, hrests⟩ := hnone
  have hadmits : s.Admits g := by
    constructor
    case notOn => exact hoff
    case fits => omega
    case leadFree =>
      intro hled
      simpa using hlead hled
  have hjoin : rota.mayJoin criteria g s = true :=
    mayJoin_iff.mpr ⟨⟨hadmits, hcapacity, havailable, hfree⟩, allowed_iff.mpr hrests⟩
  exact Bool.false_ne_true (hrefused.symm.trans hjoin)

theorem Spaced.join {i j : Nat} (hspaced : rota.Spaced) (hgroup : rota.groups[i]? = some g)
    (hrests : rota.Rests g s) : (rota.join i g j s).Spaced := by
  have hg := List.mem_of_getElem? hgroup
  constructor
  case apart =>
    intro h hh k hk hnext
    rcases List.mem_or_eq_of_mem_set hh with hh | rfl
    · exact hspaced.apart h hh k hk hnext
    · simp only [Group.take_allocated, List.mem_append, List.mem_singleton] at hk hnext
      rcases hk with hk | rfl <;> rcases hnext with hnext | hnext
      · exact hspaced.apart g hg k hk hnext
      · exact hrests.notAfter (by rwa [← hnext, Int.add_sub_cancel])
      · exact hrests.notBefore hnext
      · omega
  case rested =>
    intro h hh hfirst
    rcases List.mem_or_eq_of_mem_set hh with hh | rfl
    · exact hspaced.rested h hh hfirst
    · simp only [Group.take_allocated, List.mem_append, List.mem_singleton] at hfirst
      rcases hfirst with hfirst | hfirst
      · exact hspaced.rested g hg hfirst
      · exact hrests.notLast hfirst.symm

theorem Spaced.picks {positions : List Nat} (hspaced : rota.Spaced)
    (hbarred : ∃ c ∈ criteria, c.kind = .noDoubleShifts)
    (hpicks : Picks criteria positions rota after) : after.Spaced := by
  refine hpicks.preserves (fun _ _ _ hpick hspaced => ?_) hspaced
  obtain ⟨hgroup, -, -, hjoin⟩ := hpick
  exact hspaced.join hgroup (allowed_iff.mp (mayJoin_iff.mp hjoin).2 hbarred)

theorem Coherent.exists_holder (hcoherent : rota.Coherent) (hclosed : rota.Closed)
    (hs : s ∈ rota.shifts) {key : String} (hkey : key ∈ s.groupKeys) :
    ∃ g ∈ rota.groups, g.key = key ∧ s.index ∈ g.allocated := by
  obtain ⟨p, hp, rfl⟩ := List.mem_map.mp hkey
  obtain ⟨g, hg, hholds, rfl⟩ := (hcoherent.mem_placements_iff hclosed hs).mp hp
  exact ⟨g, hg, rfl, hholds⟩

/-- The audit goes by the positions of the shifts, the rule by their indices. -/
theorem Spaced.no_doubleShift (hspaced : rota.Spaced) (hcoherent : rota.Coherent)
    (hclosed : rota.Closed)
    (hindex : ∀ (j : Nat) (s : Shift), rota.shifts[j]? = some s → s.index = j) :
    ¬ rota.DoubleShift := by
  intro hdouble
  rcases hdouble with ⟨s, worked, key, hshift, hlast, hkey, hworked⟩ |
    ⟨j, s, other, key, hshift, hother, hkey, hbefore⟩
  · have hs := List.mem_of_getElem? hshift
    obtain ⟨g, hg, rfl, hholds⟩ := hcoherent.exists_holder hclosed hs hkey
    rw [hindex 0 s hshift] at hholds
    have hrested := hspaced.rested g hg hholds
    have hworked := workedLast_iff.mpr ⟨worked, hlast, hworked⟩
    exact Bool.false_ne_true (hrested.symm.trans hworked)
  · have hs := List.mem_of_getElem? hshift
    obtain ⟨g, hg, rfl, hholds⟩ := hcoherent.exists_holder hclosed hs hkey
    have hheld := (hcoherent.linked g hg other (List.mem_of_getElem? hother)).mpr hbefore
    rw [hindex _ s hshift] at hholds
    rw [hindex j other hother] at hheld
    exact hspaced.apart g hg j hheld (by exact_mod_cast hholds)

end Rota

theorem Shift.Sound.leadIds_length_le {s : Shift} (hsound : s.Sound) :
    (Audit.leadIds s).length ≤ 1 := by
  rw [Audit.leadIds, List.length_filterMap_eq_countP]
  refine Nat.le_trans (List.countP_mono_left fun p _ hlead => ?_) hsound.leads_le_one
  cases hid : p.teamLeadId with
  | none => simp [hid] at hlead
  | some id => rfl

variable {request : Request} {outcome : Outcome}

theorem generate_index_eq (h : generate request = .ok outcome) {j : Nat} {s : Shift}
    (hshift : outcome.rota.shifts[j]? = some s) : s.index = j := by
  have hblank : outcome.rota.blank.shifts[j]? = some s.blank := by
    simp [Rota.blank, hshift]
  exact ((generate_prepares h).prepared j s.blank hblank).index_eq

theorem generate_spaced (h : generate request = .ok outcome)
    (hbarred : ∃ c ∈ request.policy.criteria, c.kind = .noDoubleShifts) :
    outcome.rota.Spaced := by
  obtain ⟨start, hprepares, hallocate, -⟩ := generate_ok h
  have hnone := hprepares.allocated_eq_nil
  refine Rota.Spaced.picks ⟨?_, ?_⟩ hbarred (Rota.allocate_picks hallocate)
  · intro g hg i hi
    simp [hnone g hg] at hi
  · intro g hg hfirst
    simp [hnone g hg] at hfirst

theorem hasErrors_audit_generate (h : generate request = .ok outcome) :
    Audit.hasErrors (audit outcome.rota request.policy.criteria) = false := by
  have hcoherent := generate_coherent h
  refine Bool.eq_false_iff.mpr fun herrors => ?_
  rcases Audit.hasErrors_audit_iff.mp herrors with
    ⟨s, hs, hsize | hkeys | hleads⟩ | ⟨g, hg, ⟨i, hheld, hclosed⟩ | hcap⟩ | ⟨hbarred, hdouble⟩
  · have := (hcoherent.shift_sound s hs).size_le
    omega
  · exact hkeys (hcoherent.shift_sound s hs).keys_nodup
  · exact absurd hleads (Nat.not_lt.mpr (hcoherent.shift_sound s hs).leadIds_length_le)
  · exact hclosed ((hcoherent.group_sound g hg).available i hheld)
  · have := (hcoherent.group_sound g hg).le_cap
    rw [Group.allocationCount] at hcap
    omega
  · exact (generate_spaced h hbarred).no_doubleShift hcoherent (generate_closed h)
      (fun _ _ => generate_index_eq h) hdouble

/-- The audit of a generated rota reports no error, so the run is a success exactly when it has
filled every shift. -/
theorem generated_audit_clean (h : generate request = .ok outcome) :
    (∀ issue ∈ outcome.issues, issue.severity ≠ .error) ∧
      (outcome.success = true ↔ ∀ s ∈ outcome.rota.shifts, s.isFull = true) := by
  obtain ⟨_, -, -, houtcome⟩ := generate_ok h
  have hclean := hasErrors_audit_generate h
  rw [houtcome]
  constructor
  · intro issue hissue herror
    have herrors : Audit.hasErrors (audit outcome.rota request.policy.criteria) = true :=
      List.any_eq_true.mpr ⟨issue, hissue, by simp [herror]⟩
    exact Bool.false_ne_true (hclean.symm.trans herrors)
  · simp [Outcome.ofRota, hclean, Rota.underfilled]

theorem generated_audit_clean_sample :
    ∃ outcome, generate Sample.input = .ok outcome ∧
      (∃ c ∈ Sample.input.policy.criteria, c.kind = .noDoubleShifts) ∧
      (∀ issue ∈ outcome.issues, issue.severity ≠ .error) ∧ outcome.success = false := by
  obtain ⟨outcome, h, hfinal⟩ := Sample.generate_input
  obtain ⟨hclean, hsuccess⟩ := generated_audit_clean h
  refine ⟨outcome, h, by decide, hclean, Bool.eq_false_iff.mpr fun htrue => ?_⟩
  have hfull := hsuccess.mp htrue
  rw [hfinal] at hfull
  exact absurd (hfull _ List.mem_cons_self) (by decide)

end Rostering
