import Rostering.Proofs.Moments
import Rostering.Proofs.Spacing

namespace Rostering

/-! When a shift comes up, which groups could take it: told from the finished rota alone. -/

/-- A group could take a shift: it is free then, holds fewer earlier shifts than the cap, and would
not work a double shift where those are ruled out. -/
structure Request.OpenTo (request : Request) (g : Group) (i : Int) : Prop where
  available : i ∈ g.available
  spare : ((g.before i).allocationCount : Int) < request.cap
  rested : (∃ c ∈ request.policy.criteria, c.kind = .noDoubleShifts) →
    i - 1 ∉ g.allocated ∧
      ¬ (i = 0 ∧ ∃ worked, request.history.getLast? = some worked ∧ g.key ∈ worked.groupKeys)

namespace Shift

variable {s t : Shift} {g : Group} {i : Int}

theorem admits_before_iff : s.Admits (g.before i) ↔ s.Admits g :=
  ⟨fun h => ⟨h.notOn, h.fits, h.leadFree⟩, fun h => ⟨h.notOn, h.fits, h.leadFree⟩⟩

@[simp] theorem blank_index : s.blank.index = s.index := rfl
@[simp] theorem blank_currentSize : s.blank.currentSize = s.preallocated.length := rfl

theorem index_eq_of_blank_eq (hblank : t.blank = s.blank) : t.index = s.index := by
  simpa [blank] using congrArg Shift.index hblank

theorem size_eq_of_blank_eq (hblank : t.blank = s.blank) : t.size = s.size := by
  simpa [blank] using congrArg Shift.size hblank

theorem preallocated_eq_of_blank_eq (hblank : t.blank = s.blank) :
    t.preallocated = s.preallocated := by
  simpa [blank] using congrArg Shift.preallocated hblank

theorem blank_admits_iff :
    s.blank.Admits g ↔ (g.size : Int) ≤ s.size - s.preallocated.length := by
  constructor
  · intro hadmits
    have hfits : (s.preallocated.length : Int) + g.size ≤ s.size := hadmits.fits
    omega
  · intro hfits
    constructor
    case notOn => simp [Shift.blank, Shift.groupKeys]
    case fits =>
      change (s.preallocated.length : Int) + g.size ≤ s.size
      omega
    case leadFree => exact fun _ => rfl

theorem blank_isFull_iff : s.blank.isFull = true ↔ s.size ≤ s.preallocated.length := by
  change decide (s.size ≤ (s.preallocated.length : Int)) = true ↔ _
  rw [decide_eq_true_eq]

end Shift

variable {request : Request} {outcome : Outcome} {rota : Rota} {g : Group} {s : Shift}

theorem rests_before_iff (hhistory : rota.history = request.history) :
    rota.Rests (g.before s.index) s ↔ s.index - 1 ∉ g.allocated ∧
      ¬ (s.index = 0 ∧ ∃ worked, request.history.getLast? = some worked ∧
        g.key ∈ worked.groupKeys) := by
  constructor
  · intro hrests
    refine ⟨fun hheld => hrests.notAfter (Group.mem_before.mpr ⟨hheld, by omega⟩), ?_⟩
    intro hworked
    obtain ⟨hfirst, hworked⟩ := hworked
    rw [← hhistory] at hworked
    have hrested := hrests.notLast hfirst
    exact Bool.false_ne_true (hrested.symm.trans (Rota.workedLast_iff.mpr hworked))
  · intro hrested
    obtain ⟨hafter, hlast⟩ := hrested
    constructor
    case notLast =>
      intro hfirst
      refine Bool.eq_false_iff.mpr fun hworked => hlast ⟨hfirst, ?_⟩
      rwa [Rota.workedLast_iff, hhistory] at hworked
    case notAfter => exact fun hheld => hafter (Group.mem_before.mp hheld).1
    case notBefore =>
      intro hheld
      have := (Group.mem_before.mp hheld).2
      omega

/-- With its earlier shifts, a group may join a shift that it could take and that admits it. -/
theorem mayJoin_before_iff (hcap : rota.cap = request.cap)
    (hhistory : rota.history = request.history) :
    rota.mayJoin request.policy.criteria (g.before s.index) s = true ↔
      request.OpenTo g s.index ∧ s.Admits g := by
  rw [Rota.mayJoin_iff, Rota.allowed_iff, rests_before_iff hhistory]
  constructor
  · intro hmay
    obtain ⟨hjoins, hrested⟩ := hmay
    refine ⟨⟨hjoins.available, ?_, hrested⟩, Shift.admits_before_iff.mp hjoins.toAdmits⟩
    exact hcap ▸ hjoins.capacity
  · intro hopen
    obtain ⟨hopen, hadmits⟩ := hopen
    refine ⟨⟨Shift.admits_before_iff.mpr hadmits, ?_, hopen.available, ?_⟩, hopen.rested⟩
    · exact hcap.symm ▸ hopen.spare
    · exact fun hheld => Int.lt_irrefl _ (Group.mem_before.mp hheld).2

section

variable (h : generate request = .ok outcome) {j k : Nat}
include h

theorem generate_cap_eq : outcome.rota.cap = request.cap := (generate_prepares h).cap_eq

theorem generate_history_eq : outcome.rota.history = request.history :=
  (generate_prepares h).history_eq

theorem generate_position_lt (hshift : outcome.rota.shifts[j]? = some s) :
    j < request.dates.length := by
  have hlength := (generate_prepares h).shifts_length
  simp only [Rota.blank, List.length_map] at hlength
  have := (List.getElem?_eq_some_iff.mp hshift).1
  omega

/-- While a shift is filled, the cap and the history are those of the request. -/
theorem generate_mayJoin_iff {between : Rota} {t : Shift}
    (hsofar : Rota.Choices request.policy j (outcome.rota.upTo j) between) :
    between.mayJoin request.policy.criteria (g.before t.index) t = true ↔
      request.OpenTo g t.index ∧ t.Admits g := by
  have hblank := hsofar.picks.blank_eq
  apply mayJoin_before_iff
  · exact (Rota.cap_eq_of_blank_eq hblank).trans (generate_cap_eq h)
  · exact (Rota.history_eq_of_blank_eq hblank).trans (generate_history_eq h)

/-- A group holds a shift because a run chose it, with its earlier shifts, for that shift. -/
theorem generate_choice (hshift : outcome.rota.shifts[j]? = some s)
    (hgroup : outcome.rota.groups[k]? = some g) (hheld : s.index ∈ g.allocated) :
    ∃ between next t,
      Rota.Choices request.policy j (outcome.rota.upTo j) between ∧
      Rota.Choice request.policy j between k next ∧
      Rota.Choices request.policy j next (outcome.rota.upTo (j + 1)) ∧
      between.groups[k]? = some (g.before s.index) ∧
      between.shifts[j]? = some t ∧ t.blank = s.blank := by
  have hindex := generate_index_eq h hshift
  have hfill := generate_fillShift h (generate_position_lt h hshift)
  have hchoices := (Rota.fillShift_ok hfill).1
  have hbefore := Rota.upTo_group (i := (j : Int)) hgroup
  have hafter := Rota.upTo_group (i := (j + 1 : Int)) hgroup
  have hchanged : (outcome.rota.upTo (j + 1)).groups[k]? ≠ some (g.before j) := by
    rw [hafter]
    intro hsame
    have hmem : s.index ∈ (g.before (j + 1)).allocated :=
      Group.mem_before.mpr ⟨hheld, by omega⟩
    rw [Option.some.inj hsame] at hmem
    have := (Group.mem_before.mp hmem).2
    omega
  obtain ⟨between, next, hsofar, hchoice, hlater, hthen⟩ :=
    hchoices.exists_choice hbefore hchanged
  have hstart := Rota.upTo_later_shift (i := (j : Int)) hshift (by omega)
  obtain ⟨t, -, ht, hblank, -⟩ := hsofar.picks.shift_grows hstart
  exact ⟨between, next, t, hsofar, hchoice, hlater, by rw [hindex]; exact hthen, ht, hblank⟩

end

end Rostering
