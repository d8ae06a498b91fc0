import Rostering.Proofs.ExactScores
import Rostering.Proofs.NearOne

namespace Rostering

/-! What urgency takes a group to have left: the shifts still to come that are open to it, and with
them those that it was passed over for. -/

namespace Group

variable {g : Group}

/-- How many shifts from an index on are open to a group and not held by it. -/
def openFrom (g : Group) (i : Int) : Nat :=
  g.available.toList.countP fun k => !g.holds k && decide (i ≤ k)

/-- How many shifts before an index were open to a group and are not held by it. -/
def passedBefore (g : Group) (i : Int) : Nat :=
  g.available.toList.countP fun k => !g.holds k && !decide (i ≤ k)

theorem countP_holds {cap : Int} (hsound : g.Sound cap) :
    g.available.toList.countP g.holds = g.allocationCount := by
  have hsame : (g.available.toList.filter g.holds).Perm g.allocated := by
    rw [List.perm_ext_iff_of_nodup (g.available.nodup.filter _) hsound.nodup]
    intro k
    rw [List.mem_filter, holds_iff]
    exact ⟨And.right, fun hk => ⟨hsound.available k hk, hk⟩⟩
  rw [List.countP_eq_length_filter, hsame.length_eq, allocationCount]

theorem left_eq {cap : Int} (hsound : g.Sound cap) (i : Int) :
    g.left = g.openFrom i + g.passedBefore i := by
  have hheld := countP_holds hsound
  have hparts := List.length_eq_countP_add_countP g.holds (l := g.available.toList)
  have hfree := List.countP_eq_countP_filter_add g.available.toList (fun k => !g.holds k)
    (fun k => decide (i ≤ k))
  simp only [List.countP_filter] at hfree
  simp only [Bool.not_eq_true, Bool.decide_eq_false] at hparts
  rw [left, IndexSet.size, openFrom, passedBefore]
  omega

/-- More shifts are needed than are left, some of which may be past. -/
def FallsShort (g : Group) (i need : Int) : Prop :=
  0 < g.openFrom i + g.passedBefore i ∧ g.openFrom i + g.passedBefore i < need

end Group

theorem Score.currentRotaUrgency_rounded {rota : Rota} {g : Group} {need : Int}
    (hneed : needed Number rota g = .ok need) (hsmall : need.natAbs ≤ safeCount)
    (hfew : g.left ≤ Binary64.denseCount) :
    ∃ x, currentRotaUrgency rota g = .ok (Number.real x) ∧
      (Binary64.zero.lt x = true ↔ 0 < g.left ∧ g.left < need) := by
  simp only [currentRotaUrgency]
  change ∃ x, (if g.left ≤ 0 then _ else _) = _ ∧ _
  split
  · next hnone =>
      refine ⟨.zero, Number.ratio_zero, ?_⟩
      rw [Binary64.lt_irrefl]
      exact iff_of_false Bool.false_ne_true fun hleft => absurd hleft.1 (Int.not_lt.mpr hnone)
  · next hsome =>
      have hleft : 0 < g.left := Int.not_le.mp hsome
      obtain ⟨x, hx, hpositive⟩ := urgency_rounded hleft hfew hsmall
      refine ⟨x, ?_, hpositive.trans (and_iff_right hleft).symm⟩
      rw [hneed]
      exact hx

/-- Urgency is above nothing exactly where a group falls short. While it has not been passed over
that is where it needs more than it can still get; each shift it is passed over for takes urgency
down as if it could still be got. -/
theorem urgency_counts_passed {request : Request} {j : Nat} {rota : Rota}
    (hreach : request.Reaches j rota) {g : Group} (hg : g ∈ rota.groups) (s : Shift) (i : Int) :
    (∃ q x : Rat, rota.target.value? = some q ∧
      CriterionKind.currentRotaUrgency.score rota g s = .ok x ∧
      (0 < x ↔ g.FallsShort i (⌊rota.shifts.length * q⌋ - g.allocationCount))) ∧
    (rota.shifts.length ≤ Binary64.denseCount →
      ∃ need x, Score.needed Number rota g = .ok need ∧
        CriterionKind.currentRotaUrgency.score rota g s = .ok (Number.real x) ∧
        (Binary64.zero.lt x = true ↔ g.FallsShort i need) ∧
        (g.passedBefore i = 0 → 0 < g.openFrom i → g.openFrom i < need →
          Binary64.zero.lt x = true)) := by
  have hleft := Group.left_eq (hreach.coherent.group_sound g hg) i
  constructor
  · obtain ⟨q, hvalue, hq, -⟩ := Number.isTarget_iff_inUnit.mp hreach.isTarget
    obtain ⟨x, hx, -, -, hpositive⟩ := Score.currentRotaUrgency_exact hvalue (le_of_lt hq) g
    refine ⟨q, x, hvalue, hx, ?_⟩
    rw [hpositive, hleft, Group.FallsShort]
    omega
  · intro hfew
    have hsafe := Nat.le_trans hfew Binary64.denseCount_le_safeCount
    obtain ⟨need, hneed, hsmall⟩ :=
      Score.exists_needed hreach.isTarget hsafe (hreach.measured.count g hg)
    have hopen := hreach.available_size_le hg
    have hdense : g.left ≤ Binary64.denseCount := by
      rw [Group.left]
      omega
    obtain ⟨x, hx, hpositive⟩ := Score.currentRotaUrgency_rounded hneed hsmall hdense
    have hshort : Binary64.zero.lt x = true ↔ g.FallsShort i need := by
      rw [hpositive, hleft, Group.FallsShort]
      omega
    refine ⟨need, x, hneed, hx, hshort, fun hpassed hsome hmore => hshort.mpr ?_⟩
    rw [Group.FallsShort, hpassed]
    exact ⟨hsome, hmore⟩

namespace Sample

def rivals : Request where
  volunteers := [{ id := "ada" }, { id := "bob" }, cy]
  responses := [⟨"ada", true, .empty⟩, ⟨"bob", true, .empty⟩, ⟨"cy", true, .ofList [0]⟩]
  dates := [week 1, week 2]
  defaultSize := 1
  target := .real .one
  cap := 2
  policy := { criteria := [⟨.currentRotaUrgency, .one⟩] }

def first : Shift := ⟨week 1, 0, 1, [], [], none, 0⟩
def second : Shift := ⟨week 2, 1, 1, [], [], none, 0⟩

def chosen : Group := ⟨"individual_ada", [{ id := "ada" }], .ofList [0, 1], [], 0⟩
def passed : Group := ⟨"individual_bob", [{ id := "bob" }], .ofList [0, 1], [], 0⟩
def late : Group := ⟨"individual_cy", [cy], .ofList [1], [], 0⟩

def rivalsStart : Rota where
  shifts := [first, second]
  groups := [chosen, passed, late]
  cap := 2
  target := .real .one

def rivalsMidway : Rota :=
  { rivalsStart with
    shifts := [first.seat chosen, second]
    groups := [chosen.take 0, passed, late] }

theorem prepare_rivals : rivals.prepare.toOption.map (·.1) = some rivalsStart := by
  simp only [Request.prepare, resolve, Resolution.decisions,
    Resolution.groupKeys_eq_insertionSort]
  decide +kernel

theorem fillShift_rivals :
    Rota.fillShift rivals.policy rivalsStart 0 = .ok rivalsMidway ∧
    (Rota.fillShift rivals.policy rivalsMidway 1).toOption.map
      (fun rota => rota.shifts.map Shift.groupKeys) =
        some [["individual_ada"], ["individual_cy"]] := by
  decide +kernel

theorem reaches_rivalsMidway : rivals.Reaches 1 rivalsMidway := by
  obtain ⟨⟨start, report⟩, hprepare, rfl⟩ := exists_ok_of_toOption_map prepare_rivals
  have hfill : (List.range 1).foldlM (Rota.fillShift rivals.policy) rivalsStart =
      .ok rivalsMidway :=
    bind_eq_ok.mpr ⟨_, fillShift_rivals.1, rfl⟩
  exact ⟨_, report, _, hprepare, hfill, .refl⟩

theorem generate_rivals : ∃ outcome, generate rivals = .ok outcome ∧
    outcome.rota.shifts.map Shift.groupKeys = [["individual_ada"], ["individual_cy"]] := by
  obtain ⟨final, hlast, hkeys⟩ := exists_ok_of_toOption_map fillShift_rivals.2
  have hfill : (List.range 2).foldlM (Rota.fillShift rivals.policy) rivalsStart = .ok final :=
    bind_eq_ok.mpr ⟨_, fillShift_rivals.1, bind_eq_ok.mpr ⟨_, hlast, rfl⟩⟩
  obtain ⟨outcome, haccepted, rfl⟩ :=
    exists_generate prepare_rivals (toOption_eq_some_iff.mpr hfill)
  exact ⟨outcome, haccepted, hkeys⟩

/-- Both need two shifts and can get one, and one of the two is not urgent. -/
theorem scored_rivals :
    Score.needed Number rivalsMidway late = .ok 2 ∧
    Score.needed Number rivalsMidway passed = .ok 2 ∧
    CriterionKind.currentRotaUrgency.score rivalsMidway passed second =
      .ok (Number.real .zero) ∧
    CriterionKind.currentRotaUrgency.score rivalsMidway passed second = .ok (0 : Rat) := by
  decide +kernel

end Sample

theorem urgency_counts_passed_sample :
    Sample.rivals.Reaches 1 Sample.rivalsMidway ∧
    Sample.late ∈ Sample.rivalsMidway.groups ∧
    Sample.rivalsMidway.shifts.length ≤ Binary64.denseCount ∧
    Sample.late.passedBefore 1 = 0 ∧ Sample.late.openFrom 1 = 1 ∧
    Score.needed Number Sample.rivalsMidway Sample.late = .ok 2 ∧
    ∃ x, CriterionKind.currentRotaUrgency.score Sample.rivalsMidway Sample.late Sample.second =
      .ok (Number.real x) ∧ Binary64.zero.lt x = true := by
  have hg : Sample.late ∈ Sample.rivalsMidway.groups := by decide
  have hfew : Sample.rivalsMidway.shifts.length ≤ Binary64.denseCount := by decide
  have hpassed : Sample.late.passedBefore 1 = 0 := by decide
  have hopen : Sample.late.openFrom 1 = 1 := by decide
  have htwo := Sample.scored_rivals.1
  obtain ⟨need, x, hneed, hx, -, hurgent⟩ :=
    (urgency_counts_passed Sample.reaches_rivalsMidway hg Sample.second 1).2 hfew
  obtain rfl : need = 2 := Except.ok.inj (hneed.symm.trans htwo)
  exact ⟨Sample.reaches_rivalsMidway, hg, hfew, hpassed, hopen, htwo, x, hx,
    hurgent hpassed (by decide) (by decide)⟩

/-- Once the first shift has gone to ada, the second is the only one that bob can get, who needs
two as cy does. That is urgent for cy and not for bob, so the shift goes to cy. -/
theorem passed_over_not_urgent :
    (∃ outcome, generate Sample.rivals = .ok outcome ∧
      outcome.rota.shifts.map Shift.groupKeys = [["individual_ada"], ["individual_cy"]]) ∧
    Sample.rivals.Reaches 1 Sample.rivalsMidway ∧
    Sample.rivalsMidway.shifts[1]? = some Sample.second ∧ Sample.second.index = 1 ∧
    Sample.passed ∈ Sample.rivalsMidway.groups ∧
    Score.needed Number Sample.rivalsMidway Sample.passed = .ok 2 ∧
    Sample.passed.openFrom 1 = 1 ∧
    CriterionKind.currentRotaUrgency.score Sample.rivalsMidway Sample.passed Sample.second =
      .ok (Number.real .zero) ∧
    CriterionKind.currentRotaUrgency.score Sample.rivalsMidway Sample.passed Sample.second =
      .ok (0 : Rat) :=
  ⟨Sample.generate_rivals, Sample.reaches_rivalsMidway, rfl, rfl, by decide,
    Sample.scored_rivals.2.1, by decide, Sample.scored_rivals.2.2⟩

end Rostering
