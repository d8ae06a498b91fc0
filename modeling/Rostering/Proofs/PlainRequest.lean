import Rostering.Proofs.Overflow
import Rostering.Proofs.Preparation

namespace Rostering

/-! Requests without overrides. Once past its check such a request is refused only when nobody may
be placed. -/

theorem Fairness.isFrequency_iff {x : Binary64} :
    isFrequency x = true ↔
      ∃ steps, x = .finite false steps ∧ 0 < steps ∧ steps ≤ Binary64.stepsPerUnit := by
  rw [isFrequency, Binary64.le, Binary64.one_eq]
  cases x with
  | nan => simp [Binary64.lt, Binary64.zero]
  | infinite negative =>
      cases negative <;> simp [Binary64.lt, Binary64.equal, Binary64.zero]
  | finite negative steps =>
      simp only [Binary64.lt, Binary64.equal, Binary64.zero, Binary64.signedSteps,
        Binary64.finite.injEq, Bool.false_eq_true, if_false, Bool.and_eq_true, Bool.or_eq_true,
        decide_eq_true_eq]
      cases negative with
      | true =>
          refine iff_of_false (fun h => ?_) ?_
          · simp only [if_true] at h
            omega
          · rintro ⟨_, ⟨h, -⟩, -⟩
            cases h
      | false =>
          simp only [Bool.false_eq_true, if_false, true_and]
          constructor
          · exact fun h => ⟨steps, rfl, by omega, by omega⟩
          · rintro ⟨_, rfl, hpositive, hle⟩
            omega

theorem Fairness.finite_of_isFrequency {x : Binary64} (hfrequency : isFrequency x = true) :
    ∃ steps, x = .finite false steps ∧ steps ≤ Binary64.stepsPerUnit := by
  obtain ⟨steps, hx, -, hle⟩ := isFrequency_iff.mp hfrequency
  exact ⟨steps, hx, hle⟩

/-- What the target of a request may be. -/
def Number.IsTarget (target : Number) : Prop :=
  ∃ x, target.toReal = .ok x ∧ Fairness.isFrequency x = true

theorem Number.IsTarget.isFinite {target : Number} (htarget : target.IsTarget) :
    target.IsFinite := by
  obtain ⟨x, hreal, hfrequency⟩ := htarget
  rintro y rfl
  obtain rfl : y = x := Except.ok.inj hreal
  obtain ⟨steps, rfl, -⟩ := Fairness.finite_of_isFrequency hfrequency
  exact ⟨false, steps, rfl⟩

namespace Request

/-- The rota that a request without overrides starts from. -/
def plainStart (request : Request) : Rota where
  shifts := request.dates.zipIdx.map fun (day, i) =>
    (Rotation.planOf request.defaultSize [] day).shift day i
  groups := Resolution.candidates request.volunteers request.responses request.dates.length
    request.history
  history := request.history
  cap := request.cap
  target := request.target

variable {request : Request}

theorem prepare_eq (hoverrides : request.overrides = []) (hcheck : request.check = .ok ()) :
    request.prepare =
      if request.plainStart.groups.isEmpty then .error .nobodyEligible
      else .ok (request.plainStart, Resolution.reportOf (Resolution.decisions request.volunteers
        request.responses request.dates.length)) := by
  have hsize : ¬ request.defaultSize < 0 := Int.not_lt.mpr (check_ok hcheck).2.2.1
  have hhits : Rotation.hitsOf request.dates [] = .ok [] := by
    rw [Rotation.hitsOf]
    split <;> rfl
  have hgroups : request.plainStart.groups = Resolution.candidates request.volunteers
      request.responses request.dates.length request.history := rfl
  rw [prepare, hcheck, Resolution.resolve_eq, ← hgroups, buildShifts, hoverrides, hhits,
    if_neg hsize]
  split <;> rfl

theorem generate_iff (hoverrides : request.overrides = []) {final : Rota} :
    (∃ outcome, generate request = .ok outcome ∧ outcome.rota = final) ↔
      request.check = .ok () ∧ request.plainStart.groups ≠ [] ∧
        (List.range request.dates.length).foldlM (Rota.fillShift request.policy)
          request.plainStart = .ok final := by
  constructor
  · intro hgenerated
    obtain ⟨outcome, h, rfl⟩ := hgenerated
    obtain ⟨start, report, final, hprepare, hfill, rfl⟩ := generate_eq_ok_iff.mp h
    have hcheck : request.check = .ok () := (bind_eq_ok.mp hprepare).choose_spec.1
    rw [prepare_eq hoverrides hcheck] at hprepare
    split at hprepare
    · simp at hprepare
    · next hsome =>
        obtain ⟨rfl, -⟩ := Prod.mk.inj (Except.ok.inj hprepare)
        exact ⟨hcheck, List.isEmpty_iff.not.mp hsome, hfill⟩
  · intro hfilled
    obtain ⟨hcheck, hsome, hfill⟩ := hfilled
    have hprepare := prepare_eq hoverrides hcheck
    rw [if_neg (List.isEmpty_iff.not.mpr hsome)] at hprepare
    apply exists_generate
    · rw [hprepare]
      rfl
    · rw [hfill]
      rfl

theorem generate_nobody (hoverrides : request.overrides = []) (hcheck : request.check = .ok ())
    (hnone : request.plainStart.groups = []) : generate request = .error .nobodyEligible := by
  have hprepare := prepare_eq hoverrides hcheck
  rw [if_pos (List.isEmpty_iff.mpr hnone)] at hprepare
  rw [generate_eq, hprepare]
  rfl

theorem target_isTarget (hcheck : request.check = .ok ()) : request.target.IsTarget := by
  simp only [check, check_eq_ok, bind_eq_ok] at hcheck
  obtain ⟨-, -, -, -, x, hx, hfrequency⟩ := hcheck
  refine ⟨x, hx, ?_⟩
  cases hvalid : Fairness.isFrequency x with
  | true => rfl
  | false => simp [hvalid, throw, throwThe, MonadExceptOf.throw] at hfrequency

theorem target_isFinite (hcheck : request.check = .ok ()) : request.target.IsFinite :=
  (target_isTarget hcheck).isFinite

theorem generate_overflows (hoverrides : request.overrides = []) (hcheck : request.check = .ok ())
    (hsome : request.plainStart.groups ≠ [])
    (hkinds : ∀ c ∈ request.policy.criteria, c.kind ∈ CriterionKind.selfContained) :
    OnlyOverflows (generate request) := by
  have hprepare := prepare_eq hoverrides hcheck
  rw [if_neg (List.isEmpty_iff.not.mpr hsome)] at hprepare
  rw [generate_eq, hprepare]
  apply (Rota.fillShifts_overflows hkinds (target_isFinite hcheck) _).bind
  exact fun rota _ => FaultsOnly.ok _

end Request

end Rostering
