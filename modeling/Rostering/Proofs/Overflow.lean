import Rostering.Proofs.Faults
import Rostering.Proofs.Rounding

namespace Rostering

/-! What can stop a run that has started: nothing but a number too large for a double. No pick is
ever refused, and the scores divide by nothing that could be zero. -/

/-- A computation that has a result unless a number in it is out of range. -/
abbrev OnlyOverflows (x : Except Fault α) : Prop := FaultsOnly (· = .outOfRange) x

theorem OnlyOverflows.exists_ok_or {x : Except Fault α} (hx : OnlyOverflows x) :
    (∃ a, x = .ok a) ∨ x = .error .outOfRange := by
  cases x with
  | ok a => exact .inl ⟨a, rfl⟩
  | error fault => exact .inr (hx fault rfl ▸ rfl)

open FaultsOnly

namespace Number

theorem inRange_overflows (x : Option Binary64) : OnlyOverflows (inRange x) := by
  cases x with
  | none => exact error rfl
  | some y => exact .ok y

theorem toReal_overflows (a : Number) : OnlyOverflows a.toReal := by
  cases a with
  | int n =>
      rw [toReal, realOfInt]
      exact inRange_overflows _
  | real x => exact .ok x

theorem combine_overflows (whole : Int → Int → Int) (rounded : Binary64 → Binary64 → Binary64)
    (a b : Number) : OnlyOverflows (combine whole rounded a b) := by
  have hreal : OnlyOverflows (do return real (rounded (← a.toReal) (← b.toReal))) := by
    apply (toReal_overflows a).bind
    intro x _
    apply (toReal_overflows b).bind
    exact fun y _ => .ok _
  cases a with
  | real x => exact hreal
  | int m =>
      cases b with
      | real y => exact hreal
      | int n => exact .ok _

theorem sum_overflows (xs : List Number) : OnlyOverflows (sum xs) :=
  FaultsOnly.foldlM (I := fun _ => True) (fun a b _ => combine_overflows _ _ a b)
    (fun _ _ _ _ _ => trivial) trivial

theorem ratio_overflows (num : Int) {den : Int} (hden : den ≠ 0) :
    OnlyOverflows (Arithmetic.ratio (α := Number) num den) := by
  have hdiv : (int num).div (int den) = inRange (Binary64.ofRatio num den).finite? := by
    rw [div, if_neg hden]
  change OnlyOverflows (real <$> (int num).div (int den))
  rw [hdiv]
  exact (inRange_overflows _).map

theorem floor_overflows {x : Binary64} (hvalue : x ≠ .nan) : OnlyOverflows (floor (.real x)) := by
  cases x with
  | nan => exact absurd rfl hvalue
  | infinite negative => exact error rfl
  | finite negative steps => exact ok _

/-- Either an integer or a double that stands for a number. -/
def IsFinite (x : Number) : Prop :=
  ∀ y, x = real y → ∃ negative steps, y = .finite negative steps

end Number

theorem Binary64.mul_finite_ne_nan (negative negative' : Bool) (steps steps' : Nat) :
    (finite negative steps).mul (finite negative' steps') ≠ .nan := by
  rw [mul, ofSteps]
  split <;> simp

theorem targetAllocations_overflows {target : Number} (hfinite : target.IsFinite)
    (historical current : Int) : OnlyOverflows (targetAllocations historical current target) := by
  cases target with
  | int share => exact ok _
  | real share =>
      obtain ⟨negative, steps, rfl⟩ := hfinite share rfl
      rw [targetAllocations]
      apply (Number.combine_overflows _ _ _ _).bind
      intro product hproduct
      simp only [Number.combine, Number.toReal, bind_eq_ok, pure_eq_ok] at hproduct
      obtain ⟨count, hcount, _, ⟨-⟩, rfl⟩ := hproduct
      rw [Number.realOfInt, Number.inRange_eq_ok_iff, Binary64.ofInt?,
        Binary64.finite?_eq_some_iff] at hcount
      obtain ⟨-, _, _, rfl⟩ := hcount
      exact Number.floor_overflows (Binary64.mul_finite_ne_nan _ _ _ _)

theorem Score.maleBalance_overflows (g : Group) (s : Shift) :
    OnlyOverflows (maleBalance (α := Number) g s) := by
  have hone : (1 : Int) ≠ 0 := by decide
  have htwo : (2 : Int) ≠ 0 := by decide
  have hten : (10 : Int) ≠ 0 := by decide
  rw [maleBalance]
  split
  · exact Number.ratio_overflows 0 hone
  · apply (Number.ratio_overflows 1 hone).bind
    intro whole _
    apply (Number.ratio_overflows 1 htwo).bind
    intro half _
    apply (Number.combine_overflows _ _ half (.int s.maleCount)).bind
    intro met _
    apply (Number.combine_overflows _ _ whole met).bind
    intro need _
    apply (Number.ratio_overflows 1 hten).bind
    exact fun least _ => ok _

theorem Score.promoteGroups_overflows (g : Group) :
    OnlyOverflows (promoteGroups (α := Number) g) := by
  rw [promoteGroups]
  split <;> exact Number.ratio_overflows _ (by decide)

/-- The kinds of criteria that score a group for a shift by these two alone. -/
def CriterionKind.selfContained : List CriterionKind :=
  [maleBalance, noDoubleShifts, promoteGroups]

theorem CriterionKind.score_overflows {kind : CriterionKind} (hkind : kind ∈ selfContained)
    (rota : Rota) (g : Group) (s : Shift) : OnlyOverflows (kind.score (α := Number) rota g s) := by
  simp only [selfContained, List.mem_cons, List.not_mem_nil, or_false] at hkind
  rcases hkind with rfl | rfl | rfl
  · exact Score.maleBalance_overflows g s
  · exact Number.ratio_overflows 0 (by decide)
  · exact Score.promoteGroups_overflows g

namespace Rota

variable {rota : Rota} {policy : Policy}

section

variable (hkinds : ∀ c ∈ policy.criteria, c.kind ∈ CriterionKind.selfContained)
include hkinds

theorem bonus_overflows (g : Group) (s : Shift) :
    OnlyOverflows (rota.bonus policy.criteria g s) := by
  rw [bonus]
  refine bind (FaultsOnly.mapM fun c hc => ?_) fun scores _ => Number.sum_overflows scores
  apply (CriterionKind.score_overflows (hkinds c hc) rota g s).bind
  exact fun score _ => Number.combine_overflows _ _ score (.real c.weight)

variable (hfinite : rota.target.IsFinite)
include hfinite

theorem rankOf_overflows (g : Group) (s : Shift) : OnlyOverflows (rota.rankOf policy g s) := by
  rw [rankOf]
  apply (bonus_overflows hkinds g s).bind
  intro bonus _
  apply ((targetAllocations_overflows hfinite _ _).bind fun due _ => ok _).bind
  exact fun owed _ => ok _

theorem ranked_overflows (s : Shift) (positions : List Nat) :
    OnlyOverflows (rota.ranked policy s positions) := by
  rw [ranked, ranksAt]
  refine bind (FaultsOnly.mapM fun candidate _ => ?_) fun ranks _ => ok _
  exact (rankOf_overflows hkinds hfinite candidate.1 s).bind fun r _ => ok _

/-- Once it has started, a run only stops for want of range. -/
theorem fillShifts_overflows (order : List Nat) :
    OnlyOverflows (order.foldlM (fillShift policy) rota) := by
  refine fillShifts_faults (I := fun between => between.target.IsFinite) ?_ ?_ hfinite order
  · intro before next j hpick hbefore
    rwa [target_eq_of_blank_eq hpick.blank_eq]
  · exact fun between hbetween s _ positions => ranked_overflows hkinds hbetween s positions

end

end Rota

end Rostering
