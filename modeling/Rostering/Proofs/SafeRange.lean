import Rostering.Proofs.Target

namespace Rostering

/-! Arithmetic on counts that a double can hold for certain. Their quotients are finite, and shares
of them are no larger. -/

theorem two_le_safeCount : 2 ≤ safeCount := by decide +kernel

namespace Binary64

/-- The steps that make the largest count that a double holds for certain. -/
def safeSteps : Nat := safeCount * stepsPerUnit

theorem safeSteps_held : Held safeSteps := by decide +kernel

theorem safeSteps_lt : safeSteps < overflowSteps := by decide +kernel

theorem le_safeSteps_mul {count den : Nat} (hcount : count ≤ safeCount) (hden : 0 < den) :
    count * stepsPerUnit ≤ safeSteps * den := by
  have hle := Nat.mul_le_mul_right stepsPerUnit hcount
  rw [← safeSteps] at hle
  exact Nat.le_trans hle (Nat.le_mul_of_pos_right safeSteps hden)

theorem roundSteps_le_safeSteps {num den : Nat} (hden : 0 < den) (hle : num ≤ safeSteps * den) :
    roundSteps num den ≤ safeSteps :=
  roundSteps_le_of_held safeSteps_held hden hle

theorem ofSteps_eq_finite {num den : Nat} (hden : 0 < den) (hle : num ≤ safeSteps * den)
    (negative : Bool) : ofSteps negative num den = .finite negative (roundSteps num den) := by
  rw [ofSteps, if_pos (Nat.lt_of_le_of_lt (roundSteps_le_safeSteps hden hle) safeSteps_lt)]

theorem isNegative_ofSteps (negative : Bool) (num den : Nat) :
    (ofSteps negative num den).isNegative = negative := by
  rw [ofSteps]
  split <;> rfl

theorem ofRatio_eq_finite {num den : Int} (hden : den ≠ 0) (hnum : num.natAbs ≤ safeCount) :
    ∃ negative steps, ofRatio num den = .finite negative steps := by
  have hpositive : 0 < den.natAbs := Int.natAbs_pos.mpr hden
  rw [ofRatio, ofQuotient, ofSteps_eq_finite hpositive (le_safeSteps_mul hnum hpositive)]
  exact ⟨_, _, rfl⟩

theorem ofInt_eq_finite {n : Int} (hn : n.natAbs ≤ safeCount) :
    ∃ negative steps, ofInt n = .finite negative steps := by
  rw [ofInt, ofQuotient, ofSteps_eq_finite Nat.one_pos (le_safeSteps_mul hn Nat.one_pos)]
  exact ⟨_, _, rfl⟩

end Binary64

theorem Number.real_div {x y : Binary64} {n : Number} (hn : n.toReal = .ok y)
    (hnonzero : y.isZero = false) : (real x).div n = .ok (x / y) := by
  have hdiv : (real x).div n = (do
      let y ← n.toReal
      if y.isZero then throw Fault.zeroDivisor
      return x / y) := by
    cases n <;> rfl
  rw [hdiv, hn]
  change (if y.isZero = true then throw Fault.zeroDivisor >>= _ else _) = _
  rw [hnonzero]
  rfl

/-- A double, or out of range for a reason. -/
inductive Scored (large : Prop) : Except Fault Number → Prop
  | real (x : Binary64) : Scored large (.ok (.real x))
  | overflow (hlarge : large) : Scored large (.error .outOfRange)

namespace Scored

variable {large larger : Prop}

theorem mono {x : Except Fault Number} (himplies : large → larger) (hx : Scored large x) :
    Scored larger x := by
  cases hx with
  | real x => exact real x
  | overflow hlarge => exact overflow (himplies hlarge)

theorem bind {x : Except Fault Number} {f : Number → Except Fault Number} (hx : Scored large x)
    (hf : ∀ y, Scored large (f (.real y))) : Scored large (x >>= f) := by
  cases hx with
  | real y => exact hf y
  | overflow hlarge => exact overflow hlarge

theorem combine_real (whole : Int → Int → Int) (rounded : Binary64 → Binary64 → Binary64)
    (x y : Binary64) : Scored large (Number.combine whole rounded (.real x) (.real y)) :=
  real (rounded x y)

theorem of_overflows {x : Except Fault Binary64} (hx : OnlyOverflows x)
    (hok : ¬ large → ∃ y, x = .ok y) : Scored large (Number.real <$> x) := by
  rcases hx.exists_ok_or with ⟨y, rfl⟩ | rfl
  · exact real y
  · refine overflow (by_contra fun hsmall => ?_)
    obtain ⟨y, hy⟩ := hok hsmall
    cases hy

theorem combine_int (whole : Int → Int → Int) (rounded : Binary64 → Binary64 → Binary64)
    (x : Binary64) (n : Int) :
    Scored (safeCount < n.natAbs) (Number.combine whole rounded (.real x) (.int n)) := by
  have hcombine : Number.combine whole rounded (.real x) (.int n) =
      Number.real <$> rounded x <$> Number.realOfInt n := by
    simp only [Number.combine, Number.toReal]
    cases Number.realOfInt n <;> rfl
  rw [hcombine]
  refine of_overflows (Number.toReal_overflows (.int n)).map fun hsmall => ?_
  obtain ⟨negative, steps, hfinite⟩ := Binary64.ofInt_eq_finite (Nat.not_lt.mp hsmall)
  rw [Number.realOfInt, Binary64.ofInt?, hfinite]
  exact ⟨_, rfl⟩

theorem ratio (num : Int) {den : Int} (hden : den ≠ 0) :
    Scored (safeCount < num.natAbs) (Arithmetic.ratio (α := Number) num den) := by
  change Scored _ (Number.real <$> (Number.int num).div (.int den))
  rw [Number.div, if_neg hden]
  refine of_overflows (Number.inRange_overflows _) fun hsmall => ?_
  obtain ⟨negative, steps, hfinite⟩ := Binary64.ofRatio_eq_finite hden (Nat.not_lt.mp hsmall)
  rw [hfinite]
  exact ⟨_, rfl⟩

theorem ratio_small {num den : Int} (hnum : num.natAbs ≤ 1) (hden : den ≠ 0) :
    Scored large (Arithmetic.ratio (α := Number) num den) := by
  have hmany := two_le_safeCount
  exact (ratio num hden).mono fun hlarge => by omega

theorem div_real (x : Binary64) {y : Binary64} (hnonzero : y.isZero = false) :
    Scored large (Arithmetic.div (Number.real x) (.real y)) := by
  change Scored _ (Number.real <$> (Number.real x).div (.real y))
  rw [Number.real_div rfl hnonzero]
  exact real _

theorem mapM {f : α → Except Fault Number} {items : List α}
    (hf : ∀ a ∈ items, Scored large (f a)) :
    (∃ values : List Binary64, items.mapM f = .ok (values.map .real)) ∨
      items.mapM f = .error .outOfRange ∧ large := by
  induction items with
  | nil => exact .inl ⟨[], rfl⟩
  | cons a rest ih =>
      rw [List.mapM_cons]
      cases hhead : f a with
      | error fault =>
          have hfault := hf a (by simp)
          rw [hhead] at hfault
          cases hfault with
          | overflow hlarge => exact .inr ⟨rfl, hlarge⟩
      | ok value =>
          have hvalue := hf a (by simp)
          rw [hhead] at hvalue
          cases hvalue with
          | real x =>
              rcases ih fun b hb => hf b (by simp [hb]) with ⟨values, htail⟩ | ⟨hrange, hlarge⟩
              · exact .inl ⟨x :: values, by rw [htail]; rfl⟩
              · exact .inr ⟨by rw [hrange]; rfl, hlarge⟩

end Scored

theorem Number.sum_reals (values : List Binary64) : ∃ total, sum (values.map real) = .ok total := by
  have hsum : ∀ (start : Number) (x : Binary64), start.toReal = .ok x →
      ∃ total, (values.map real).foldlM add start = .ok total := by
    induction values with
    | nil => exact fun start x _ => ⟨start, rfl⟩
    | cons y rest ih =>
        intro start x hstart
        have hadd : start.add (real y) = .ok (real (x.add y)) := by
          cases start with
          | int n => simp only [add, combine, hstart]; rfl
          | real z => obtain rfl := Except.ok.inj hstart; rfl
        obtain ⟨total, htotal⟩ := ih (real (x.add y)) (x.add y) rfl
        refine ⟨total, ?_⟩
        rw [List.map_cons, List.foldlM_cons, hadd]
        exact htotal
  have hzero : (int 0).toReal = .ok .zero := toOption_eq_some_iff.mp (by decide +kernel)
  exact hsum (int 0) .zero hzero

theorem Number.IsTarget.int_eq {n : Int} (htarget : (Number.int n).IsTarget) : n = 1 := by
  obtain ⟨x, hreal, hfrequency⟩ := htarget
  obtain ⟨steps, rfl, hpositive, hle⟩ := Fairness.isFrequency_iff.mp hfrequency
  have hround : Binary64.ofInt n = .finite false steps := by
    rw [toReal, realOfInt, inRange_eq_ok_iff, Binary64.ofInt?,
      Binary64.finite?_eq_some_iff] at hreal
    exact hreal.1
  have hnonneg : 0 ≤ n := by
    rw [Binary64.ofInt, Binary64.ofQuotient, Binary64.ofSteps] at hround
    split at hround
    · simpa using (Binary64.finite.inj hround).1
    · cases hround
  have hne : n ≠ 0 := by
    rintro rfl
    have hzero : Binary64.ofInt 0 = .finite false 0 := by decide +kernel
    rw [hzero, Binary64.finite.injEq] at hround
    omega
  obtain ⟨count, rfl⟩ := Int.eq_ofNat_of_zero_le hnonneg
  have hfew : count < 2 := by
    by_contra hmany
    have htwo : realOfInt (2 : Nat) = .ok (.finite false (2 * Binary64.stepsPerUnit)) := by
      decide +kernel
    obtain ⟨least, most, hleast, hmost, hsteps⟩ := realOfInt_ok_of_le (Nat.not_lt.mp hmany) hreal
    rw [htwo, Except.ok.injEq, Binary64.finite.injEq] at hleast
    rw [Binary64.finite.injEq] at hmost
    omega
  omega

/-- Shares of so many shifts as can be counted for certain are no more than these. -/
theorem targetAllocations_le {target : Number} (htarget : target.IsTarget) {count : Nat}
    (hcount : count ≤ safeCount) {due : Int} (h : targetAllocations 0 count target = .ok due) :
    0 ≤ due ∧ due ≤ safeCount := by
  cases target with
  | int share =>
      obtain rfl := htarget.int_eq
      obtain rfl : (0 + count : Int) * 1 = due := Except.ok.inj h
      omega
  | real share =>
      obtain ⟨x, hreal, hfrequency⟩ := htarget
      obtain rfl : share = x := Except.ok.inj hreal
      obtain ⟨steps, rfl, hsteps⟩ := Fairness.finite_of_isFrequency hfrequency
      have hsafe : Number.realOfInt safeCount = .ok (.finite false Binary64.safeSteps) := by
        decide +kernel
      obtain ⟨least, most, hleast, hmost, hle⟩ := Number.realOfInt_ok_of_le hcount hsafe
      rw [Binary64.finite.injEq] at hmost
      have hsmall : least * steps ≤ Binary64.safeSteps * Binary64.stepsPerUnit :=
        Nat.mul_le_mul (hmost.2 ▸ hle) hsteps
      have hproduct : (Binary64.finite false least).mul (.finite false steps) =
          .finite false (Binary64.roundSteps (least * steps) Binary64.stepsPerUnit) :=
        Binary64.ofSteps_eq_finite Binary64.stepsPerUnit_pos hsmall false
      have hround := Binary64.roundSteps_le_safeSteps Binary64.stepsPerUnit_pos hsmall
      simp only [targetAllocations, Number.mul, Number.combine, Number.toReal, bind_eq_ok,
        pure_eq_ok, Int.zero_add, hleast] at h
      obtain ⟨_, ⟨_, ⟨-⟩, _, ⟨-⟩, rfl⟩, hfloor⟩ := h
      rw [hproduct] at hfloor
      have hwhole : (Binary64.roundSteps (least * steps) Binary64.stepsPerUnit : Int).fdiv
          Binary64.stepsPerUnit = due := Except.ok.inj hfloor
      rw [Int.fdiv_eq_ediv_of_nonneg _ (Int.natCast_nonneg _), ← Int.natCast_ediv] at hwhole
      rw [Binary64.safeSteps, Nat.mul_comm safeCount] at hround
      rw [← hwhole]
      exact ⟨Int.natCast_nonneg _, Int.ofNat_le.mpr (Nat.div_le_of_le_mul hround)⟩

end Rostering
