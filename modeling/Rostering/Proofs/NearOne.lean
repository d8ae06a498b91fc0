import Rostering.Proofs.Distributions
import Rostering.Proofs.Scores

namespace Rostering

/-! Doubles next to one. A quotient of counts that is above one is rounded to a double above one
and its inverse to one below, so rounding never takes an urgency to zero. -/

namespace Binary64

/-- So many shifts have their quotients told apart near one. -/
def denseCount : Nat := Nat.pow 2 52

/-- How many steps apart the numbers from one to two are. -/
def stepsApart : Nat := Nat.pow 2 1022

/-- The steps of the first number above one. -/
def stepsAbove : Nat := stepsPerUnit + stepsApart

/-- The steps of the last number below one. -/
def stepsBelow : Nat := stepsPerUnit - Nat.pow 2 1021

/-- Three numbers in a row, by their steps. The inverse of the last, in units of the second, is not
above the first. -/
structure Neighbours (below unit above : Nat) : Prop where
  heldBelow : Held below
  heldUnit : Held unit
  heldAbove : Held above
  below_lt : below < unit
  unit_le : unit ≤ above
  square_le : unit * unit ≤ below * above

theorem neighbours : Neighbours stepsBelow stepsPerUnit stepsAbove where
  heldBelow := by decide +kernel
  heldUnit := by decide +kernel
  heldAbove := by decide +kernel
  below_lt := by decide +kernel
  unit_le := Nat.le_add_right _ _
  square_le := by decide +kernel

theorem denseCount_mul_stepsApart : denseCount * stepsApart = stepsPerUnit := by decide +kernel

theorem denseCount_le_safeCount : denseCount ≤ safeCount := by decide +kernel

theorem roundSteps_ratio_le {need left : Nat} (hleft : 0 < left) (hle : need ≤ left) :
    roundSteps (need * stepsPerUnit) left ≤ stepsPerUnit := by
  refine roundSteps_le_of_held neighbours.heldUnit hleft ?_
  rw [Nat.mul_comm stepsPerUnit]
  exact Nat.mul_le_mul_right stepsPerUnit hle

theorem le_roundSteps_ratio {need left : Nat} (hleft : 0 < left) (hfew : left ≤ denseCount)
    (hlt : left < need) : stepsAbove ≤ roundSteps (need * stepsPerUnit) left := by
  refine le_roundSteps_of_held neighbours.heldAbove hleft ?_
  calc
    stepsAbove * left = stepsPerUnit * left + left * stepsApart := by
      rw [stepsAbove, Nat.add_mul, Nat.mul_comm stepsApart]
    _ ≤ stepsPerUnit * left + denseCount * stepsApart :=
      Nat.add_le_add_left (Nat.mul_le_mul_right stepsApart hfew) _
    _ = stepsPerUnit * (left + 1) := by rw [denseCount_mul_stepsApart, Nat.mul_succ]
    _ ≤ stepsPerUnit * need := Nat.mul_le_mul_left stepsPerUnit hlt
    _ = need * stepsPerUnit := Nat.mul_comm ..

theorem roundSteps_inverse_lt {share : Nat} (hshare : stepsAbove ≤ share) :
    roundSteps (stepsPerUnit * stepsPerUnit) share < stepsPerUnit := by
  have hpositive : 0 < share :=
    Nat.lt_of_lt_of_le stepsPerUnit_pos (Nat.le_trans neighbours.unit_le hshare)
  have hsquare : stepsPerUnit * stepsPerUnit ≤ stepsBelow * share :=
    Nat.le_trans neighbours.square_le (Nat.mul_le_mul_left stepsBelow hshare)
  exact Nat.lt_of_le_of_lt (roundSteps_le_of_held neighbours.heldBelow hpositive hsquare)
    neighbours.below_lt

theorem zero_lt_ofSteps {num den : Nat} (hden : 0 < den) (hle : den ≤ num) :
    zero.lt (ofSteps false num den) = true := by
  have hpositive := roundSteps_pos hden hle
  rw [ofSteps]
  split
  · exact decide_eq_true (Int.natCast_pos.mpr hpositive)
  · rfl

theorem zero_lt_one_sub {steps : Nat} (hlt : steps < stepsPerUnit) :
    zero.lt (one.sub (.finite false steps)) = true := by
  have hsum : signedSteps false stepsPerUnit + signedSteps true steps =
      (stepsPerUnit - steps : Nat) := by
    simp only [signedSteps, Bool.false_eq_true, if_false, if_true]
    omega
  have hne : ((stepsPerUnit - steps : Nat) : Int) ≠ 0 := by omega
  have hnonneg : decide (((stepsPerUnit - steps : Nat) : Int) < 0) = false :=
    decide_eq_false (by omega)
  rw [one_eq, sub, neg, add]
  simp only [Bool.not_false, hsum, hne, if_false, hnonneg, Int.natAbs_natCast]
  exact zero_lt_ofSteps Nat.one_pos (by omega)

theorem zero_lt_one_sub_inverse {share : Nat} (hshare : stepsAbove ≤ share) :
    zero.lt (one.sub (one / .finite false share)) = true := by
  have hunit := neighbours.unit_le
  have hpositive : 0 < share := Nat.lt_of_lt_of_le stepsPerUnit_pos (Nat.le_trans hunit hshare)
  have hinverse : one / finite false share =
      .finite false (roundSteps (stepsPerUnit * stepsPerUnit) share) := by
    change one.div _ = _
    rw [one_eq, div, if_neg (Nat.pos_iff_ne_zero.mp hpositive)]
    have hcount : 0 < safeCount := Nat.lt_of_lt_of_le Nat.two_pos two_le_safeCount
    exact ofSteps_eq_finite hpositive
      (Nat.mul_le_mul (Nat.le_mul_of_pos_left _ hcount) (Nat.le_trans hunit hshare)) false
  rw [hinverse]
  exact zero_lt_one_sub (roundSteps_inverse_lt hshare)

theorem ofRatio_eq_roundSteps {need left : Nat} (hleft : 0 < left) (hneed : need ≤ safeCount) :
    ofRatio need left = .finite false (roundSteps (need * stepsPerUnit) left) := by
  have hpositive : ∀ n : Nat, decide ((n : Int) < 0) = false := fun n =>
    decide_eq_false (by omega)
  rw [ofRatio, ofQuotient, hpositive, hpositive, Int.natAbs_natCast, Int.natAbs_natCast]
  exact ofSteps_eq_finite hleft (le_safeSteps_mul hneed hleft) false

theorem ofRatio_le_one {need : Int} {left : Nat} (hleft : 0 < left)
    (hneed : need.natAbs ≤ safeCount) (hle : need ≤ left) :
    ∃ negative steps, ofRatio need left = .finite negative steps ∧
      signedSteps negative steps ≤ stepsPerUnit := by
  rcases lt_or_ge need 0 with hbelow | hnonneg
  · obtain ⟨negative, steps, hratio⟩ := ofRatio_eq_finite (by omega : (left : Int) ≠ 0) hneed
    refine ⟨negative, steps, hratio, ?_⟩
    have hnegative : (ofRatio need left).isNegative = true := by
      rw [ofRatio, ofQuotient, isNegative_ofSteps, decide_eq_true hbelow,
        decide_eq_false (by omega : ¬ (left : Int) < 0)]
      rfl
    rw [hratio] at hnegative
    obtain rfl : negative = true := hnegative
    simp only [signedSteps, if_true]
    omega
  · obtain ⟨count, rfl⟩ := Int.eq_ofNat_of_zero_le hnonneg
    exact ⟨false, _, ofRatio_eq_roundSteps hleft hneed,
      Int.ofNat_le.mpr (roundSteps_ratio_le hleft (Int.ofNat_le.mp hle))⟩

end Binary64

namespace Number

open Binary64

theorem ratio_eq_ok {num den : Int} (hden : den ≠ 0) {negative : Bool} {steps : Nat}
    (hratio : ofRatio num den = .finite negative steps) :
    Arithmetic.ratio num den = .ok (real (.finite negative steps)) := by
  change Number.real <$> (Number.int num).div (.int den) = _
  rw [div, if_neg hden, hratio]
  rfl

theorem ratio_zero : Arithmetic.ratio 0 1 = .ok (real .zero) := by
  have hnothing : roundSteps (0 * stepsPerUnit) 1 = 0 := by simp [roundSteps, roundQuotient]
  have hratio := ofRatio_eq_roundSteps Nat.one_pos (Nat.zero_le safeCount)
  rw [hnothing] at hratio
  exact ratio_eq_ok Int.one_ne_zero hratio

theorem larger_one_eq (negative : Bool) (steps : Nat) :
    Arithmetic.larger (real (.finite negative steps)) (.real .one) =
      if signedSteps negative steps < stepsPerUnit then .real .one
      else .real (.finite negative steps) := by
  rw [one_eq]
  change (if decide (signedSteps negative steps < stepsPerUnit) = true then _ else _) = _
  simp only [decide_eq_true_eq]

theorem larger_one_eq_one {negative : Bool} {steps : Nat}
    (hle : signedSteps negative steps ≤ stepsPerUnit) :
    Arithmetic.larger (real (.finite negative steps)) (.real .one) = .real .one := by
  have hpositive := stepsPerUnit_pos
  rw [larger_one_eq]
  split
  · rfl
  · next hnotBelow =>
      have hsame : signedSteps negative steps = stepsPerUnit := by omega
      cases negative with
      | false => rw [one_eq, Int.ofNat.inj hsame]
      | true =>
          simp only [signedSteps, if_true] at hsame
          omega

theorem larger_one_eq_self {steps : Nat} (hle : stepsPerUnit ≤ steps) :
    Arithmetic.larger (real (.finite false steps)) (.real .one) = .real (.finite false steps) := by
  rw [larger_one_eq, if_neg]
  simp only [signedSteps, Bool.false_eq_true, if_false]
  omega

end Number

namespace Score

open Binary64

theorem urgency_eq_ok {need left : Int} {share y : Binary64}
    (hratio : Arithmetic.ratio need left = .ok (Number.real share))
    (hlarger : Arithmetic.larger (Number.real share) (.real .one) = .real y)
    (hnonzero : y.isZero = false) :
    urgency need left = .ok (Number.real (one.sub (one / y))) := by
  have hdiv : Arithmetic.div (Number.real one) (.real y) = .ok (.real (one / y)) := by
    change Number.real <$> (Number.real one).div (.real y) = _
    rw [Number.real_div rfl hnonzero]
    rfl
  simp only [urgency, bind_eq_ok]
  refine ⟨_, hratio, _, Number.ratio_one, _, Number.ratio_one, _, Number.ratio_one,
    .real (one / y), ?_, rfl⟩
  rw [hlarger]
  exact hdiv

theorem urgency_rounded {need left : Int} (hleft : 0 < left) (hfew : left ≤ denseCount)
    (hneed : need.natAbs ≤ safeCount) :
    ∃ x, urgency need left = .ok (Number.real x) ∧ (zero.lt x = true ↔ left < need) := by
  obtain ⟨left, rfl⟩ := Int.eq_ofNat_of_zero_le (Int.le_of_lt hleft)
  have hpositive : 0 < left := Int.natCast_pos.mp hleft
  rcases lt_or_ge (left : Int) need with hlt | hle
  · obtain ⟨need, rfl⟩ := Int.eq_ofNat_of_zero_le (by omega : 0 ≤ need)
    rw [Int.natAbs_natCast] at hneed
    have hshare := le_roundSteps_ratio hpositive (by omega) (Int.ofNat_lt.mp hlt)
    have hratio := Number.ratio_eq_ok (ne_of_gt hleft) (ofRatio_eq_roundSteps hpositive hneed)
    generalize roundSteps (need * stepsPerUnit) left = share at hshare hratio
    have hunit := Nat.le_trans neighbours.unit_le hshare
    have hnonzero : (finite false share).isZero = false := by
      obtain ⟨below, rfl⟩ := Nat.exists_eq_succ_of_ne_zero
        (Nat.pos_iff_ne_zero.mp (Nat.lt_of_lt_of_le stepsPerUnit_pos hunit))
      rfl
    refine ⟨_, urgency_eq_ok hratio (Number.larger_one_eq_self hunit) hnonzero, ?_⟩
    exact iff_of_true (zero_lt_one_sub_inverse hshare) hlt
  · obtain ⟨negative, steps, hratio, hone⟩ := ofRatio_le_one hpositive hneed hle
    refine ⟨_, urgency_eq_ok (Number.ratio_eq_ok (ne_of_gt hleft) hratio)
      (Number.larger_one_eq_one hone) (by decide +kernel), ?_⟩
    have hnothing : zero.lt (one.sub (one / one)) = false := by decide +kernel
    rw [hnothing]
    exact iff_of_false Bool.false_ne_true (Int.not_lt.mpr hle)

end Score

end Rostering
