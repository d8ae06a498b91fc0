import Rostering.Number.Decimal
import Rostering.Proofs.Rounding
import Mathlib.Algebra.Order.Field.Rat
import Mathlib.Algebra.Order.Field.Power

namespace Rostering

/-! Which decimals are too large for a double: those from half a step past the largest one on. -/

namespace Binary64

theorem roundQuotient_le_of_lt {num den q : Nat} (h : 2 * num < (2 * q + 1) * den) :
    roundQuotient num den ≤ q := by
  have hnum := Nat.div_add_mod num den
  rw [Nat.add_mul, Nat.one_mul, Nat.mul_assoc, Nat.mul_comm q] at h
  rcases Nat.lt_trichotomy (num / den) q with hlt | heq | hgt
  · exact Nat.le_trans (roundQuotient_le num den) hlt
  · have hrest : 2 * (num % den) < den := by
      rw [heq] at hnum
      omega
    simp only [roundQuotient]
    rw [if_pos hrest, heq]
  · have hless : den * (q + 1) ≤ den * (num / den) := Nat.mul_le_mul_left den hgt
    rw [Nat.mul_add] at hless
    omega

theorem roundQuotient_of_half {num den q : Nat} (hden : 0 < den) (hodd : q % 2 = 1)
    (h : 2 * num = (2 * q + 1) * den) : roundQuotient num den = q + 1 := by
  have hnum := Nat.div_add_mod num den
  have hrest := Nat.mod_lt num hden
  rw [Nat.add_mul, Nat.one_mul, Nat.mul_assoc, Nat.mul_comm q] at h
  have hquotient : num / den = q := by
    apply Nat.div_eq_of_lt_le
    · rw [Nat.mul_comm]
      omega
    · rw [Nat.add_mul, Nat.one_mul, Nat.mul_comm]
      omega
  rw [hquotient] at hnum
  simp only [roundQuotient, hquotient]
  rw [if_neg (by omega), if_neg (by omega), hodd]

/-- The largest number with its bits from `e + 1` on, and half a step. -/
def pastLargest (e : Nat) : Nat := (2 ^ 54 - 1) * 2 ^ e

theorem pastLargest_lt (e : Nat) : pastLargest e < 2 ^ (54 + e) := by
  rw [pastLargest, Nat.pow_add]
  exact Nat.mul_lt_mul_of_pos_right (by decide) (Nat.two_pow_pos e)

theorem excessBits_pastLargest (e : Nat) : excessBits (pastLargest e) = e + 1 := by
  have hleast : 2 ^ (53 + e) ≤ pastLargest e := by
    rw [pastLargest, Nat.pow_add]
    exact Nat.mul_le_mul_right _ (by decide)
  have hne : pastLargest e ≠ 0 := Nat.ne_of_gt (Nat.lt_of_lt_of_le (Nat.two_pow_pos _) hleast)
  have hlog : Nat.log2 (pastLargest e) = 53 + e :=
    (Nat.log2_eq_iff hne).mpr ⟨hleast, by rw [Nat.add_right_comm]; exact pastLargest_lt e⟩
  rw [excessBits, hlog]
  omega

/-- Rounding reaches the next power of two exactly from half a step below it on. -/
theorem pow_le_roundSteps_iff {num den : Nat} (hden : 0 < den) (e : Nat) :
    2 ^ (54 + e) ≤ roundSteps num den ↔ pastLargest e * den ≤ num := by
  have hsplit : 2 ^ (54 + e) = 2 ^ 53 * 2 ^ (e + 1) := by
    rw [← Nat.pow_add]
    congr 1
    omega
  have hcoarse : den * 2 ^ (e + 1) = 2 * (den * 2 ^ e) := by
    rw [Nat.pow_succ', Nat.mul_left_comm]
  have hhalf : pastLargest e * den = (2 ^ 54 - 1) * (den * 2 ^ e) := by
    rw [pastLargest, Nat.mul_assoc, Nat.mul_comm (2 ^ e)]
  constructor
  · contrapose!
    intro hlt
    have hquotient : num / den < pastLargest e := Nat.div_lt_of_lt_mul (by rwa [Nat.mul_comm])
    have hbits : excessBits (num / den) ≤ e + 1 :=
      Nat.le_trans (excessBits_mono (Nat.le_of_lt hquotient)) (excessBits_pastLargest e).le
    rw [hsplit, roundSteps]
    rcases Nat.lt_or_eq_of_le hbits with hfew | heq
    · -- With a bit less the quotient is at most the power of two below.
      calc
        _ ≤ 2 ^ 53 * 2 ^ excessBits (num / den) :=
          Nat.mul_le_mul_right _ (roundQuotient_le_pow (Nat.le_refl _))
        _ < _ := by
          apply Nat.mul_lt_mul_of_pos_left (Nat.pow_lt_pow_right (by decide) hfew) (by decide)
    · have hrounded : roundQuotient num (den * 2 ^ (e + 1)) ≤ 2 ^ 53 - 1 := by
        apply roundQuotient_le_of_lt
        rw [hcoarse]
        rw [hhalf] at hlt
        omega
      rw [heq]
      exact Nat.mul_lt_mul_of_pos_right (Nat.lt_of_le_of_lt hrounded (by decide))
        (Nat.two_pow_pos _)
  · intro hle
    refine Nat.le_trans ?_ (roundSteps_mono den hle)
    have hrounded :
        roundQuotient (pastLargest e * den) (den * 2 ^ (e + 1)) = 2 ^ 53 - 1 + 1 := by
      apply roundQuotient_of_half (Nat.mul_pos hden (Nat.two_pow_pos _)) (by decide)
      rw [hcoarse, hhalf]
      omega
    simp only [roundSteps, Nat.mul_div_cancel _ hden, excessBits_pastLargest, Nat.pow_eq, hrounded]
    exact hsplit.le

/-- The least magnitude that rounds to no finite number: half a step past the largest one. -/
def bound : Nat := 2 ^ 1024 - 2 ^ 970

theorem ofQuotient_range (negative : Bool) {num den : Nat} (hden : 0 < den) :
    (ofQuotient negative num den = .infinite negative ∧ bound * den ≤ num) ∨
      ∃ steps, ofQuotient negative num den = .finite negative steps ∧ num < bound * den := by
  have hbound : pastLargest 2044 = bound * stepsPerUnit := by decide +kernel
  have hoverflow : overflowSteps = 2 ^ (54 + 2044) := by decide +kernel
  have hiff : overflowSteps ≤ roundSteps (num * stepsPerUnit) den ↔ bound * den ≤ num := by
    rw [hoverflow, pow_le_roundSteps_iff hden, hbound, Nat.mul_right_comm,
      Nat.mul_le_mul_right_iff stepsPerUnit_pos]
  simp only [ofQuotient, ofSteps]
  by_cases hlt : roundSteps (num * stepsPerUnit) den < overflowSteps
  · exact .inr ⟨_, if_pos hlt, Nat.not_le.mp (hiff.not.mp (Nat.not_le.mpr hlt))⟩
  · exact .inl ⟨if_neg hlt, hiff.mp (Nat.not_lt.mp hlt)⟩

theorem held_mul_pow {m : Nat} (hm : m < 2 ^ 53) (k : Nat) : Held (m * 2 ^ k) := by
  by_cases hzero : m * 2 ^ k = 0
  · rw [hzero]
    decide
  · have hlt : m * 2 ^ k < 2 ^ (53 + k) := by
      rw [Nat.pow_add]
      exact Nat.mul_lt_mul_of_pos_right hm (Nat.two_pow_pos k)
    have hbits : excessBits (m * 2 ^ k) ≤ k := by
      have := (Nat.log2_lt hzero).mpr hlt
      rw [excessBits]
      omega
    exact Nat.dvd_trans (Nat.pow_dvd_pow 2 hbits) (Nat.dvd_mul_left _ m)

theorem held_mul_pow_of_le {m : Nat} (hm : m ≤ 2 ^ 53) (k : Nat) : Held (m * 2 ^ k) := by
  rcases Nat.lt_or_eq_of_le hm with hlt | rfl
  · exact held_mul_pow hlt k
  · rw [← Nat.pow_add, ← Nat.one_mul (2 ^ (53 + k))]
    exact held_mul_pow (by decide) _

theorem ofQuotient_natural (negative : Bool) {m : Nat} (hm : m ≤ 2 ^ 53) :
    ofQuotient negative m 1 = .finite negative (m * stepsPerUnit) := by
  have hunit : stepsPerUnit = 2 ^ 1074 := by decide +kernel
  have hheld : Held (m * stepsPerUnit) := hunit ▸ held_mul_pow_of_le hm 1074
  have hsteps : roundSteps (m * stepsPerUnit) 1 = m * stepsPerUnit := by
    simpa using roundSteps_of_held hheld Nat.one_pos
  have hsmall : m * stepsPerUnit < overflowSteps :=
    Nat.lt_of_le_of_lt (Nat.mul_le_mul_right _ hm) (by decide +kernel)
  rw [ofQuotient, ofSteps, hsteps]
  exact if_pos hsmall

end Binary64

namespace Decimal

def value (d : Decimal) : Rat := d.digits * 10 ^ d.exponent

theorem fraction_pos (d : Decimal) : 0 < d.fraction.2 := Nat.pow_pos (by decide)

theorem value_eq (d : Decimal) : d.value = d.fraction.1 / d.fraction.2 := by
  obtain ⟨k, hk | hk⟩ := Int.eq_nat_or_neg d.exponent
  · simp [value, fraction, hk]
  · simp [value, fraction, hk, div_eq_mul_inv]

theorem digits_bounds {n : Nat} (hsome : n ≠ 0) :
    10 ^ ((Nat.toDigits 10 n).length - 1) ≤ n ∧ n < 10 ^ (Nat.toDigits 10 n).length := by
  have hpos : 0 < (Nat.toDigits 10 n).length := Nat.length_toDigits_pos
  refine ⟨?_, (Nat.length_toDigits_le_iff (by decide) hpos).mp (Nat.le_refl _)⟩
  rcases Nat.eq_zero_or_pos ((Nat.toDigits 10 n).length - 1) with hone | hmany
  · rw [hone]
    exact Nat.pos_of_ne_zero hsome
  · refine Nat.le_of_not_lt fun hlt => ?_
    have := (Nat.length_toDigits_le_iff (by decide) hmany).mpr hlt
    omega

theorem value_bounds {d : Decimal} (hsome : d.digits ≠ 0) :
    10 ^ (d.exponent + (Nat.toDigits 10 d.digits).length - 1) ≤ d.value ∧
      d.value < 10 ^ (d.exponent + (Nat.toDigits 10 d.digits).length) := by
  obtain ⟨hleast, hmost⟩ := digits_bounds hsome
  have hpos : 0 < (Nat.toDigits 10 d.digits).length := Nat.length_toDigits_pos
  have hscale : (0 : Rat) < 10 ^ d.exponent := zpow_pos (by decide) _
  generalize (Nat.toDigits 10 d.digits).length = width at *
  have hwidth : d.exponent + width - 1 = (width - 1 : Nat) + d.exponent := by omega
  rw [hwidth, add_comm d.exponent, zpow_add₀ (by decide), zpow_add₀ (by decide), zpow_natCast,
    zpow_natCast, value]
  constructor
  · exact mul_le_mul_of_nonneg_right (by exact_mod_cast hleast) hscale.le
  · exact mul_lt_mul_of_pos_right (by exact_mod_cast hmost) hscale

theorem toBinary64_range (negative : Bool) (d : Decimal) :
    (d.toBinary64 negative = .infinite negative ∧ Binary64.bound ≤ d.value) ∨
      ∃ steps, d.toBinary64 negative = .finite negative steps ∧ d.value < Binary64.bound := by
  have hbound : (1 : Rat) ≤ Binary64.bound ∧ Binary64.bound ≤ (10 : Rat) ^ 400 := by
    constructor
    · exact_mod_cast (by decide +kernel : 1 ≤ Binary64.bound)
    · exact_mod_cast (by decide +kernel : Binary64.bound ≤ 10 ^ 400)
  simp only [toBinary64]
  by_cases hzero : d.digits = 0
  · refine .inr ⟨0, if_pos hzero, ?_⟩
    rw [value, hzero, Nat.cast_zero, zero_mul]
    exact lt_of_lt_of_le zero_lt_one hbound.1
  · obtain ⟨hleast, hmost⟩ := value_bounds hzero
    rw [if_neg hzero]
    split
    · next hlarge =>
        refine .inl ⟨rfl, hbound.2.trans (le_trans ?_ hleast)⟩
        rw [← zpow_natCast]
        exact zpow_le_zpow_right₀ (by decide) (by omega)
    · split
      · next hsmall =>
          refine .inr ⟨0, rfl, lt_of_lt_of_le hmost (le_trans ?_ hbound.1)⟩
          exact zpow_le_one_of_nonpos₀ (by decide) (by omega)
      · have hden : (0 : Rat) < d.fraction.2 := by exact_mod_cast d.fraction_pos
        rw [value_eq, le_div_iff₀ hden, div_lt_iff₀ hden]
        exact_mod_cast Binary64.ofQuotient_range negative d.fraction_pos

theorem toBinary64_natural (negative : Bool) {m : Nat} (hm : m ≤ 2 ^ 53) :
    toBinary64 negative ⟨m, 0⟩ = .finite negative (m * Binary64.stepsPerUnit) := by
  have hwidth : (Nat.toDigits 10 m).length ≤ 16 :=
    (Nat.length_toDigits_le_iff (by decide) (by decide)).mpr (Nat.lt_of_le_of_lt hm (by decide))
  simp only [toBinary64, fraction]
  split
  · next hzero => rw [hzero, Nat.zero_mul]
  · rw [if_neg (by omega), if_neg (by omega)]
    simpa using Binary64.ofQuotient_natural negative hm

end Decimal

end Rostering
