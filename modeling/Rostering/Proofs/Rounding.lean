import Rostering.Rota.Basic
import Rostering.Proofs.Basic
import Mathlib.Order.Basic

namespace Rostering

/-! Rounding keeps order, so what can be held still can be once it gets smaller. -/

namespace Binary64

theorem le_roundQuotient (num den : Nat) : num / den ≤ roundQuotient num den := by
  simp only [roundQuotient]
  split
  · exact Nat.le_refl _
  · split <;> omega

theorem roundQuotient_le (num den : Nat) : roundQuotient num den ≤ num / den + 1 := by
  simp only [roundQuotient]
  split
  · exact Nat.le_succ _
  · split <;> omega

theorem roundQuotient_mono {less more : Nat} (den : Nat) (hle : less ≤ more) :
    roundQuotient less den ≤ roundQuotient more den := by
  rcases Nat.lt_or_eq_of_le (Nat.div_le_div_right hle : less / den ≤ more / den) with hlt | heq
  · exact Nat.le_trans (roundQuotient_le less den) (Nat.le_trans hlt (le_roundQuotient more den))
  · -- Within one quotient the remainders decide.
    have hless := Nat.div_add_mod less den
    have hmore := Nat.div_add_mod more den
    rw [heq] at hless
    have hrest : less % den ≤ more % den := by omega
    simp only [roundQuotient, heq]
    repeat' split
    all_goals omega

/-- A quotient with at most 53 bits rounds to 2^53 at most. -/
theorem roundQuotient_le_pow {num den e : Nat} (hbits : excessBits (num / den) ≤ e) :
    roundQuotient num (den * Nat.pow 2 e) ≤ Nat.pow 2 53 := by
  have hlog : Nat.log2 (num / den) < 53 + e := by
    rw [excessBits] at hbits
    omega
  have hquotient : num / den < 2 ^ (53 + e) :=
    Nat.lt_of_lt_of_le Nat.lt_log2_self (Nat.pow_le_pow_right Nat.two_pos hlog)
  have hsmall : num / (den * 2 ^ e) < 2 ^ 53 := by
    rw [← Nat.div_div_eq_div_mul]
    apply Nat.div_lt_of_lt_mul
    rwa [← Nat.pow_add, Nat.add_comm]
  exact Nat.le_trans (roundQuotient_le _ _) hsmall

/-- A quotient with more than 53 bits rounds to 2^52 at least. -/
theorem pow_le_roundQuotient {num den : Nat} (hbits : 0 < excessBits (num / den)) :
    Nat.pow 2 52 ≤ roundQuotient num (den * Nat.pow 2 (excessBits (num / den))) := by
  have hlog : Nat.log2 (num / den) = 52 + excessBits (num / den) := by
    rw [excessBits] at hbits ⊢
    omega
  have hne : num / den ≠ 0 := by
    intro hzero
    simp [excessBits, hzero] at hbits
  have hquotient : 2 ^ (52 + excessBits (num / den)) ≤ num / den := by
    rw [← hlog]
    exact Nat.log2_self_le hne
  have hlarge : 2 ^ 52 ≤ num / (den * 2 ^ excessBits (num / den)) := by
    rw [← Nat.div_div_eq_div_mul, Nat.le_div_iff_mul_le (Nat.two_pow_pos _), ← Nat.pow_add]
    exact hquotient
  exact Nat.le_trans hlarge (le_roundQuotient _ _)

theorem excessBits_mono {less more : Nat} (hle : less ≤ more) :
    excessBits less ≤ excessBits more := by
  by_cases hzero : less = 0
  · simp [hzero, excessBits]
  · have hlog : Nat.log2 less ≤ Nat.log2 more :=
      (Nat.le_log2 (by omega)).mpr (Nat.le_trans (Nat.log2_self_le hzero) hle)
    exact Nat.sub_le_sub_right hlog 52

theorem roundSteps_mono {less more : Nat} (den : Nat) (hle : less ≤ more) :
    roundSteps less den ≤ roundSteps more den := by
  have hbits := excessBits_mono (Nat.div_le_div_right hle : less / den ≤ more / den)
  simp only [roundSteps]
  rcases Nat.lt_or_eq_of_le hbits with hlt | heq
  · -- The steps get coarser between the two: a power of two lies there.
    calc
      _ ≤ 2 ^ 53 * 2 ^ excessBits (less / den) :=
        Nat.mul_le_mul_right _ (roundQuotient_le_pow (Nat.le_refl _))
      _ = 2 ^ 52 * 2 ^ (excessBits (less / den) + 1) := by
        rw [← Nat.pow_add, ← Nat.pow_add]
        congr 1
        omega
      _ ≤ 2 ^ 52 * 2 ^ excessBits (more / den) :=
        Nat.mul_le_mul_left _ (Nat.pow_le_pow_right Nat.two_pos hlt)
      _ ≤ _ := Nat.mul_le_mul_right _ (pow_le_roundQuotient (by omega))
  · rw [heq]
    exact Nat.mul_le_mul_right _ (roundQuotient_mono _ hle)

/-- A number can hold so many steps, which beyond its 53 leading bits are even. -/
def Held (steps : Nat) : Prop := Nat.pow 2 (excessBits steps) ∣ steps

instance (steps : Nat) : Decidable (Held steps) := inferInstanceAs (Decidable (_ ∣ _))

theorem roundQuotient_mul (count : Nat) {den : Nat} (hden : 0 < den) :
    roundQuotient (count * den) den = count := by
  simp [roundQuotient, Nat.mul_div_cancel count hden, hden]

/-- A count of steps that a number can hold is not rounded. -/
theorem roundSteps_of_held {steps den : Nat} (hheld : Held steps) (hden : 0 < den) :
    roundSteps (steps * den) den = steps := by
  obtain ⟨whole, hwhole⟩ := hheld
  simp only [roundSteps, Nat.mul_div_cancel steps hden]
  generalize excessBits steps = bits at hwhole ⊢
  have hcoarse : 0 < den * Nat.pow 2 bits := Nat.mul_pos hden (Nat.two_pow_pos bits)
  have hexact : steps * den = whole * (den * Nat.pow 2 bits) := by
    rw [hwhole, Nat.mul_comm (Nat.pow 2 bits), Nat.mul_assoc, Nat.mul_comm den]
  rw [hexact, roundQuotient_mul whole hcoarse, hwhole, Nat.mul_comm]

theorem roundSteps_le_of_held {num steps den : Nat} (hheld : Held steps) (hden : 0 < den)
    (hle : num ≤ steps * den) : roundSteps num den ≤ steps := by
  rw [← roundSteps_of_held hheld hden]
  exact roundSteps_mono den hle

theorem le_roundSteps_of_held {num steps den : Nat} (hheld : Held steps) (hden : 0 < den)
    (hle : steps * den ≤ num) : steps ≤ roundSteps num den := by
  rw [← roundSteps_of_held hheld hden]
  exact roundSteps_mono den hle

theorem finite?_eq_some_iff {x y : Binary64} :
    x.finite? = some y ↔ x = y ∧ ∃ negative steps, y = .finite negative steps := by
  cases x with
  | finite negative steps =>
      rw [finite?, Option.some.injEq]
      exact ⟨fun h => ⟨h, negative, steps, h.symm⟩, And.left⟩
  | _ =>
      simp only [finite?, false_iff, reduceCtorEq]
      rintro ⟨rfl, negative, steps, h⟩
      simp at h

theorem ofSteps_finite_of_le {negative : Bool} {fewer more den : Nat} (hle : fewer ≤ more)
    (hfinite : ∃ sign steps, ofSteps negative more den = .finite sign steps) :
    ofSteps negative more den = .finite negative (roundSteps more den) ∧
      ofSteps negative fewer den = .finite negative (roundSteps fewer den) := by
  have hmono := roundSteps_mono den hle
  obtain ⟨sign, steps, hfinite⟩ := hfinite
  simp only [ofSteps] at hfinite ⊢
  split at hfinite
  · next hlt => exact ⟨if_pos hlt, if_pos (Nat.lt_of_le_of_lt hmono hlt)⟩
  · simp at hfinite

theorem mul_finite_of_le {negative : Bool} {fewer more : Nat} {y : Binary64} (hle : fewer ≤ more)
    (hfinite : ∃ sign steps, (finite negative more).mul y = .finite sign steps) :
    ∃ sign steps, (finite negative fewer).mul y = .finite sign steps := by
  cases y with
  | nan => simp [mul] at hfinite
  | infinite sign =>
      rw [mul] at hfinite
      split at hfinite <;> simp at hfinite
  | finite sign steps =>
      simp only [mul] at hfinite ⊢
      exact ⟨_, _, (ofSteps_finite_of_le (Nat.mul_le_mul_right steps hle) hfinite).2⟩

end Binary64

namespace Number

theorem inRange_eq_ok_iff {x : Option Binary64} {y : Binary64} :
    inRange x = .ok y ↔ x = some y := by
  cases x <;> simp [inRange]

theorem realOfInt_ok_of_le {fewer more : Nat} {x : Binary64} (hle : fewer ≤ more)
    (h : realOfInt more = .ok x) :
    ∃ least most, realOfInt fewer = .ok (.finite false least) ∧ x = .finite false most ∧
      least ≤ most := by
  have hsteps : ∀ n : Nat,
      Binary64.ofInt n = Binary64.ofSteps false (n * Binary64.stepsPerUnit) 1 := by
    intro n
    have hpositive : decide ((n : Int) < 0) = false := decide_eq_false (by omega)
    rw [Binary64.ofInt, Binary64.ofQuotient, hpositive, Int.natAbs_natCast]
  have hmore := Nat.mul_le_mul_right Binary64.stepsPerUnit hle
  rw [realOfInt, inRange_eq_ok_iff, Binary64.ofInt?, Binary64.finite?_eq_some_iff, hsteps] at h
  obtain ⟨hround, hfinite⟩ := h
  rw [← hround] at hfinite
  obtain ⟨hlarge, hsmall⟩ := Binary64.ofSteps_finite_of_le hmore hfinite
  refine ⟨_, _, ?_, hround.symm.trans hlarge, Binary64.roundSteps_mono 1 hmore⟩
  rw [realOfInt, inRange_eq_ok_iff, Binary64.ofInt?, Binary64.finite?_eq_some_iff, hsteps]
  exact ⟨hsmall, _, _, rfl⟩

theorem floor_real_ok_iff {x : Binary64} :
    (∃ n, floor (.real x) = .ok n) ↔ ∃ negative steps, x = .finite negative steps := by
  cases x with
  | finite negative steps => exact ⟨fun _ => ⟨negative, steps, rfl⟩, fun _ => ⟨_, rfl⟩⟩
  | _ =>
      constructor
      · rintro ⟨n, h⟩
        cases h
      · rintro ⟨negative, steps, h⟩
        cases h

end Number

/-- What makes a target over many shifts a whole number does so over fewer. -/
theorem targetAllocations_ok_of_le {historical fewer more : Nat} {target : Number} {due : Int}
    (hle : fewer ≤ more) (h : targetAllocations historical more target = .ok due) :
    ∃ less, targetAllocations historical fewer target = .ok less := by
  cases target with
  | int share => exact ⟨_, rfl⟩
  | real share =>
      simp only [targetAllocations, Number.mul, Number.combine, Number.toReal, bind_eq_ok,
        pure_eq_ok] at h ⊢
      obtain ⟨_, ⟨count, hcount, _, ⟨-⟩, rfl⟩, hfloor⟩ := h
      rw [← Int.natCast_add] at hcount
      obtain ⟨least, most, hleast, rfl, hsteps⟩ :=
        Number.realOfInt_ok_of_le (Nat.add_le_add_left hle historical) hcount
      obtain ⟨less, hless⟩ := Number.floor_real_ok_iff.mpr
        (Binary64.mul_finite_of_le hsteps (Number.floor_real_ok_iff.mp ⟨due, hfloor⟩))
      exact ⟨less, _, ⟨_, by exact_mod_cast hleast, _, rfl, rfl⟩, hless⟩

end Rostering
