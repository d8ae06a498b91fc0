import Rostering.Number.Arithmetic
import Rostering.Proofs.Basic
import Mathlib.Algebra.Order.Field.Rat
import Mathlib.Algebra.BigOperators.Group.List.Basic
import Mathlib.Data.Int.CharZero

namespace Rostering

/-! Exact arithmetic computes with rationals. Only a zero divisor stops it. -/

namespace Arithmetic

theorem div_exact (a : Rat) {b : Rat} (hb : b ≠ 0) : div a b = .ok (a / b) := if_neg hb

theorem ratio_exact (num : Int) {den : Int} (hden : den ≠ 0) :
    ratio num den = .ok (num / den : Rat) :=
  div_exact num (Int.cast_ne_zero.mpr hden)

theorem larger_exact (a b : Rat) : larger a b = max a b := by
  have hlt : lt a b = decide (a < b) := rfl
  rw [larger, hlt]
  by_cases hless : a < b
  · rw [if_pos (decide_eq_true hless), max_eq_right (le_of_lt hless)]
  · rw [if_neg (by simpa using hless), max_eq_left (not_lt.mp hless)]

theorem sum_exact (xs : List Rat) : sum xs = .ok xs.sum := by
  have hfrom : ∀ start : Rat, xs.foldlM add start = .ok (start + xs.sum) := by
    induction xs with
    | nil => exact fun start => congrArg Except.ok (add_zero start).symm
    | cons x rest ih =>
        intro start
        rw [List.sum_cons, ← add_assoc]
        exact ih (start + x)
  rw [sum, hfrom]
  exact congrArg Except.ok (zero_add xs.sum)

end Arithmetic

end Rostering
