import Rostering.Proofs.RankOrder
import Mathlib.Order.Compare

namespace Rostering

/-! Numbers as levels on a line with an end on either side. All that is a number compares as its
level does, and so ranks compare by their parts, the first in which they differ. -/

/-- The part of the line, an end or what lies between the two, and there the steps from zero. -/
abbrev Level := Int ×ₗ Int

namespace Level

def ofSteps (steps : Int) : Level := toLex (0, steps)

def lowest : Level := toLex (-1, 0)

def highest : Level := toLex (1, 0)

variable {m n : Int}

@[simp] theorem ofSteps_lt_iff : ofSteps m < ofSteps n ↔ m < n := by
  simp [ofSteps, Prod.Lex.toLex_lt_toLex]

@[simp] theorem ofSteps_inj : ofSteps m = ofSteps n ↔ m = n := by
  simp [ofSteps]

@[simp] theorem lowest_lt_ofSteps : lowest < ofSteps n := by
  simp [lowest, ofSteps, Prod.Lex.toLex_lt_toLex]

@[simp] theorem ofSteps_lt_highest : ofSteps n < highest := by
  simp [highest, ofSteps, Prod.Lex.toLex_lt_toLex]

@[simp] theorem lowest_lt_highest : lowest < highest := by
  decide

end Level

namespace Binary64

/-- What is no number is put on the level of zero. -/
def level : Binary64 → Level
  | nan => .ofSteps 0
  | infinite negative => if negative then .lowest else .highest
  | finite negative steps => .ofSteps (signedSteps negative steps)

variable {x y : Binary64}

theorem lt_iff_level_lt (hx : x ≠ nan) (hy : y ≠ nan) : x.lt y = true ↔ x.level < y.level := by
  cases x with
  | nan => exact absurd rfl hx
  | infinite m =>
      cases y with
      | nan => exact absurd rfl hy
      | infinite n => cases m <;> cases n <;> simp [lt, level, le_of_lt]
      | finite n b => cases m <;> simp [lt, level, le_of_lt]
  | finite m a =>
      cases y with
      | nan => exact absurd rfl hy
      | infinite n => cases n <;> simp [lt, level, le_of_lt]
      | finite n b => simp [lt, level]

theorem equal_iff_level_eq (hx : x ≠ nan) (hy : y ≠ nan) :
    x.equal y = true ↔ x.level = y.level := by
  cases x with
  | nan => exact absurd rfl hx
  | infinite m =>
      cases y with
      | nan => exact absurd rfl hy
      | infinite n => cases m <;> cases n <;> simp [equal, level, ne_of_lt, ne_of_gt]
      | finite n b => cases m <;> simp [equal, level, ne_of_lt, ne_of_gt]
  | finite m a =>
      cases y with
      | nan => exact absurd rfl hy
      | infinite n => cases n <;> simp [equal, level, ne_of_lt, ne_of_gt]
      | finite n b => simp [equal, level]

end Binary64

namespace Number

open Binary64 in
def level : Number → Level
  | int n => .ofSteps (n * stepsPerUnit)
  | real x => x.level

variable {a b : Number}

theorem neg_eq_nan_iff : a.neg = real .nan ↔ a = real .nan := by
  cases a with
  | int n => simp [neg]
  | real x => cases x <;> simp [neg, Neg.neg, Binary64.neg]

theorem unit_pos : (0 : Int) < Binary64.stepsPerUnit :=
  Int.natCast_pos.mpr Binary64.stepsPerUnit_pos

theorem intVersusReal_compares (n : Int) {y : Binary64} (hy : y ≠ .nan) :
    ∃ order, intVersusReal n y = some order ∧ order.Compares (int n).level (real y).level := by
  cases y with
  | nan => exact absurd rfl hy
  | infinite negative =>
      cases negative with
      | false => exact ⟨.lt, rfl, Level.ofSteps_lt_highest⟩
      | true => exact ⟨.gt, rfl, Level.lowest_lt_ofSteps⟩
  | finite negative steps =>
      refine ⟨_, rfl, ?_⟩
      cases horder : compare (n * Binary64.stepsPerUnit) (Binary64.signedSteps negative steps) with
      | lt => exact Level.ofSteps_lt_iff.mpr (compare_lt_iff_lt.mp horder)
      | eq => exact Level.ofSteps_inj.mpr (compare_eq_iff_eq.mp horder)
      | gt => exact Level.ofSteps_lt_iff.mpr (compare_gt_iff_gt.mp horder)

theorem lt_iff_level_lt (ha : a ≠ real .nan) (hb : b ≠ real .nan) :
    a.lt b = true ↔ a.level < b.level := by
  cases a with
  | int m =>
      cases b with
      | int n =>
          rw [lt, decide_eq_true_iff, level, level, Level.ofSteps_lt_iff]
          exact (Int.mul_lt_mul_right unit_pos).symm
      | real y =>
          obtain ⟨order, horder, hcompares⟩ := intVersusReal_compares m fun h => hb (h ▸ rfl)
          rw [lt, horder, ← hcompares.eq_lt]
          exact beq_iff_eq.trans Option.some_inj
  | real x =>
      cases b with
      | int n =>
          obtain ⟨order, horder, hcompares⟩ := intVersusReal_compares n fun h => ha (h ▸ rfl)
          rw [lt, horder, ← hcompares.eq_gt]
          exact beq_iff_eq.trans Option.some_inj
      | real y => exact Binary64.lt_iff_level_lt (fun h => ha (h ▸ rfl)) fun h => hb (h ▸ rfl)

theorem equal_iff_level_eq (ha : a ≠ real .nan) (hb : b ≠ real .nan) :
    a.equal b = true ↔ a.level = b.level := by
  cases a with
  | int m =>
      cases b with
      | int n =>
          rw [equal, decide_eq_true_iff, level, level, Level.ofSteps_inj]
          exact (Int.mul_eq_mul_right_iff unit_pos.ne').symm
      | real y =>
          obtain ⟨order, horder, hcompares⟩ := intVersusReal_compares m fun h => hb (h ▸ rfl)
          rw [equal, horder, ← hcompares.eq_eq]
          exact beq_iff_eq.trans Option.some_inj
  | real x =>
      cases b with
      | int n =>
          obtain ⟨order, horder, hcompares⟩ := intVersusReal_compares n fun h => ha (h ▸ rfl)
          rw [equal, horder, @eq_comm _ (real x).level, ← hcompares.eq_eq]
          exact beq_iff_eq.trans Option.some_inj
      | real y => exact Binary64.equal_iff_level_eq (fun h => ha (h ▸ rfl)) fun h => hb (h ▸ rfl)

end Number

namespace Rank

/-- The parts of a rank, the first to decide first. -/
def order (r : Rank) : Int ×ₗ Level ×ₗ Int ×ₗ Int ×ₗ String :=
  toLex (r.overserved, toLex (r.malus.level, toLex (r.total, toLex (r.preference, r.key))))

variable {a b : Rank}

theorem key_eq_of_order_eq (hsame : a.order = b.order) : a.key = b.key := by
  simp only [order, toLex_inj, Prod.mk.injEq] at hsame
  exact hsame.2.2.2.2

theorem below_iff_order_lt (ha : a.malus ≠ .real .nan) (hb : b.malus ≠ .real .nan) :
    a.below b = true ↔ a.order < b.order := by
  have hequal := Number.equal_iff_level_eq ha hb
  have hless := Number.lt_iff_level_lt ha hb
  simp only [below, order, Prod.Lex.toLex_lt_toLex]
  by_cases hserved : a.overserved = b.overserved
  · by_cases hbonus : a.malus.level = b.malus.level
    · simp only [hserved, hequal.mpr hbonus, hbonus]
      grind
    · have hdiffer : a.malus.equal b.malus = false := by simpa using mt hequal.mp hbonus
      simp [hserved, hdiffer, hbonus, hless]
  · simp [hserved]

/-- Where every bonus is a number, ranking goes by the order of the ranks. -/
theorem agrees_order {ranks : List (Rank × Nat)} (hnumbers : ∀ r ∈ ranks, r.1.malus ≠ .real .nan) :
    Ranking.Agrees (fun a b => a.1.below b.1) (fun a => a.1.order) ranks where
  below_le a ha b hb hbelow :=
    le_of_lt ((below_iff_order_lt (hnumbers a ha) (hnumbers b hb)).mp hbelow)
  not_below_le a ha b hb hbelow := by
    apply le_of_not_gt
    rw [← below_iff_order_lt (hnumbers a ha) (hnumbers b hb), hbelow]
    decide

end Rank

end Rostering
