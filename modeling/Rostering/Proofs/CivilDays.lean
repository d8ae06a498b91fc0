import Rostering.Calendar.Day
import Mathlib.Algebra.Order.BigOperators.Group.List
import Mathlib.Algebra.Order.Ring.Nat
import Mathlib.Data.List.GetD

namespace Rostering.Calendar

/-! Years and months lie one after the other: each starts where the one before it ends, and a day
lies in the year and the month that it is split into. -/

theorem isLeap_iff {year : Int} :
    isLeap year = true ↔ year % 4 = 0 ∧ (year % 100 ≠ 0 ∨ year % 400 = 0) := by
  simp [isLeap]

theorem daysBeforeYear_succ (year : Int) :
    daysBeforeYear (year + 1) = daysBeforeYear year + yearLength year := by
  by_cases hleap : isLeap year = true
  · have := isLeap_iff.mp hleap
    simp only [daysBeforeYear, yearLength, hleap, if_true]
    omega
  · have := isLeap_iff.not.mp hleap
    simp only [daysBeforeYear, yearLength, hleap]
    simp only [Bool.false_eq_true, if_false]
    omega

theorem daysBeforeYear_mono {year later : Int} (hle : year ≤ later) :
    daysBeforeYear year ≤ daysBeforeYear later := by
  simp only [daysBeforeYear]
  omega

theorem yearEnd_le {year later : Int} (hlt : year < later) :
    daysBeforeYear year + yearLength year ≤ daysBeforeYear later := by
  rw [← daysBeforeYear_succ]
  exact daysBeforeYear_mono (by omega)

/-- The whole cycles of 400, 100 and 4 years and the single years before a day, which make up its
year. -/
theorem exists_cycles (number : Int) : ∃ a b c d : Int,
    yearOf number = 400 * a + 100 * b + 4 * c + d + 1 ∧
    0 ≤ b ∧ b ≤ 3 ∧ 0 ≤ c ∧ c ≤ 24 ∧ 0 ≤ d ∧ d ≤ 3 ∧
    146097 * a + 36524 * b + 1461 * c + 365 * d < number ∧
    number ≤ 146097 * a + 36524 * b + 1461 * c + 365 * d + 366 ∧
    (d ≤ 2 ∨ c = 24 ∧ b ≤ 2 →
      number ≤ 146097 * a + 36524 * b + 1461 * c + 365 * d + 365) :=
  ⟨_, _, _, _, rfl, by omega, by omega, by omega, by omega, by omega, by omega, by omega, by omega,
    by omega⟩

theorem daysBeforeYear_yearOf_lt (number : Int) : daysBeforeYear (yearOf number) < number := by
  obtain ⟨a, b, c, d, hyear, _⟩ := exists_cycles number
  rw [hyear, daysBeforeYear]
  omega

theorem le_daysBeforeYear_yearOf_succ (number : Int) :
    number ≤ daysBeforeYear (yearOf number + 1) := by
  obtain ⟨a, b, c, d, hyear, _⟩ := exists_cycles number
  rw [hyear, daysBeforeYear]
  omega

theorem daysBeforeMonth_eq_sum (year : Int) (month : Nat) :
    daysBeforeMonth year month = ((monthLengths (isLeap year)).take (month - 1)).sum :=
  List.sum_eq_foldl.symm

@[simp] theorem length_monthLengths (leap : Bool) : (monthLengths leap).length = 12 := rfl

theorem sum_monthLengths (year : Int) : (monthLengths (isLeap year)).sum = yearLength year := by
  rw [yearLength]
  cases isLeap year <;> rfl

theorem daysBeforeMonth_succ (year : Int) {month : Nat} (hmonth : 1 ≤ month) :
    daysBeforeMonth year (month + 1) = daysBeforeMonth year month + monthLength year month := by
  obtain ⟨n, rfl⟩ := Nat.exists_eq_add_of_le' hmonth
  simp only [daysBeforeMonth_eq_sum, monthLength, Nat.add_sub_cancel]
  by_cases hn : n < (monthLengths (isLeap year)).length
  · rw [List.sum_take_succ _ _ hn, List.getD_eq_getElem _ _ hn]
  · rw [Nat.not_lt] at hn
    rw [List.take_of_length_le hn, List.take_of_length_le (by omega), List.getD_eq_default _ _ hn,
      Nat.add_zero]

theorem daysBeforeMonth_mono (year : Int) {month later : Nat} (hle : month ≤ later) :
    daysBeforeMonth year month ≤ daysBeforeMonth year later := by
  rw [daysBeforeMonth_eq_sum, daysBeforeMonth_eq_sum]
  exact (List.take_sublist_take_left (by omega)).sum_le_sum fun _ _ => Nat.zero_le _

theorem monthEnd_le (year : Int) {month later : Nat} (hmonth : 1 ≤ month) (hlt : month < later) :
    daysBeforeMonth year month + monthLength year month ≤ daysBeforeMonth year later := by
  rw [← daysBeforeMonth_succ year hmonth]
  exact daysBeforeMonth_mono year hlt

theorem daysBeforeMonth_le_yearLength (year : Int) (month : Nat) :
    daysBeforeMonth year month ≤ yearLength year := by
  rw [daysBeforeMonth_eq_sum, ← sum_monthLengths]
  exact (List.take_sublist _ _).sum_le_sum fun _ _ => Nat.zero_le _

/-- The months that a position is past, and what is left of it in the next. -/
theorem splitMonth_eq (lengths : List Nat) (start offset : Nat) :
    ∃ n ≤ lengths.length,
      splitMonth lengths start offset = (start + n, offset - (lengths.take n).sum + 1) ∧
      (lengths.take n).sum ≤ offset ∧ (offset < lengths.sum → n < lengths.length) := by
  induction lengths generalizing start offset with
  | nil => exact ⟨0, Nat.le_refl 0, rfl, Nat.zero_le _, fun h => absurd h (Nat.not_lt_zero _)⟩
  | cons length rest ih =>
      by_cases hlt : offset < length
      · exact ⟨0, Nat.zero_le _, by simp [splitMonth, hlt], Nat.zero_le _, fun _ => by simp⟩
      · obtain ⟨n, hn, hsplit, hpast, hinside⟩ := ih (start + 1) (offset - length)
        refine ⟨n + 1, by simpa using hn, ?_, ?_, ?_⟩
        · rw [splitMonth, if_neg hlt, hsplit, List.take_succ_cons, List.sum_cons, Nat.sub_sub,
            Nat.add_assoc, Nat.add_comm 1 n]
        · rw [List.take_succ_cons, List.sum_cons]
          omega
        · rw [List.sum_cons, List.length_cons]
          intro h
          have := hinside (by omega)
          omega

/-- A day lies in its year and month, and has its place there. -/
theorem civilOf_number (number : Int) :
    (civilOf number).number = number ∧ 1 ≤ (civilOf number).month ∧
      (civilOf number).month ≤ 12 ∧ 1 ≤ (civilOf number).day := by
  have hafter := daysBeforeYear_yearOf_lt number
  have hbefore := le_daysBeforeYear_yearOf_succ number
  rw [daysBeforeYear_succ] at hbefore
  obtain ⟨n, -, hsplit, hpast, hinside⟩ := splitMonth_eq (monthLengths (isLeap (yearOf number))) 1
    (number - daysBeforeYear (yearOf number) - 1).toNat
  rw [sum_monthLengths, length_monthLengths] at hinside
  have hn := hinside (by omega)
  simp only [civilOf, hsplit, Civil.number, daysBeforeMonth_eq_sum, Nat.add_sub_cancel_left]
  omega

end Rostering.Calendar

namespace Rostering.Day

theorem ofNumber?_eq_some_iff {n : Int} {d : Day} : ofNumber? n = some d ↔ n = d.number := by
  constructor
  · intro h
    rw [ofNumber?] at h
    split at h
    · next hvalid =>
        obtain rfl := Option.some.inj h
        simp only
        omega
    · cases h
  · rintro rfl
    exact ofNumber?_number d

end Rostering.Day
