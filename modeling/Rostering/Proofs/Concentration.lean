import Rostering.Proofs.Distributions
import Mathlib.Data.Set.List

namespace Rostering

/-! The Gini coefficient of doubles is a double: no count of them is too large to weigh with, and
what is divided by is not zero. -/

namespace Fairness

open Arithmetic

theorem combine_int_real (whole : Int → Int → Int)
    (rounded : Binary64 → Binary64 → Binary64) {n : Int} {c : Binary64} (x : Binary64)
    (hn : Number.realOfInt n = .ok c) :
    Number.combine whole rounded (.int n) (.real x) = .ok (.real (rounded c x)) := by
  simp only [Number.combine, Number.toReal, hn]
  rfl

theorem mul_ofInt {n : Int} {c : Binary64} (x : Binary64) (hn : Number.realOfInt n = .ok c) :
    mul (ofInt n) (Number.real x) = .ok (.real (c.mul x)) := by
  change Number.mul (.int n) (.real x) = _
  rw [Number.mul, combine_int_real _ _ x hn]

theorem exists_sum {xs : List Binary64} (hne : xs ≠ []) :
    ∃ total, sum (xs.map Number.real) = .ok (.real total) := by
  have hfold : ∀ (rest : List Binary64) (start : Binary64), ∃ total,
      (rest.map Number.real).foldlM Number.add (.real start) = .ok (.real total) := by
    intro rest
    induction rest with
    | nil => exact fun start => ⟨start, rfl⟩
    | cons x rest ih => exact fun start => ih (start.add x)
  obtain ⟨nothing, hnothing, -⟩ := Number.exists_count (Nat.zero_le safeCount)
  cases xs with
  | nil => exact absurd rfl hne
  | cons x rest =>
      obtain ⟨total, htotal⟩ := hfold rest ((Binary64.finite false nothing).add x)
      refine ⟨total, ?_⟩
      have hfirst : Number.add (.int 0) (.real x) =
          .ok (.real ((Binary64.finite false nothing).add x)) := combine_int_real _ _ x hnothing
      change (Number.add (.int 0) (.real x) >>= fun start =>
        (rest.map Number.real).foldlM Number.add start) = _
      rw [hfirst]
      exact htotal

theorem exists_rankWeighted {xs : List Binary64} (hne : xs ≠ []) (hfew : xs.length ≤ safeCount) :
    ∃ weighted, rankWeighted (xs.map Number.real) = .ok (.real weighted) := by
  have hitems : ∀ item ∈ (xs.map Number.real).zipIdx,
      ∃ x, mul (ofInt (item.2 + 1)) item.1 = .ok (.real x) ∧ True := by
    intro item hitem
    obtain ⟨x, -, hx⟩ := List.mem_map.mp (List.fst_mem_of_mem_zipIdx hitem)
    have hbelow := List.snd_lt_of_mem_zipIdx hitem
    rw [List.length_map] at hbelow
    obtain ⟨steps, hsteps, -⟩ := Number.exists_count (Nat.le_trans hbelow hfew)
    rw [← hx]
    exact ⟨_, mul_ofInt x hsteps, trivial⟩
  obtain ⟨values, hvalues, hlength, -⟩ := Number.exists_reals hitems
  have hsome : values ≠ [] := by
    rintro rfl
    rw [List.length_nil, List.length_zipIdx, List.length_map] at hlength
    exact hne (List.length_eq_zero_iff.mp hlength.symm)
  obtain ⟨weighted, hweighted⟩ := exists_sum hsome
  exact ⟨weighted, bind_eq_ok.mpr ⟨_, hvalues, hweighted⟩⟩

theorem isZero_real {x : Binary64} (hx : isZero (Number.real x) = false) : x.isZero = false := by
  cases x with
  | nan => rfl
  | infinite negative => rfl
  | finite negative steps =>
      cases steps with
      | succ more => rfl
      | zero =>
          have hnothing : Binary64.signedSteps negative 0 = 0 := by cases negative <;> rfl
          change (some (compare (0 * (Binary64.stepsPerUnit : Int))
            (Binary64.signedSteps negative 0)) == some .eq) = false at hx
          rw [hnothing, Int.zero_mul] at hx
          exact absurd hx (by decide)

theorem exists_ratio {num den : Int} (hnum : num.natAbs ≤ safeCount) (hden : den ≠ 0) :
    ∃ share, ratio (α := Number) num den = .ok (.real share) := by
  have hscored := Scored.ratio num hden
  generalize ratio (α := Number) num den = share at hscored
  cases hscored with
  | real x => exact ⟨x, rfl⟩
  | overflow hlarge => exact absurd hlarge (Nat.not_lt.mpr hnum)

theorem exists_div {x y : Binary64} (hy : y.isZero = false) :
    ∃ z, div (Number.real x) (.real y) = .ok (.real z) := by
  have hscored : Scored False (div (Number.real x) (.real y)) := Scored.div_real x hy
  generalize div (Number.real x) (.real y) = quotient at hscored
  cases hscored with
  | real z => exact ⟨z, rfl⟩
  | overflow hfalse => exact hfalse.elim

theorem exists_ascending (xs : List Binary64) : ∃ ascending : List Binary64,
    Ranking.rank lt (xs.map Number.real) = ascending.map .real ∧ ascending.length = xs.length := by
  have hperm := Ranking.rank_perm lt (xs.map Number.real)
  have hreal : Ranking.rank lt (xs.map Number.real) ∈ Set.range (List.map Number.real) := by
    rw [Set.range_list_map]
    intro v hv
    obtain ⟨x, -, hx⟩ := List.mem_map.mp (hperm.mem_iff.mp hv)
    exact ⟨x, hx⟩
  obtain ⟨ascending, hascending⟩ := hreal
  have hlength := hperm.length_eq
  rw [← hascending, List.length_map, List.length_map] at hlength
  exact ⟨ascending, hascending.symm, hlength⟩

/-- There is no division by zero: what there is to share is not nothing, and nor is its product
with the count. -/
theorem exists_gini {xs : List Binary64} (hfew : xs.length < safeCount) :
    ∃ share, gini (xs.map .real) = .ok share := by
  suffices hshare : ∃ share, concentration (xs.map Number.real) = .ok share by
    obtain ⟨share, hshare⟩ := hshare
    exact ⟨share.roundTo 4, by rw [gini, hshare]; rfl⟩
  obtain ⟨zero, hzero⟩ : ∃ share, ratio (α := Number) 0 1 = .ok (.real share) :=
    exists_ratio (Nat.zero_le _) Int.one_ne_zero
  obtain ⟨ascending, hascending, hlength⟩ := exists_ascending xs
  rw [concentration]
  split
  · exact ⟨_, hzero⟩
  · next hsome =>
      have hpositive : 0 < xs.length := by
        refine List.length_pos_iff.mpr ?_
        rintro rfl
        exact hsome rfl
      have hne : ascending ≠ [] := List.length_pos_iff.mp (by omega)
      obtain ⟨total, htotal⟩ := exists_sum hne
      simp only [hascending, htotal, bind_eq_ok, List.length_map]
      cases hnothing : isZero (Number.real total) with
      | true => exact ⟨.real zero, .real total, rfl, by rw [hnothing]; exact hzero⟩
      | false =>
          obtain ⟨weighted, hweighted⟩ := exists_rankWeighted hne (by omega)
          obtain ⟨steps, hsteps, -, hone⟩ := Number.exists_count (Nat.le_of_lt hfew)
          obtain ⟨two, htwo, -⟩ := Number.exists_count two_le_safeCount
          have hdoubled : mul (ofInt 2) (Number.real weighted) =
              .ok (.real ((Binary64.finite false two).mul weighted)) := mul_ofInt weighted htwo
          have hwhole : mul (ofInt xs.length) (Number.real total) =
              .ok (.real ((Binary64.finite false steps).mul total)) := mul_ofInt total hsteps
          obtain ⟨quotient, hquotient⟩ :
              ∃ quotient, div (Number.real ((Binary64.finite false two).mul weighted))
                (.real ((Binary64.finite false steps).mul total)) = .ok (.real quotient) :=
            exists_div (Binary64.mul_isZero (hone hpositive) (isZero_real hnothing))
          obtain ⟨even, heven⟩ : ∃ even,
              ratio (α := Number) (xs.length + 1) xs.length = .ok (.real even) :=
            exists_ratio (by omega) (by omega)
          refine ⟨.real (quotient.sub even), .real total, rfl, ?_⟩
          simp only [hnothing, Bool.false_eq_true, if_false, bind_eq_ok]
          exact ⟨_, hweighted, _, hdoubled, _, hwhole, _, hquotient, _, heven, rfl⟩

end Fairness

end Rostering
