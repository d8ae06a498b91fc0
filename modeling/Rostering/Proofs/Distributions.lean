import Rostering.Evaluation
import Rostering.Proofs.SafeRange
import Mathlib.Algebra.Order.BigOperators.Group.List
import Mathlib.Data.List.GetD
import Mathlib.Tactic.IntervalCases
import Mathlib.Tactic.Ring

namespace Rostering

/-! Statistics of counts that a double can hold for certain. Their mean, median, deviation and
concentration are doubles too. -/

namespace Binary64

theorem safeSteps_pos : 0 < safeSteps := by
  have hmany := two_le_safeCount
  exact Nat.mul_pos (by omega) stepsPerUnit_pos

theorem pow_excessBits_le {steps : Nat} (hpositive : 0 < steps) : 2 ^ excessBits steps ≤ steps :=
  Nat.le_trans (Nat.pow_le_pow_right Nat.two_pos (Nat.sub_le _ 52))
    (Nat.log2_self_le (Nat.pos_iff_ne_zero.mp hpositive))

theorem roundSteps_le (num den : Nat) : roundSteps num den ≤ 2 * (num / den) + 1 := by
  have hcoarse : 2 ^ excessBits (num / den) ≤ num / den + 1 := by
    rcases Nat.eq_zero_or_pos (num / den) with hzero | hpositive
    · rw [hzero]
      decide
    · exact Nat.le_trans (pow_excessBits_le hpositive) (Nat.le_succ _)
  have hrounded : roundSteps num den ≤
      (num / den / 2 ^ excessBits (num / den) + 1) * 2 ^ excessBits (num / den) := by
    rw [Nat.div_div_eq_div_mul]
    exact Nat.mul_le_mul_right _ (roundQuotient_le num _)
  rw [Nat.add_mul, Nat.one_mul] at hrounded
  have hwhole := Nat.div_mul_le_self (num / den) (2 ^ excessBits (num / den))
  omega

theorem roundSteps_pos {num den : Nat} (hden : 0 < den) (hle : den ≤ num) :
    0 < roundSteps num den := by
  have hquotient : 0 < num / den := Nat.div_pos hle hden
  have hwhole : 0 < num / (den * 2 ^ excessBits (num / den)) := by
    rw [← Nat.div_div_eq_div_mul]
    exact Nat.div_pos (pow_excessBits_le hquotient) (Nat.two_pow_pos _)
  exact Nat.mul_pos (Nat.lt_of_lt_of_le hwhole (le_roundQuotient _ _)) (Nat.two_pow_pos _)

/-- Nothing gets lost in a product with a number that is at least one. -/
theorem mul_isZero {steps : Nat} {x : Binary64} (hone : stepsPerUnit ≤ steps)
    (hx : x.isZero = false) : ((finite false steps).mul x).isZero = false := by
  have hsteps : steps ≠ 0 := Nat.pos_iff_ne_zero.mp (Nat.lt_of_lt_of_le stepsPerUnit_pos hone)
  cases x with
  | nan => rfl
  | infinite negative =>
      rw [mul, if_neg hsteps]
      rfl
  | finite negative count =>
      have hcount : 0 < count := by
        refine Nat.pos_of_ne_zero fun hzero => ?_
        rw [hzero] at hx
        cases hx
      have hpositive := roundSteps_pos stepsPerUnit_pos
        (Nat.le_trans hone (Nat.le_mul_of_pos_right steps hcount))
      rw [mul, ofSteps]
      generalize roundSteps (steps * count) stepsPerUnit = product at hpositive
      obtain ⟨more, rfl⟩ := Nat.exists_eq_succ_of_ne_zero hpositive.ne'
      split <;> rfl

def Within (bound : Nat) (x : Binary64) : Prop :=
  ∃ negative steps, x = .finite negative steps ∧ steps ≤ bound

theorem exists_within {n : Int} {bound : Nat} (hbound : bound ≤ safeCount) (hn : n.natAbs ≤ bound) :
    ∃ x, Number.realOfInt n = .ok x ∧ x.Within (2 * (bound * stepsPerUnit) + 1) := by
  have hsafe := le_safeSteps_mul (Nat.le_trans hn hbound) Nat.one_pos
  have hround : ofInt n = .finite (decide (n < 0)) (roundSteps (n.natAbs * stepsPerUnit) 1) := by
    rw [ofInt, ofQuotient, ofSteps_eq_finite Nat.one_pos hsafe]
  have hsteps := roundSteps_le (n.natAbs * stepsPerUnit) 1
  rw [Nat.div_one] at hsteps
  refine ⟨ofInt n, ?_, _, _, hround, Nat.le_trans hsteps ?_⟩
  · rw [Number.realOfInt, ofInt?, hround]
    rfl
  · exact Nat.succ_le_succ (Nat.mul_le_mul_left 2 (Nat.mul_le_mul_right _ hn))

end Binary64

namespace Number

/-- A count is rounded to no more than about twice itself, and to no less than one unless it is
nothing. -/
theorem exists_count {count : Nat} (hcount : count ≤ safeCount) :
    ∃ steps, realOfInt count = .ok (.finite false steps) ∧
      steps ≤ 2 * (count * Binary64.stepsPerUnit) + 1 ∧
      (0 < count → Binary64.stepsPerUnit ≤ steps) := by
  obtain ⟨x, hx, negative, steps, hfinite, hle⟩ :=
    Binary64.exists_within hcount (Nat.le_of_eq (Int.natAbs_natCast count))
  obtain ⟨least, most, hleast, rfl, -⟩ := realOfInt_ok_of_le (Nat.zero_le count) hx
  obtain ⟨rfl, rfl⟩ := Binary64.finite.inj hfinite
  refine ⟨most, hx, hle, fun hpositive => ?_⟩
  have hone : realOfInt (1 : Nat) = .ok (.finite false Binary64.stepsPerUnit) := by decide +kernel
  obtain ⟨fewest, _, hfewest, hsame, hrise⟩ := realOfInt_ok_of_le hpositive hx
  rw [hone, Except.ok.injEq, Binary64.finite.injEq] at hfewest
  rw [Binary64.finite.injEq] at hsame
  rw [hfewest.2, hsame.2]
  exact hrise

theorem exists_reals {P : Binary64 → Prop} {f : α → Except Fault Number} {items : List α}
    (h : ∀ a ∈ items, ∃ x, f a = .ok (.real x) ∧ P x) :
    ∃ xs : List Binary64, items.mapM f = .ok (xs.map .real) ∧ xs.length = items.length ∧
      ∀ x ∈ xs, P x := by
  induction items with
  | nil => exact ⟨[], rfl, rfl, by simp⟩
  | cons a rest ih =>
      obtain ⟨x, hx, hP⟩ := h a (by simp)
      obtain ⟨xs, hxs, hlength, hrest⟩ := ih fun b hb => h b (by simp [hb])
      refine ⟨x :: xs, ?_, by simp [hlength], ?_⟩
      · rw [List.mapM_cons, hx, hxs]
        rfl
      · intro y hy
        rcases List.mem_cons.mp hy with rfl | hy
        · exact hP
        · exact hrest y hy

theorem totalSteps_eq_sum (steps : List Int) : totalSteps steps = steps.sum :=
  List.sum_eq_foldl.symm

theorem natAbs_sum_le {bound : Nat} {ns : List Int} (h : ∀ n ∈ ns, n.natAbs ≤ bound) :
    ns.sum.natAbs ≤ ns.length * bound := by
  induction ns with
  | nil => simp
  | cons n rest ih =>
      have hhead := h n (by simp)
      have htail := ih fun m hm => h m (by simp [hm])
      rw [List.sum_cons, List.length_cons, Nat.succ_mul]
      omega

/-- Both sides of the difference lie between nothing and the same square. -/
theorem natAbs_spread_le {count bound : Nat} {total squares : Int} (hnonneg : 0 ≤ squares)
    (htotal : total.natAbs ≤ count * bound)
    (hsquares : squares.natAbs ≤ count * (bound * bound)) :
    (count * squares - total * total).natAbs ≤ count * count * (bound * bound) := by
  obtain ⟨most, rfl⟩ := Int.eq_ofNat_of_zero_le hnonneg
  have hfirst : count * most ≤ count * count * (bound * bound) := by
    rw [Nat.mul_assoc]
    exact Nat.mul_le_mul_left count hsquares
  have hsecond : total.natAbs * total.natAbs ≤ count * count * (bound * bound) :=
    calc
      _ ≤ count * bound * (count * bound) := Nat.mul_le_mul htotal htotal
      _ = count * count * (bound * bound) := by ring
  rw [← Int.natAbs_mul_self, ← Int.natCast_mul]
  omega

theorem squareRoot_mul_self_le (n : Nat) : squareRoot n * squareRoot n ≤ n := by
  induction n using squareRoot.induct with
  | case1 n hsmall =>
      rw [squareRoot, dif_pos hsmall]
      interval_cases n <;> decide
  | case2 n hlarge r hfits ih =>
      rw [squareRoot, dif_neg hlarge]
      exact (if_pos hfits).symm ▸ hfits
  | case3 n hlarge r hover ih =>
      rw [squareRoot, dif_neg hlarge]
      change (if (r + 1) * (r + 1) ≤ n then r + 1 else r) *
        (if (r + 1) * (r + 1) ≤ n then r + 1 else r) ≤ n
      rw [if_neg hover]
      calc
        r * r = 4 * (squareRoot (n / 4) * squareRoot (n / 4)) := by
          change 2 * squareRoot (n / 4) * (2 * squareRoot (n / 4)) = _
          ring
        _ ≤ n := by omega

theorem rootOfQuotient_snd (num den : Nat) : (rootOfQuotient num den).2 = 2 * 2 ^ 64 := rfl

/-- The root of twice a square is less than twice its side. -/
theorem rootOfQuotient_fst_le {num den side : Nat}
    (hle : num ≤ den * (2 * (side * side))) :
    (rootOfQuotient num den).1 ≤ 4 * side * 2 ^ 64 + 1 := by
  have hscale : Nat.pow 2 128 = 2 ^ 64 * 2 ^ 64 := rfl
  have hroot : squareRoot (num * Nat.pow 2 128 / den) ≤ 2 * side * 2 ^ 64 := by
    refine Nat.mul_self_le_mul_self_iff.mp (Nat.le_trans (squareRoot_mul_self_le _) ?_)
    refine Nat.div_le_of_le_mul ?_
    rw [hscale]
    generalize 2 ^ 64 = unit
    calc
      num * (unit * unit) ≤ den * (2 * (side * side)) * (unit * unit) :=
        Nat.mul_le_mul_right _ hle
      _ ≤ den * (4 * (side * side)) * (unit * unit) :=
        Nat.mul_le_mul_right _ (Nat.mul_le_mul_left den (by omega))
      _ = den * (2 * side * unit * (2 * side * unit)) := by ring
  rw [rootOfQuotient]
  dsimp only
  split <;> omega

theorem insertAscending_perm (x : Number) (xs : List Number) :
    (insertAscending x xs).Perm (x :: xs) := by
  induction xs with
  | nil => exact .refl _
  | cons y rest ih =>
      rw [insertAscending]
      split
      · exact .refl _
      · exact (ih.cons y).trans (.swap x y rest)

theorem sortAscending_perm (xs : List Number) : (sortAscending xs).Perm xs := by
  have hfold : ∀ sorted : List Number,
      (xs.foldl (fun sorted x => insertAscending x sorted) sorted).Perm (sorted ++ xs) := by
    induction xs with
    | nil => simp
    | cons x rest ih =>
        intro sorted
        refine (ih (insertAscending x sorted)).trans ?_
        exact ((insertAscending_perm x sorted).append_right rest).trans List.perm_middle.symm
  exact hfold []

theorem exists_realOfSteps {num : Int} {den : Nat} (hden : 0 < den)
    (hle : num.natAbs ≤ Binary64.safeSteps * den) : ∃ x, realOfSteps num den = .ok x := by
  rw [realOfSteps, Binary64.ofSteps_eq_finite hden hle]
  exact ⟨_, rfl⟩

section

variable {xs : List Binary64} {bound : Nat} (hwithin : ∀ x ∈ xs, x.Within bound)
include hwithin

theorem exists_steps : ∃ steps, (xs.map real).mapM steps? = some steps ∧
    steps.length = xs.length ∧ ∀ s ∈ steps, s.natAbs ≤ bound := by
  induction xs with
  | nil => exact ⟨[], rfl, rfl, by simp⟩
  | cons x rest ih =>
      obtain ⟨negative, count, rfl, hcount⟩ := hwithin x (by simp)
      obtain ⟨steps, hsteps, hlength, hbound⟩ := ih fun y hy => hwithin y (by simp [hy])
      refine ⟨Binary64.signedSteps negative count :: steps, ?_, by simp [hlength], ?_⟩
      · rw [List.map_cons, List.mapM_cons, hsteps]
        rfl
      · intro s hs
        rcases List.mem_cons.mp hs with rfl | hs
        · cases negative <;> simpa [Binary64.signedSteps] using hcount
        · exact hbound s hs

theorem exists_mean (hne : xs ≠ []) (hbound : bound ≤ Binary64.safeSteps) :
    ∃ m, mean (xs.map real) = .ok m := by
  obtain ⟨steps, hsteps, hlength, hle⟩ := exists_steps hwithin
  have htotal := natAbs_sum_le hle
  rw [hlength] at htotal
  have hpositive := List.length_pos_iff.mpr hne
  obtain ⟨x, hx⟩ : ∃ x, realOfSteps steps.sum xs.length = .ok x := by
    refine exists_realOfSteps hpositive (Nat.le_trans htotal ?_)
    rw [Nat.mul_comm]
    exact Nat.mul_le_mul_right _ hbound
  rw [mean, hsteps]
  simp only [totalSteps_eq_sum, List.length_map, hx]
  split
  · exact ⟨_, rfl⟩
  · exact ⟨_, rfl⟩

theorem exists_standardDeviation (hmany : 2 ≤ xs.length)
    (hbound : 4 * bound ≤ Binary64.safeSteps) :
    ∃ x, standardDeviation (xs.map real) = .ok x := by
  obtain ⟨steps, hsteps, hlength, hle⟩ := exists_steps hwithin
  have htotal := natAbs_sum_le hle
  have hsquares : (steps.map fun s => s * s).sum.natAbs ≤ steps.length * (bound * bound) := by
    have hall : ∀ q ∈ steps.map fun s => s * s, q.natAbs ≤ bound * bound := by
      intro q hq
      obtain ⟨s, hs, rfl⟩ := List.mem_map.mp hq
      rw [Int.natAbs_mul]
      exact Nat.mul_le_mul (hle s hs) (hle s hs)
    simpa using natAbs_sum_le hall
  rw [hlength] at htotal hsquares
  have hnonneg : 0 ≤ (steps.map fun s => s * s).sum := by
    refine List.sum_nonneg fun q hq => ?_
    obtain ⟨s, -, rfl⟩ := List.mem_map.mp hq
    exact mul_self_nonneg s
  have hspread : (xs.length * (steps.map fun s => s * s).sum - steps.sum * steps.sum).natAbs ≤
      xs.length * (xs.length - 1) * (2 * (bound * bound)) :=
    calc
      _ ≤ xs.length * xs.length * (bound * bound) := natAbs_spread_le hnonneg htotal hsquares
      _ ≤ xs.length * (2 * (xs.length - 1)) * (bound * bound) :=
        Nat.mul_le_mul_right _ (Nat.mul_le_mul_left _ (by omega))
      _ = _ := by ring
  -- The root, too, is no more than a small multiple of the values.
  have hroot := rootOfQuotient_fst_le hspread
  rw [standardDeviation, hsteps]
  simp only [totalSteps_eq_sum, List.length_map]
  refine exists_realOfSteps ?_ ?_
  · rw [rootOfQuotient_snd]
    omega
  · rw [rootOfQuotient_snd, Int.natAbs_natCast]
    calc
      _ ≤ 4 * bound * 2 ^ 64 + 1 := hroot
      _ ≤ Binary64.safeSteps * 2 ^ 64 + Binary64.safeSteps * 2 ^ 64 :=
        Nat.add_le_add (Nat.mul_le_mul_right _ hbound)
          (Nat.mul_pos Binary64.safeSteps_pos (Nat.two_pow_pos 64))
      _ = Binary64.safeSteps * (2 * 2 ^ 64) := by ring

end

theorem exists_median {xs : List Binary64} (hne : xs ≠ []) :
    ∃ m, median (xs.map real) = .ok m := by
  have hperm := sortAscending_perm (xs.map real)
  have hlength := hperm.length_eq
  rw [List.length_map] at hlength
  have hpositive := List.length_pos_iff.mpr hne
  have hreal : ∀ k < xs.length, ∃ x, (sortAscending (xs.map real)).getD k 0 = real x := by
    intro k hk
    have hmem : (sortAscending (xs.map real)).getD k 0 ∈ xs.map real := by
      rw [← hperm.mem_iff, List.getD_eq_getElem _ _ (by omega)]
      exact List.getElem_mem _
    obtain ⟨x, -, hx⟩ := List.mem_map.mp hmem
    exact ⟨x, hx.symm⟩
  obtain ⟨upper, hupper⟩ := hreal (xs.length / 2) (by omega)
  obtain ⟨lower, hlower⟩ := hreal (xs.length / 2 - 1) (by omega)
  obtain ⟨two, htwo, -, hone⟩ := exists_count two_le_safeCount
  have hnonzero : (Binary64.finite false two).isZero = false := by
    obtain ⟨more, rfl⟩ := Nat.exists_eq_succ_of_ne_zero
      (Nat.lt_of_lt_of_le Binary64.stepsPerUnit_pos (hone Nat.two_pos)).ne'
    rfl
  have hhalf : (real (lower.add upper)).div 2 = .ok (lower.add upper / .finite false two) :=
    real_div htwo hnonzero
  simp only [median, hlength, hupper, hlower]
  split
  · exact ⟨_, rfl⟩
  · simp only [bind_eq_ok, pure_eq_ok]
    exact ⟨_, real (lower.add upper), rfl, _, hhalf, rfl⟩

end Number

theorem exists_distribution {xs : List Binary64} {bound : Nat} (hwithin : ∀ x ∈ xs, x.Within bound)
    (hbound : 4 * bound ≤ Binary64.safeSteps) : ∃ d, Distribution.ofList (xs.map .real) = .ok d := by
  cases xs with
  | nil => exact ⟨_, rfl⟩
  | cons x rest =>
      have hne : x :: rest ≠ [] := List.cons_ne_nil x rest
      obtain ⟨mean, hmean⟩ := Number.exists_mean hwithin hne (by omega)
      obtain ⟨median, hmedian⟩ := Number.exists_median hne
      simp only [Distribution.ofList, List.map_cons, bind_eq_ok] at hmean hmedian ⊢
      cases rest with
      | nil => exact ⟨_, mean, hmean, median, hmedian, rfl⟩
      | cons y others =>
          obtain ⟨deviation, hdeviation⟩ := Number.exists_standardDeviation hwithin (by simp) hbound
          exact ⟨_, mean, hmean, median, hmedian, bind_eq_ok.mpr ⟨deviation, hdeviation, rfl⟩⟩

end Rostering
