import Rostering.Fairness
import Rostering.Proofs.Exact
import Rostering.Proofs.RankOrder
import Mathlib.Algebra.BigOperators.Ring.List
import Mathlib.Algebra.Order.BigOperators.Group.List
import Mathlib.Algebra.Order.Field.Rat
import Mathlib.Algebra.Order.Ring.Abs
import Mathlib.Tactic.FieldSimp
import Mathlib.Tactic.Linarith
import Mathlib.Tactic.Ring

namespace Rostering

/-! The Gini coefficient in exact arithmetic. Weighing values by their rank comes to adding up how
far any two of them lie apart. -/

namespace Fairness

/-- How far values lie from one of them, taken together. -/
def distances (x : Rat) (ys : List Rat) : Rat := (ys.map fun y => |x - y|).sum

/-- How far any two values lie apart, each two taken both ways. -/
def differences (xs : List Rat) : Rat := (xs.map fun x => distances x xs).sum

variable {x : Rat} {xs ys : List Rat}

theorem distances_cons (x y : Rat) (ys : List Rat) :
    distances x (y :: ys) = |x - y| + distances x ys := by
  simp [distances]

theorem differences_cons (x : Rat) (xs : List Rat) :
    differences (x :: xs) = differences xs + 2 * distances x xs := by
  have hothers : (xs.map fun y => distances y (x :: xs)).sum = distances x xs + differences xs := by
    simp only [distances_cons, List.sum_map_add]
    rw [differences, distances]
    simp only [abs_sub_comm x]
  rw [differences, List.map_cons, List.sum_cons, distances_cons, hothers, sub_self, abs_zero]
  ring

theorem differences_perm (hperm : xs.Perm ys) : differences xs = differences ys := by
  have hsame : ∀ x, distances x xs = distances x ys := fun x => (hperm.map _).sum_eq
  simp only [differences, hsame]
  exact (hperm.map _).sum_eq

theorem differences_scale {c : Rat} (hc : 0 < c) (xs : List Rat) :
    differences (xs.map (c * ·)) = c * differences xs := by
  have hdistances : ∀ x, distances (c * x) (xs.map (c * ·)) = c * distances x xs := by
    intro x
    rw [distances, List.map_map, distances, ← List.sum_map_mul_left]
    congr 1
    refine List.map_congr_left fun y _ => ?_
    rw [Function.comp_apply, ← mul_sub, abs_mul, abs_of_pos hc]
  rw [differences, List.map_map, differences, ← List.sum_map_mul_left]
  congr 1
  exact List.map_congr_left fun x _ => hdistances x

theorem distances_nonneg (x : Rat) (ys : List Rat) : 0 ≤ distances x ys := by
  refine List.sum_nonneg fun d hd => ?_
  obtain ⟨y, -, rfl⟩ := List.mem_map.mp hd
  exact abs_nonneg _

theorem differences_nonneg (xs : List Rat) : 0 ≤ differences xs := by
  refine List.sum_nonneg fun d hd => ?_
  obtain ⟨x, -, rfl⟩ := List.mem_map.mp hd
  exact distances_nonneg x xs

/-! In rising order, a value lies above all before it and below all after it. -/

/-- The values in their order, each as often as its rank says. -/
def rankSum (xs : List Rat) : Rat := (xs.zipIdx.map fun (v, i) => ((i + 1 : Int) : Rat) * v).sum

theorem rankSum_cons (x : Rat) (xs : List Rat) :
    rankSum (x :: xs) = x + (rankSum xs + xs.sum) := by
  have hlater : (xs.zipIdx 1).map (fun (v, i) => ((i + 1 : Int) : Rat) * v) =
      xs.zipIdx.map fun (v, i) => ((i + 1 : Int) : Rat) * v + v := by
    rw [List.zipIdx_succ, List.map_map]
    refine List.map_congr_left fun item _ => ?_
    simp only [Function.comp_apply]
    push_cast
    ring
  have hvalues : (xs.zipIdx.map fun (v, _) => v).sum = xs.sum := by
    conv_rhs => rw [← List.zipIdx_map_fst 0 xs]
  rw [rankSum, List.zipIdx_cons, List.map_cons, List.sum_cons, hlater]
  rw [List.sum_map_add, hvalues, rankSum]
  push_cast
  ring

theorem distances_least (hleast : ∀ y ∈ xs, x ≤ y) : distances x xs = xs.sum - xs.length * x := by
  induction xs with
  | nil => simp [distances]
  | cons y rest ih =>
      have hfirst : |x - y| = y - x := by
        rw [abs_sub_comm, abs_of_nonneg (sub_nonneg.mpr (hleast y (by simp)))]
      rw [distances_cons, ih fun z hz => hleast z (by simp [hz]), hfirst, List.sum_cons,
        List.length_cons]
      push_cast
      ring

theorem differences_rising (hrising : xs.Pairwise (· ≤ ·)) :
    differences xs = 4 * rankSum xs - 2 * (xs.length + 1) * xs.sum := by
  induction xs with
  | nil => simp [differences, rankSum]
  | cons x rest ih =>
      obtain ⟨hleast, hrest⟩ := List.pairwise_cons.mp hrising
      rw [differences_cons, ih hrest, distances_least hleast, rankSum_cons, List.sum_cons,
        List.length_cons]
      push_cast
      ring

/-! The coefficient over exact values. -/

theorem rankWeighted_exact (xs : List Rat) : rankWeighted xs = .ok (rankSum xs) := by
  rw [rankWeighted, rankSum, ← Arithmetic.sum_exact]
  exact congrArg (· >>= Arithmetic.sum)
    (List.mapM_pure (m := Except Fault) (l := xs.zipIdx)
      (f := fun (v, i) => ((i + 1 : Int) : Rat) * v))

theorem rank_rising (xs : List Rat) :
    (Ranking.rank Arithmetic.lt xs).Pairwise (· ≤ ·) := by
  have hagrees : Ranking.Agrees Arithmetic.lt (fun x : Rat => x) xs := by
    constructor
    · exact fun x _ y _ hbelow => le_of_lt (of_decide_eq_true hbelow)
    · exact fun x _ y _ hnot => not_lt.mp (of_decide_eq_false hnot)
  exact hagrees.rank

theorem concentration_exact (hsum : xs.sum ≠ 0) :
    concentration xs = .ok (differences xs / (2 * xs.length * xs.sum)) := by
  have hsome : ¬ xs.all Arithmetic.isZero = true := by
    intro hall
    exact hsum (List.sum_eq_zero fun x hx => of_decide_eq_true (List.all_eq_true.mp hall x hx))
  have hlength : (xs.length : Int) ≠ 0 := by
    intro hnone
    obtain rfl := List.length_eq_zero_iff.mp (Int.natCast_eq_zero.mp hnone)
    exact hsum rfl
  have hcount : ((xs.length : Int) : Rat) ≠ 0 := Int.cast_ne_zero.mpr hlength
  have hperm := Ranking.rank_perm Arithmetic.lt xs
  have hweighted := differences_rising (rank_rising xs)
  rw [differences_perm hperm, hperm.length_eq, hperm.sum_eq] at hweighted
  have htotal : ¬ Arithmetic.isZero xs.sum = true := fun hzero => hsum (of_decide_eq_true hzero)
  rw [concentration, if_neg hsome]
  simp only [Arithmetic.sum_exact, rankWeighted_exact, hperm.sum_eq, bind_eq_ok]
  refine ⟨_, rfl, ?_⟩
  rw [if_neg htotal]
  simp only [bind_eq_ok]
  refine ⟨_, rfl, _, rfl, _, rfl, _, Arithmetic.div_exact _ (mul_ne_zero hcount hsum), _,
    Arithmetic.ratio_exact _ hlength, ?_⟩
  refine congrArg Except.ok ?_
  change ((2 : Int) : Rat) * _ / ((xs.length : Int) * xs.sum) -
    ((xs.length + 1 : Int) : Rat) / (xs.length : Int) = _
  rw [hweighted]
  push_cast at hcount ⊢
  field_simp
  ring

/-! Two values that are not below zero lie no further apart than both from zero, and as far only if
one of them is zero. -/

theorem abs_sub_le_add {y : Rat} (hx : 0 ≤ x) (hy : 0 ≤ y) :
    |x - y| ≤ x + y ∧ (|x - y| = x + y ↔ x = 0 ∨ y = 0) := by
  rcases le_total x y with hle | hle
  · rw [abs_sub_comm, abs_of_nonneg (sub_nonneg.mpr hle)]
    refine ⟨by linarith, fun h => .inl (by linarith), ?_⟩
    rintro (rfl | rfl)
    · ring
    · linarith
  · rw [abs_of_nonneg (sub_nonneg.mpr hle)]
    refine ⟨by linarith, fun h => .inr (by linarith), ?_⟩
    rintro (rfl | rfl)
    · linarith
    · ring

theorem distances_le (hx : 0 ≤ x) (hnonneg : ∀ y ∈ ys, 0 ≤ y) :
    distances x ys ≤ ys.length * x + ys.sum ∧
      (distances x ys = ys.length * x + ys.sum ↔ ∀ y ∈ ys, x = 0 ∨ y = 0) := by
  induction ys with
  | nil => simp [distances]
  | cons y rest ih =>
      obtain ⟨hrest, hrestEq⟩ := ih fun z hz => hnonneg z (by simp [hz])
      obtain ⟨hfirst, hfirstEq⟩ := abs_sub_le_add hx (hnonneg y (by simp))
      have hsplit : ((y :: rest).length : Rat) * x + (y :: rest).sum =
          (x + y) + (rest.length * x + rest.sum) := by
        rw [List.length_cons, List.sum_cons]
        push_cast
        ring
      rw [distances_cons, hsplit, add_eq_add_iff_eq_and_eq hfirst hrest, hfirstEq, hrestEq,
        List.forall_mem_cons]
      exact ⟨add_le_add hfirst hrest, Iff.rfl⟩

theorem differences_le (hnonneg : ∀ x ∈ xs, 0 ≤ x) :
    differences xs ≤ 2 * (xs.length - 1) * xs.sum ∧
      (differences xs = 2 * (xs.length - 1) * xs.sum ↔ xs.Pairwise fun x y => x = 0 ∨ y = 0) := by
  induction xs with
  | nil => simp [differences]
  | cons x rest ih =>
      obtain ⟨hx, hrest⟩ := List.forall_mem_cons.mp hnonneg
      obtain ⟨hothers, hothersEq⟩ := ih hrest
      obtain ⟨hown, hownEq⟩ := distances_le hx hrest
      have hsplit : 2 * (((x :: rest).length : Rat) - 1) * (x :: rest).sum =
          2 * (rest.length - 1) * rest.sum + 2 * (rest.length * x + rest.sum) := by
        rw [List.length_cons, List.sum_cons]
        push_cast
        ring
      have htwice : 2 * distances x rest ≤ 2 * (rest.length * x + rest.sum) := by linarith
      rw [differences_cons, hsplit, add_eq_add_iff_eq_and_eq hothers htwice, hothersEq,
        mul_right_inj' two_ne_zero, hownEq, List.pairwise_cons]
      exact ⟨add_le_add hothers htwice, and_comm⟩

theorem pairwise_zero_iff (xs : List Rat) :
    (xs.Pairwise fun x y => x = 0 ∨ y = 0) ↔ xs.countP (· ≠ 0) ≤ 1 := by
  induction xs with
  | nil => simp
  | cons x rest ih =>
      rw [List.pairwise_cons, ih]
      by_cases hx : x = 0
      · simp [hx]
      · have hnone : (∀ y ∈ rest, x = 0 ∨ y = 0) ↔ rest.countP (· ≠ 0) = 0 := by
          simp [hx, List.countP_eq_zero]
        rw [hnone, List.countP_cons_of_pos (by simpa using hx)]
        omega

/-- Of values that are not below zero and not all zero, the Gini coefficient is what lies between
any two of them over twice their number and their sum. Neither their order nor their scale counts,
and it reaches from zero to the share of all values but one, where one value has everything. -/
theorem gini_of_differences (hnonneg : ∀ x ∈ xs, 0 ≤ x) (hsome : ∃ x ∈ xs, x ≠ 0) :
    ∃ share, concentration xs = .ok share ∧
      share = differences xs / (2 * xs.length * xs.sum) ∧
      (∀ ys : List Rat, ys.Perm xs → concentration ys = .ok share) ∧
      (∀ c : Rat, 0 < c → concentration (xs.map (c * ·)) = .ok share) ∧
      0 ≤ share ∧ share ≤ (xs.length - 1) / xs.length ∧
      (share = (xs.length - 1) / xs.length ↔ xs.countP (· ≠ 0) = 1) := by
  obtain ⟨x, hx, hnonzero⟩ := hsome
  have hpositive : 0 < xs.sum :=
    lt_of_lt_of_le (lt_of_le_of_ne (hnonneg x hx) hnonzero.symm) (List.single_le_sum hnonneg x hx)
  have hsum : xs.sum ≠ 0 := ne_of_gt hpositive
  have hlength : 0 < (xs.length : Rat) := Nat.cast_pos.mpr (List.length_pos_of_mem hx)
  have hden : 0 < 2 * xs.length * xs.sum := mul_pos (mul_pos two_pos hlength) hpositive
  obtain ⟨hle, hmost⟩ := differences_le hnonneg
  -- The share of all but one, over the same divisor as the differences.
  have hbound : ((xs.length : Rat) - 1) / xs.length =
      2 * (xs.length - 1) * xs.sum / (2 * xs.length * xs.sum) := by
    field_simp
  refine ⟨_, concentration_exact hsum, rfl, ?_, ?_, ?_, ?_, ?_⟩
  · intro ys hperm
    rw [concentration_exact (hperm.sum_eq ▸ hsum), differences_perm hperm, hperm.length_eq,
      hperm.sum_eq]
  · intro c hc
    have hscaled : (xs.map (c * ·)).sum = c * xs.sum := by
      simpa using List.sum_map_mul_left xs (fun x => x) c
    rw [concentration_exact (hscaled ▸ mul_ne_zero (ne_of_gt hc) hsum), differences_scale hc,
      hscaled, List.length_map]
    refine congrArg Except.ok ?_
    field_simp
  · exact div_nonneg (differences_nonneg xs) (le_of_lt hden)
  · rw [hbound]
    exact div_le_div_of_nonneg_right hle (le_of_lt hden)
  · have hcount : 0 < xs.countP (· ≠ 0) := List.countP_pos_iff.mpr ⟨x, hx, by simpa using hnonzero⟩
    rw [hbound, div_left_inj' (ne_of_gt hden), hmost, pairwise_zero_iff]
    omega

theorem gini_of_differences_sample :
    (∀ x ∈ [3, 0, (1 : Rat)], 0 ≤ x) ∧ (∃ x ∈ [3, 0, (1 : Rat)], x ≠ 0) ∧
      concentration [3, 0, (1 : Rat)] = .ok (1 / 2) ∧
      concentration [0, 1, (3 : Rat)] = .ok (1 / 2) ∧
      concentration [30, 0, (10 : Rat)] = .ok (1 / 2) ∧
      concentration [0, 0, 0, (4 : Rat)] = .ok (3 / 4) := by
  have hnonneg : ∀ x ∈ [3, 0, (1 : Rat)], 0 ≤ x := by decide
  have hsome : ∃ x ∈ [3, 0, (1 : Rat)], x ≠ 0 := ⟨3, by decide, by decide⟩
  have hapart : differences [3, 0, 1] = 12 := by decide +kernel
  obtain ⟨share, hshare, hvalue, hperm, hscale, -⟩ := gini_of_differences hnonneg hsome
  obtain rfl : share = 1 / 2 := by
    rw [hvalue, hapart]
    norm_num
  have hall : ∀ x ∈ [0, 0, 0, (4 : Rat)], 0 ≤ x := by decide
  obtain ⟨most, hmost, -, -, -, -, -, hone⟩ :=
    gini_of_differences hall ⟨4, by decide, by decide⟩
  obtain rfl : most = 3 / 4 := by
    rw [hone.mpr (by decide)]
    norm_num
  refine ⟨hnonneg, hsome, hshare, hperm _ (by decide), ?_, hmost⟩
  have hten := hscale 10 (by decide)
  norm_num at hten
  exact hten

end Fairness

end Rostering
