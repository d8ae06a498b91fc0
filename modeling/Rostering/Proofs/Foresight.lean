import Rostering.Proofs.Lockstep
import Rostering.Proofs.Moments
import Rostering.Proofs.Reading
import Rostering.Proofs.Reordering
import Mathlib.Data.List.TakeWhile

namespace Rostering

/-! No foresight. Two rotas that differ only in what their later shifts are like are filled in step
up to these, and what is picked for later shifts leaves the past as it is. -/

namespace Rota

/-- The shifts before an index, and the groups with what they hold of these. -/
def past (rota : Rota) (k : Int) : List Shift × List Group :=
  (rota.shifts.filter fun s => decide (s.index < k), rota.groups.map fun g => g.before k)

/-- The same rota, whatever the shifts from an index on are like. -/
structure SameBefore (k : Int) (a b : Rota) : Prop where
  groups_eq : a.groups = b.groups
  history_eq : a.history = b.history
  cap_eq : a.cap = b.cap
  target_eq : a.target = b.target
  shifts : List.Forall₂ (fun s t => s.index = t.index ∧ (s.index < k → s = t)) a.shifts b.shifts

variable {a b rota after : Rota} {criteria : List Criterion} {policy : Policy}
  {positions : List Nat} {g : Group} {s t : Shift} {i j : Nat} {k : Int}

/-! What is picked for a shift from an index on is no part of the past before it. -/

theorem filter_set_eq (test : α → Bool) {xs : List α} {x y : α} (hx : xs[i]? = some x)
    (hold : test x = false) (hnew : test y = false) :
    (xs.set i y).filter test = xs.filter test := by
  induction xs generalizing i with
  | nil => rfl
  | cons z rest ih =>
      cases i with
      | zero =>
          obtain rfl : z = x := by simpa using hx
          simp [hold, hnew]
      | succ i => simp only [List.set_cons_succ, List.filter_cons, ih (by simpa using hx)]

theorem filter_eq_of_forall₂ {R : α → α → Prop} {test : α → Bool} {xs ys : List α}
    (hsame : ∀ x y, R x y → test x = test y ∧ (test y = true → x = y))
    (h : List.Forall₂ R xs ys) : xs.filter test = ys.filter test := by
  induction h with
  | nil => rfl
  | @cons x y _ _ hhead _ ih =>
      obtain ⟨htest, hkept⟩ := hsame x y hhead
      rw [List.filter_cons, List.filter_cons, ih, htest]
      split
      · next hpassed => rw [hkept hpassed]
      · rfl

theorem before_take {n : Int} (hlate : k ≤ n) : (g.take n).before k = g.before k := by
  have hdropped : decide (n < k) = false := decide_eq_false (by omega)
  simp [Group.before, Group.take, hdropped]

theorem past_join (hgroup : rota.groups[i]? = some g) (hshift : rota.shifts[j]? = some s)
    (hlate : k ≤ s.index) : (rota.join i g j s).past k = rota.past k := by
  have hdropped : decide (s.index < k) = false := decide_eq_false (by omega)
  have hshifts : (rota.shifts.set j (s.seat g)).filter (fun s => decide (s.index < k)) =
      rota.shifts.filter fun s => decide (s.index < k) :=
    filter_set_eq _ hshift hdropped hdropped
  have hgroups : (rota.groups.set i (g.take s.index)).map (fun g => g.before k) =
      rota.groups.map fun g => g.before k :=
    set_map_self hgroup (before_take hlate)
  rw [past, past, join, hshifts, hgroups]

theorem Picks.past_eq (hlate : ∀ j ∈ positions, ∀ s, rota.shifts[j]? = some s → k ≤ s.index)
    (hpicks : Picks criteria positions rota after) : after.past k = rota.past k := by
  induction hpicks with
  | refl => rfl
  | tail hrun hpick ih =>
      obtain ⟨j, hj, hpick⟩ := hpick
      obtain @⟨_, _, s, hgroup, hshift, -, -⟩ := hpick
      obtain ⟨first, hfirst, hindex⟩ := exists_shift_of_index (Picks.blank_eq hrun) hshift
      exact (past_join hgroup hshift (hindex ▸ hlate j hj first hfirst)).trans ih

/-! Up to the index, all that decides on a pick is the same. -/

namespace SameBefore

variable (hsame : a.SameBefore k b)
include hsame

theorem past_eq : a.past k = b.past k := by
  have hshifts : a.shifts.filter (fun s => decide (s.index < k)) =
      b.shifts.filter fun s => decide (s.index < k) := by
    refine filter_eq_of_forall₂ (fun s t hst => ?_) hsame.shifts
    rw [hst.1]
    exact ⟨rfl, fun hearly => hst.2 (hst.1 ▸ of_decide_eq_true hearly)⟩
  rw [past, past, hshifts, hsame.groups_eq]

theorem shiftOrder_eq : a.shiftOrder = b.shiftOrder := by
  have hindex : ∀ i : Nat,
      (a.shifts[i]?).elim 0 Shift.index = (b.shifts[i]?).elim 0 Shift.index := by
    intro i
    rcases getElem?_of_forall₂ hsame.shifts i with ⟨hs, ht⟩ | ⟨s, t, hs, ht, hindex, -⟩
    · rw [hs, ht]
    · rw [hs, ht]
      exact hindex
  simp only [shiftOrder, hsame.shifts.length_eq, hindex]

theorem readsSame (kind : CriterionKind) : kind.ReadsSame a g s b g s where
  history_eq := hsame.history_eq
  count_eq := hsame.shifts.length_eq
  key_eq := rfl
  size_eq := rfl
  allocated_eq := rfl
  index_eq := rfl
  men_eq := fun _ => ⟨rfl, rfl⟩
  need_eq := fun _ => ⟨hsame.target_eq, rfl⟩

theorem inStep : InStep Fault.Never Fault.Never policy id a s b s := by
  refine InStep.of_groups (c := 0) rfl rfl (by rw [hsame.groups_eq]) fun i g h hg hh => ?_
  rw [hsame.groups_eq] at hg
  obtain rfl : g = h := Option.some.inj (hg.symm.trans hh)
  have hallowed : (policy.criteria.all fun c => c.kind.allows a g s) =
      policy.criteria.all fun c => c.kind.allows b g s :=
    all_allows_eq_of_readsSame fun c _ => hsame.readsSame c.kind
  have howed : a.desiredRemaining g = b.desiredRemaining g := by
    rw [desiredRemaining, desiredRemaining, hsame.history_eq, hsame.shifts.length_eq,
      hsame.target_eq]
  refine ⟨rfl, by rw [mayJoin, mayJoin, hallowed, hsame.cap_eq], ?_⟩
  refine rankOf_concur rfl rfl rfl ?_ ((Concur.of_eq howed).mono fun d d' hd => by omega)
  exact bonus_eq_of_readsSame fun c _ => hsame.readsSame c.kind

omit hsame in
theorem lockstep (start : Rota) (hearly : ∀ s, start.shifts[j]? = some s → s.index < k) :
    Lockstep Fault.Never Fault.Never policy id j
      (fun a b => a.SameBefore k b ∧ a.blank = start.blank) := by
  -- The shift that is filled is an early one, so it is the same on both sides.
  have hshared : ∀ {a b : Rota} {s t : Shift}, a.SameBefore k b → a.blank = start.blank →
      a.shifts[j]? = some s → b.shifts[j]? = some t → s = t := by
    intro a b s t hsame hblank hs ht
    obtain ⟨first, hfirst, hindex⟩ := exists_shift_of_index hblank hs
    exact (rel_of_getElem? hsame.shifts hs ht).2 (hindex ▸ hearly first hfirst)
  constructor
  case shift =>
    intro a b hrelated
    obtain ⟨hsame, hblank⟩ := hrelated
    rcases getElem?_of_forall₂ hsame.shifts j with hnone | ⟨s, t, hs, ht, -⟩
    · exact .inl hnone
    · obtain rfl := hshared hsame hblank hs ht
      exact .inr ⟨s, s, hs, ht, hsame.inStep⟩
  case join =>
    intro a b i g h s t hrelated hg hh hs ht
    obtain ⟨hsame, hblank⟩ := hrelated
    obtain rfl := hshared hsame hblank hs ht
    refine ⟨?_, (blank_join hg hs).trans hblank⟩
    rw [hsame.groups_eq] at hg
    obtain rfl : g = h := Option.some.inj (hg.symm.trans hh)
    constructor
    case groups_eq => rw [Rota.join, Rota.join, hsame.groups_eq, id]
    case history_eq => exact hsame.history_eq
    case cap_eq => exact hsame.cap_eq
    case target_eq => exact hsame.target_eq
    case shifts => exact forall₂_set hsame.shifts ⟨rfl, fun _ => rfl⟩ j

theorem fillShifts {a' b' : Rota} {early : List Nat}
    (hearly : ∀ j ∈ early, ∀ s, a.shifts[j]? = some s → s.index < k)
    (ha : early.foldlM (fillShift policy) a = .ok a')
    (hb : early.foldlM (fillShift policy) b = .ok b') : a'.SameBefore k b' := by
  have hrun : Concur Fault.Never Fault.Never
      (fun after after' => after.SameBefore k after' ∧ after.blank = a.blank)
      (early.foldlM (fillShift policy) a) (early.foldlM (fillShift policy) b) :=
    fillShifts_concur (fun j hj => lockstep a (hearly j hj)) ⟨hsame, rfl⟩
  rw [ha, hb] at hrun
  cases hrun with
  | ok hrelated => exact hrelated.1

end SameBefore

/-- Shifts are taken by their index, so a run first deals with all before a given one. -/
theorem exists_shiftOrder_split (rota : Rota) (k : Int) :
    ∃ early late, rota.shiftOrder = early ++ late ∧
      (∀ j ∈ early, ∀ s, rota.shifts[j]? = some s → s.index < k) ∧
      ∀ j ∈ late, ∀ s, rota.shifts[j]? = some s → k ≤ s.index := by
  let test (j : Nat) : Bool := (rota.shifts[j]?).all fun s => decide (s.index < k)
  have hwhole : rota.shiftOrder.takeWhile test ++ rota.shiftOrder.dropWhile test =
      rota.shiftOrder := List.takeWhile_append_dropWhile
  refine ⟨_, _, hwhole.symm, fun j hj s hs => ?_, fun j hj s hs => ?_⟩
  · simpa [test, hs] using List.mem_takeWhile_imp hj
  · have hsorted := shiftOrder_pairwise rota
    rw [← hwhole, List.pairwise_append] at hsorted
    cases hrest : rota.shiftOrder.dropWhile test with
    | nil => simp [hrest] at hj
    | cons first rest =>
        have hfirst : test first = false := by
          have hne : rota.shiftOrder.dropWhile test ≠ [] := by simp [hrest]
          simpa [hrest] using List.head_dropWhile_not test hne
        obtain ⟨u, hu, hlate⟩ : ∃ u, rota.shifts[first]? = some u ∧ k ≤ u.index := by
          simpa [test, Option.all_eq_false] using hfirst
        rw [hrest, List.pairwise_cons] at hsorted
        rw [hrest] at hj
        rcases List.mem_cons.mp hj with rfl | hj
        · obtain rfl : u = s := Option.some.inj (hu.symm.trans hs)
          exact hlate
        · exact Int.le_trans hlate (hsorted.2.1.1 j hj u s hu hs)

/-- What the shifts from an index on are like does not show in the past before it. -/
theorem no_foresight {a' b' : Rota} (hsame : a.SameBefore k b) (ha : a.allocate policy = .ok a')
    (hb : b.allocate policy = .ok b') : a'.past k = b'.past k := by
  obtain ⟨early, late, horder, hearly, hlate⟩ := exists_shiftOrder_split a k
  rw [allocate, horder, foldlM_append_eq_ok] at ha
  rw [allocate, ← hsame.shiftOrder_eq, horder, foldlM_append_eq_ok] at hb
  -- The runs keep in step over the early shifts; the late ones are then out of sight.
  obtain ⟨a₁, ha₁, ha⟩ := ha
  obtain ⟨b₁, hb₁, hb⟩ := hb
  have hsame₁ : a₁.SameBefore k b₁ := hsame.fillShifts hearly ha₁ hb₁
  have hblank : a₁.blank = a.blank := (fillShifts_picks ha₁).blank_eq
  have hlate₁ : ∀ j ∈ late, ∀ s, a₁.shifts[j]? = some s → k ≤ s.index := by
    intro j hj s hs
    obtain ⟨first, hfirst, hindex⟩ := exists_shift_of_index hblank hs
    exact hindex ▸ hlate j hj first hfirst
  have hlate₂ : ∀ j ∈ late, ∀ t, b₁.shifts[j]? = some t → k ≤ t.index := by
    intro j hj t ht
    rcases getElem?_of_forall₂ hsame₁.shifts j with ⟨-, hnone⟩ | ⟨s, t', hs, ht', hindex, -⟩
    · simp [hnone] at ht
    · obtain rfl : t' = t := Option.some.inj (ht'.symm.trans ht)
      exact hindex ▸ hlate₁ j hj s hs
  calc a'.past k = a₁.past k := (fillShifts_picks ha).past_eq hlate₁
    _ = b₁.past k := hsame₁.past_eq
    _ = b'.past k := ((fillShifts_picks hb).past_eq hlate₂).symm

end Rota

namespace Sample

def strict : Policy := { criteria := CriterionKind.all.map fun kind => ⟨kind, .one⟩ }

def booked : Rota :=
  { start with
    shifts := [⟨week 1, 0, 2, [], [], none, 0⟩, ⟨week 2, 1, 2, [], [], none, 0⟩,
      ⟨week 0, 2, 3, [], ["dan", "eve", "flo"], none, 0⟩] }

theorem allocate_strict {rota : Rota} {keys : List (List String)}
    (hindices : rota.shifts.map Shift.index = (List.range rota.shifts.length).map Int.ofNat)
    (hfill : ((List.range rota.shifts.length).foldlM (Rota.fillShift strict) rota).toOption.map
      (fun after => after.shifts.map Shift.groupKeys) = some keys) :
    ∃ after, rota.allocate strict = .ok after ∧ after.shifts.map Shift.groupKeys = keys := by
  have horder : rota.shiftOrder = List.range rota.shifts.length := by
    refine Rota.shiftOrder_eq_range fun j s hs => ?_
    obtain ⟨hj, rfl⟩ := List.getElem?_eq_some_iff.mp hs
    have hat := congrArg (fun indices => indices[j]?) hindices
    simpa [hj] using hat
  rw [← horder] at hfill
  exact exists_ok_of_toOption_map hfill

end Sample

open Sample in
theorem no_foresight_sample :
    start.SameBefore 2 booked ∧ ∃ a b : Rota,
      start.allocate strict = .ok a ∧ booked.allocate strict = .ok b ∧
      a.shifts.map Shift.groupKeys = [[], ["red"], ["individual_cy"]] ∧
      b.shifts.map Shift.groupKeys = [[], ["red"], []] ∧ a.past 2 = b.past 2 := by
  have hsame : start.SameBefore 2 booked := by
    constructor
    case shifts =>
      refine .cons ⟨rfl, fun _ => rfl⟩ (.cons ⟨rfl, fun _ => rfl⟩ (.cons ⟨rfl, ?_⟩ .nil))
      decide
    all_goals rfl
  obtain ⟨a, ha, hfirst⟩ : ∃ a, start.allocate strict = .ok a ∧
      a.shifts.map Shift.groupKeys = [[], ["red"], ["individual_cy"]] :=
    allocate_strict (by decide) (by decide +kernel)
  obtain ⟨b, hb, hsecond⟩ : ∃ b, booked.allocate strict = .ok b ∧
      b.shifts.map Shift.groupKeys = [[], ["red"], []] :=
    allocate_strict (by decide) (by decide +kernel)
  exact ⟨hsame, a, b, ha, hb, hfirst, hsecond, Rota.no_foresight hsame ha hb⟩

end Rostering
