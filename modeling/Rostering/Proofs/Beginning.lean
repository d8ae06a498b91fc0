import Rostering.Proofs.Lockstep

namespace Rostering

/-! A rota beside the rota of its first shifts only. The groups that are open on none of them are
missing there and the targets are lower, but neither shows in a choice: a group that is not open
takes no part, and the target moves all ranks alike. So the two are filled in step. -/

def Group.within (n : Nat) (g : Group) : Group :=
  { g with available := .below n fun i => decide (i ∈ g.available) }

namespace Group

variable {n : Nat} {g : Group} {i : Int}

@[simp] theorem within_key : (g.within n).key = g.key := rfl
@[simp] theorem within_allocated : (g.within n).allocated = g.allocated := rfl

theorem mem_within_available :
    i ∈ (g.within n).available ↔ 0 ≤ i ∧ i < n ∧ i ∈ g.available := by
  simp [within, IndexSet.mem_below]

theorem within_take : (g.take i).within n = (g.within n).take i := rfl

end Group

@[simp] theorem Shift.seat_within {n : Nat} {g : Group} (s : Shift) :
    s.seat (g.within n) = s.seat g := rfl

theorem CriterionKind.score_within {kind : CriterionKind} (hkind : kind ∈ selfContained) {α : Type}
    [Arithmetic α] {a b : Rota} {n : Nat} {g : Group} {s : Shift} :
    kind.score (α := α) a (g.within n) s = kind.score b g s := by
  simp only [selfContained, List.mem_cons, List.not_mem_nil, or_false] at hkind
  rcases hkind with rfl | rfl | rfl <;> rfl

namespace Rota

variable {a b : Rota} {n : Nat} {σ : Nat → Nat} {criteria : List Criterion} {policy : Policy}
  {s : Shift} {g : Group} {i j : Nat}

theorem allows_within (hhistory : a.history = b.history) (kind : CriterionKind) :
    kind.allows a (g.within n) s = kind.allows b g s := by
  cases kind with
  | noDoubleShifts =>
      simp only [CriterionKind.allows, workedLast, hhistory, Group.within_key, Group.holds,
        Group.within_allocated]
  | _ => rfl

theorem mayJoin_within (hhistory : a.history = b.history) (hcap : a.cap = b.cap)
    (hfirst : 0 ≤ s.index) (hlast : s.index < n) :
    a.mayJoin criteria (g.within n) s = b.mayJoin criteria g s := by
  have hopen : (g.within n).isAvailable s.index = g.isAvailable s.index := by
    simp [Group.isAvailable, Group.mem_within_available, hfirst, hlast]
  simp only [mayJoin, hopen, hcap, allows_within hhistory]
  rfl

/-- Both lists rise, so they are equal if they name the same positions. -/
theorem positionsWhere_eq_map (hmono : StrictMono σ) {test test' : Group → Bool}
    (hsame : ∀ k, (∃ h, b.groups[k]? = some h ∧ test' h = true) ↔
      ∃ i, (∃ g, a.groups[i]? = some g ∧ test g = true) ∧ σ i = k) :
    b.positionsWhere test' = (a.positionsWhere test).map σ := by
  have hrising : ∀ (rota : Rota) (test : Group → Bool),
      (rota.positionsWhere test).Pairwise (· < ·) :=
    fun rota test => List.pairwise_lt_range.filter _
  apply (hrising b test').eq_of_mem_iff
  · exact (hrising a test).map σ fun _ _ hlt => hmono hlt
  · intro k
    simp only [List.mem_map, mem_positionsWhere, hsame]

theorem bonus_within (hkinds : ∀ c ∈ criteria, c.kind ∈ CriterionKind.selfContained) :
    a.bonus criteria (g.within n) s = b.bonus criteria g s := by
  rw [bonus, bonus, mapM_congr]
  intro c hc
  rw [Criterion.weightedScore, Criterion.weightedScore, CriterionKind.score_within (hkinds c hc)]

/-- A rota is that of the first shifts of another: its groups stand in the order of those there
that are open on these shifts. -/
structure Beginning (n : Nat) (σ : Nat → Nat) (a b : Rota) : Prop where
  mono : StrictMono σ
  groups_eq : ∀ i, a.groups[i]? = (b.groups[σ i]?).map (Group.within n)
  reached : ∀ k g i, b.groups[k]? = some g → i ∈ (g.within n).available → k ∈ Set.range σ
  shifts_eq : a.shifts = b.shifts.take n
  index_eq : ∀ (j : Nat) (s : Shift), a.shifts[j]? = some s → s.index = j
  history_eq : a.history = b.history
  cap_eq : a.cap = b.cap
  target_eq : a.target = b.target

namespace Beginning

variable (hbegins : Beginning n σ a b)
include hbegins

theorem shift_eq (hj : j < n) : a.shifts[j]? = b.shifts[j]? := by
  rw [hbegins.shifts_eq, List.getElem?_take_of_lt hj]

theorem index_within (hj : j < n) (hshift : b.shifts[j]? = some s) :
    0 ≤ s.index ∧ s.index < n := by
  rw [← hbegins.shift_eq hj] at hshift
  have := hbegins.index_eq j s hshift
  omega

theorem exists_group {h : Group} (hgroup : a.groups[i]? = some h) :
    ∃ g, b.groups[σ i]? = some g ∧ h = g.within n := by
  rw [hbegins.groups_eq, Option.map_eq_some_iff] at hgroup
  obtain ⟨g, hg, rfl⟩ := hgroup
  exact ⟨g, hg, rfl⟩

theorem positionsWhere_eq {test test' : Group → Bool} (hsame : ∀ g, test (g.within n) = test' g)
    (hopen : ∀ g, test' g = true → ∃ i, i ∈ (g.within n).available) :
    b.positionsWhere test' = (a.positionsWhere test).map σ := by
  apply positionsWhere_eq_map hbegins.mono
  intro k
  constructor
  · intro hfound
    obtain ⟨g, hgroup, htest⟩ := hfound
    obtain ⟨i, hi⟩ := hopen g htest
    obtain ⟨m, rfl⟩ := hbegins.reached k g i hgroup hi
    refine ⟨m, ⟨g.within n, ?_, (hsame g).trans htest⟩, rfl⟩
    rw [hbegins.groups_eq, hgroup, Option.map_some]
  · intro hfound
    obtain ⟨m, ⟨g, hgroup, htest⟩, rfl⟩ := hfound
    obtain ⟨h, hh, rfl⟩ := hbegins.exists_group hgroup
    exact ⟨h, hh, (hsame h).symm.trans htest⟩

theorem eligible_eq (hj : j < n) (hshift : b.shifts[j]? = some s) :
    b.eligible criteria s = (a.eligible criteria s).map σ := by
  obtain ⟨hfirst, hlast⟩ := hbegins.index_within hj hshift
  apply hbegins.positionsWhere_eq
  · exact fun g => mayJoin_within hbegins.history_eq hbegins.cap_eq hfirst hlast
  · intro g hjoin
    have havailable := (mayJoin_iff.mp hjoin).1.available
    exact ⟨s.index, Group.mem_within_available.mpr ⟨hfirst, hlast, havailable⟩⟩

theorem eligibleLeads_eq (hj : j < n) (hshift : b.shifts[j]? = some s) :
    b.eligibleLeads criteria s = (a.eligibleLeads criteria s).map σ := by
  obtain ⟨hfirst, hlast⟩ := hbegins.index_within hj hshift
  apply hbegins.positionsWhere_eq
  · intro g
    rw [mayJoin_within hbegins.history_eq hbegins.cap_eq hfirst hlast]
    rfl
  · intro g htest
    have havailable := (mayJoin_iff.mp (Bool.and_eq_true _ _ ▸ htest).2).1.available
    exact ⟨s.index, Group.mem_within_available.mpr ⟨hfirst, hlast, havailable⟩⟩

/-- The lower target takes one amount from what each group is owed. Where the higher one is out of
range, there is no longer rota to speak of. -/
theorem exists_owed_concur : ∃ c, ∀ g, Concur Fault.Never Fault.Any
    (fun d d' => d' = d - c) (a.desiredRemaining (g.within n)) (b.desiredRemaining g) := by
  have hcount : a.shifts.length ≤ b.shifts.length := by
    rw [hbegins.shifts_eq, List.length_take]
    exact Nat.min_le_right _ _
  cases hdue : targetAllocations b.history.length b.shifts.length b.target with
  | error fault =>
      refine ⟨0, fun g => ?_⟩
      simp only [desiredRemaining, Rostering.desiredRemaining, hdue]
      exact .right trivial _
  | ok due =>
      obtain ⟨less, hless⟩ := targetAllocations_ok_of_le hcount hdue
      rw [← hbegins.history_eq, ← hbegins.target_eq] at hless
      refine ⟨less - due, fun g => ?_⟩
      simp only [desiredRemaining, Rostering.desiredRemaining, hdue, hless]
      refine .ok ?_
      change due - g.totalCount = less - g.totalCount - (less - due)
      omega

theorem inStep (hkinds : ∀ c ∈ policy.criteria, c.kind ∈ CriterionKind.selfContained)
    (hj : j < n) (hshift : b.shifts[j]? = some s) :
    InStep Fault.Never Fault.Any policy σ a s b s where
  full_eq := rfl
  led_eq := rfl
  eligible_eq := hbegins.eligible_eq hj hshift
  eligibleLeads_eq := hbegins.eligibleLeads_eq hj hshift
  rank := by
    obtain ⟨c, howed⟩ := hbegins.exists_owed_concur
    refine ⟨c, fun i g hg => ?_⟩
    obtain ⟨h, hh, rfl⟩ := hbegins.exists_group hg
    exact ⟨h, hh, rankOf_concur rfl rfl rfl (bonus_within hkinds) (howed h)⟩

theorem join (hj : j < n) (hgroup : b.groups[σ i]? = some g) (hshift : b.shifts[j]? = some s) :
    Beginning n σ (a.join i (g.within n) j s) (b.join (σ i) g j s) := by
  have hfirst : a.groups[i]? = some (g.within n) := by
    rw [hbegins.groups_eq, hgroup, Option.map_some]
  constructor
  case mono => exact hbegins.mono
  case groups_eq =>
    intro k
    by_cases hik : i = k
    · subst hik
      have hlength := (List.getElem?_eq_some_iff.mp hgroup).1
      have hlength' := (List.getElem?_eq_some_iff.mp hfirst).1
      simp [Rota.join, hlength, hlength', Group.within_take]
    · have hne : σ i ≠ σ k := fun heq => hik (hbegins.mono.injective heq)
      rw [Rota.join, Rota.join, List.getElem?_set_ne hik, List.getElem?_set_ne hne]
      exact hbegins.groups_eq k
  case reached =>
    intro k h m hh hm
    by_cases hik : σ i = k
    · exact ⟨i, hik⟩
    · rw [Rota.join, List.getElem?_set_ne hik] at hh
      exact hbegins.reached k h m hh hm
  case shifts_eq =>
    rw [Rota.join, Rota.join, Shift.seat_within, hbegins.shifts_eq, List.take_set]
  case index_eq =>
    intro k t ht
    by_cases hjk : j = k
    · subst hjk
      rw [← hbegins.shift_eq hj] at hshift
      have hlength := (List.getElem?_eq_some_iff.mp hshift).1
      obtain rfl : s.seat (g.within n) = t := by simpa [Rota.join, hlength] using ht
      exact hbegins.index_eq j s hshift
    · rw [Rota.join, List.getElem?_set_ne hjk] at ht
      exact hbegins.index_eq k t ht
  case history_eq => exact hbegins.history_eq
  case cap_eq => exact hbegins.cap_eq
  case target_eq => exact hbegins.target_eq

omit hbegins in
theorem lockstep (hkinds : ∀ c ∈ policy.criteria, c.kind ∈ CriterionKind.selfContained)
    (hj : j < n) : Lockstep Fault.Never Fault.Any policy σ j (Beginning n σ) := by
  constructor
  case shift =>
    intro a b hbegins
    cases hshift : b.shifts[j]? with
    | none => exact .inl ⟨(hbegins.shift_eq hj).trans hshift, rfl⟩
    | some s =>
        exact .inr ⟨s, s, (hbegins.shift_eq hj).trans hshift, rfl, hbegins.inStep hkinds hj hshift⟩
  case join =>
    intro a b i g h s t hbegins hg hh hs ht
    obtain ⟨h', hh', rfl⟩ := hbegins.exists_group hg
    obtain rfl : h' = h := Option.some.inj (hh'.symm.trans hh)
    rw [hbegins.shift_eq hj] at hs
    obtain rfl : s = t := Option.some.inj (hs.symm.trans ht)
    exact hbegins.join hj hh hs

theorem fillShifts {b' : Rota} {order : List Nat}
    (hkinds : ∀ c ∈ policy.criteria, c.kind ∈ CriterionKind.selfContained)
    (horder : ∀ j ∈ order, j < n) (h : order.foldlM (Rota.fillShift policy) b = .ok b') :
    ∃ a', order.foldlM (Rota.fillShift policy) a = .ok a' ∧ Beginning n σ a' b' := by
  have hrun := fillShifts_concur (fun j hj => lockstep hkinds (horder j hj)) hbegins
  rw [h] at hrun
  rcases hrun.of_ok_right with hfilled | ⟨_, -, hlost⟩
  · exact hfilled
  · exact False.elim hlost

end Beginning

end Rota

end Rostering
