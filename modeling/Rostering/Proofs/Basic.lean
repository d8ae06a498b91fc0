import Rostering.Fault
import Mathlib.Data.List.Nodup

namespace Rostering

/-! Facts about results and lists that several proofs share. -/

theorem bind_eq_ok {x : Except ε α} {f : α → Except ε β} {b : β} :
    (x >>= f) = .ok b ↔ ∃ a, x = .ok a ∧ f a = .ok b := by
  cases x <;> simp [bind, Except.bind]

theorem bind_eq_error {x : Except ε α} {f : α → Except ε β} {e : ε} :
    (x >>= f) = .error e ↔ x = .error e ∨ ∃ a, x = .ok a ∧ f a = .error e := by
  cases x <;> simp [bind, Except.bind]

@[simp] theorem pure_eq_ok {a b : α} : (pure a : Except ε α) = .ok b ↔ a = b := by
  simp [pure, Except.pure]

/-- A check that throws lets a result through only where it does not apply. -/
theorem check_eq_ok {p : Prop} [Decidable p] {e : ε} {f : PUnit → Except ε α}
    {x : Except ε α} {a : α} :
    (if p then throw e >>= f else x) = .ok a ↔ ¬ p ∧ x = .ok a := by
  by_cases h : p <;> simp [h, throw, throwThe, MonadExceptOf.throw, bind, Except.bind]

theorem mapError_eq_ok {x : Except ε α} {f : ε → ε'} {a : α} :
    x.mapError f = .ok a ↔ x = .ok a := by
  cases x <;> simp [Except.mapError]

theorem toOption_eq_some_iff {x : Except ε α} {a : α} : x.toOption = some a ↔ x = .ok a := by
  cases x <;> simp [Except.toOption]

theorem exists_ok_of_toOption_map {x : Except ε α} {f : α → β} {b : β}
    (h : x.toOption.map f = some b) : ∃ a, x = .ok a ∧ f a = b := by
  cases x with
  | error e => simp [Except.toOption] at h
  | ok a => exact ⟨a, rfl, by simpa [Except.toOption] using h⟩

theorem foldlM_append_eq_ok {f : β → α → Except ε β} {xs ys : List α} {start final : β} :
    (xs ++ ys).foldlM f start = .ok final ↔
      ∃ middle, xs.foldlM f start = .ok middle ∧ ys.foldlM f middle = .ok final := by
  rw [List.foldlM_append, bind_eq_ok]

/-- A projection that each item keeps is kept by the whole list. -/
theorem map_eq_of_mapM_eq_ok {f : α → Except ε β} {p : α → γ} {q : β → γ}
    (hkeep : ∀ a b, f a = .ok b → q b = p a) {xs : List α} {ys : List β}
    (h : xs.mapM f = .ok ys) : ys.map q = xs.map p := by
  induction xs generalizing ys with
  | nil =>
      rw [List.mapM_nil, pure_eq_ok] at h
      simp [← h]
  | cons x rest ih =>
      simp only [List.mapM_cons, bind_eq_ok, pure_eq_ok] at h
      obtain ⟨y, hy, tail, htail, rfl⟩ := h
      simp [hkeep x y hy, ih htail]

theorem mem_of_mapM_eq_ok {f : α → Except ε β} {xs : List α} {ys : List β}
    (h : xs.mapM f = .ok ys) {y : β} : y ∈ ys ↔ ∃ x ∈ xs, f x = .ok y := by
  induction xs generalizing ys with
  | nil =>
      rw [List.mapM_nil, pure_eq_ok] at h
      simp [← h]
  | cons x rest ih =>
      simp only [List.mapM_cons, bind_eq_ok, pure_eq_ok] at h
      obtain ⟨z, hz, tail, htail, rfl⟩ := h
      simp [hz, ih htail, eq_comm]

theorem exists_ok_of_mapM_eq_ok {f : α → Except ε β} {xs : List α} {ys : List β}
    (h : xs.mapM f = .ok ys) {x : α} (hx : x ∈ xs) : ∃ y, f x = .ok y := by
  induction xs generalizing ys with
  | nil => simp at hx
  | cons z rest ih =>
      simp only [List.mapM_cons, bind_eq_ok, pure_eq_ok] at h
      obtain ⟨y, hy, tail, htail, -⟩ := h
      rcases List.mem_cons.mp hx with rfl | hx
      · exact ⟨y, hy⟩
      · exact ih htail hx

theorem forall₂_of_mapM_eq_ok {f : α → Except ε β} {xs : List α} {ys : List β}
    (h : xs.mapM f = .ok ys) : List.Forall₂ (fun x y => f x = .ok y) xs ys := by
  induction xs generalizing ys with
  | nil =>
      rw [List.mapM_nil, pure_eq_ok] at h
      exact h ▸ .nil
  | cons x rest ih =>
      simp only [List.mapM_cons, bind_eq_ok, pure_eq_ok] at h
      obtain ⟨y, hy, tail, htail, rfl⟩ := h
      exact .cons hy (ih htail)

theorem getElem?_of_forall₂ {R : α → β → Prop} {xs : List α} {ys : List β}
    (h : List.Forall₂ R xs ys) (i : Nat) :
    (xs[i]? = none ∧ ys[i]? = none) ∨ ∃ x y, xs[i]? = some x ∧ ys[i]? = some y ∧ R x y := by
  induction h generalizing i with
  | nil => exact .inl ⟨rfl, rfl⟩
  | @cons x y _ _ hhead _ ih =>
      cases i with
      | zero => exact .inr ⟨x, y, rfl, rfl, hhead⟩
      | succ i => exact ih i

theorem rel_of_getElem? {R : α → β → Prop} {xs : List α} {ys : List β}
    (h : List.Forall₂ R xs ys) {i : Nat} {x : α} {y : β} (hx : xs[i]? = some x)
    (hy : ys[i]? = some y) : R x y := by
  rcases getElem?_of_forall₂ h i with ⟨hnone, -⟩ | ⟨x', y', hx', hy', hrelated⟩
  · simp [hnone] at hx
  · obtain rfl : x' = x := Option.some.inj (hx'.symm.trans hx)
    obtain rfl : y' = y := Option.some.inj (hy'.symm.trans hy)
    exact hrelated

theorem mapM_congr {f g : α → Except ε β} {xs : List α} (hsame : ∀ x ∈ xs, f x = g x) :
    xs.mapM f = xs.mapM g := by
  induction xs with
  | nil => rfl
  | cons x rest ih =>
      rw [List.mapM_cons, List.mapM_cons, hsame x (by simp), ih fun y hy => hsame y (by simp [hy])]

theorem mapM_map_eq_pure [Monad m] [LawfulMonad m] {w : α → β} {f : β → m γ} {g : α → γ}
    {xs : List α} (h : ∀ x ∈ xs, f (w x) = pure (g x)) :
    (xs.map w).mapM f = pure (xs.map g) := by
  induction xs with
  | nil => simp
  | cons x rest ih => simp [h x (by simp), ih fun y hy => h y (by simp [hy])]

theorem nodup_eraseDups [BEq α] [LawfulBEq α] (xs : List α) : xs.eraseDups.Nodup := by
  induction hlength : xs.length using Nat.strongRecOn generalizing xs with
  | ind n ih =>
      cases xs with
      | nil => exact .nil
      | cons x rest =>
          have hshorter : (rest.filter fun y => !y == x).length < n := by
            have := List.length_filter_le (fun y => !y == x) rest
            rw [List.length_cons] at hlength
            omega
          rw [List.eraseDups_cons]
          exact List.nodup_cons.mpr ⟨by simp, ih _ hshorter _ rfl⟩

/-- With distinct keys, a key stands at one position only. -/
theorem index_eq_of_nodup_map {f : α → β} {xs : List α} {i k : Nat} {x y : α}
    (hnodup : (xs.map f).Nodup) (hx : xs[i]? = some x) (hy : xs[k]? = some y)
    (hsame : f x = f y) : i = k := by
  have hi := (List.getElem?_eq_some_iff.mp hx).1
  have hmap : (xs.map f)[i]? = (xs.map f)[k]? := by
    rw [List.getElem?_map, List.getElem?_map, hx, hy, Option.map_some, Option.map_some, hsame]
  exact (List.getElem?_inj (by simpa using hi) hnodup).mp hmap

/-- With distinct keys, what a replacement leaves in place has another key. -/
theorem mem_set_of_nodup_map {f : α → β} {xs : List α} {i : Nat} {x y z : α}
    (hnodup : (xs.map f).Nodup) (hx : xs[i]? = some x) (hmem : z ∈ xs.set i y) :
    z = y ∨ z ∈ xs ∧ f z ≠ f x := by
  obtain ⟨k, hk⟩ := List.getElem?_of_mem hmem
  by_cases hki : i = k
  · subst hki
    have hi := (List.getElem?_eq_some_iff.mp hx).1
    rw [List.getElem?_set_self hi] at hk
    exact Or.inl (Option.some.inj hk).symm
  · rw [List.getElem?_set_ne hki] at hk
    refine Or.inr ⟨List.mem_of_getElem? hk, fun heq => hki ?_⟩
    exact index_eq_of_nodup_map hnodup hx hk heq.symm

end Rostering
