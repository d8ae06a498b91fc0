import Rostering.Proofs.Filling
import Mathlib.Data.Prod.Lex
import Mathlib.Data.String.Basic

namespace Rostering

/-! What ranking does to the order of a list. If a comparison agrees with a key then the outcome
rises in that key, and what no comparison notices has no part in the outcome. -/

namespace Ranking

/-- The verdicts of a comparison on the items of a list do not go against a key. -/
structure Agrees [LE κ] (below : α → α → Bool) (key : α → κ) (items : List α) : Prop where
  below_le : ∀ x ∈ items, ∀ y ∈ items, below x y = true → key x ≤ key y
  not_below_le : ∀ x ∈ items, ∀ y ∈ items, below x y = false → key y ≤ key x

section

variable [Preorder κ] {below : α → α → Bool} {key : α → κ}

theorem Agrees.subset {items more : List α} (hagrees : Agrees below key more)
    (hsubset : items ⊆ more) : Agrees below key items where
  below_le x hx y hy := hagrees.below_le x (hsubset hx) y (hsubset hy)
  not_below_le x hx y hy := hagrees.not_below_le x (hsubset hx) y (hsubset hy)

theorem Agrees.place {x : α} {items : List α} (hagrees : Agrees below key (x :: items))
    (hsorted : items.Pairwise fun a b => key a ≤ key b) (lo hi : Nat) (hlength : hi ≤ items.length)
    (hlow : ∀ k y, k < lo → items[k]? = some y → key y ≤ key x)
    (hhigh : ∀ k y, hi ≤ k → items[k]? = some y → key x ≤ key y) :
    (∀ k y, k < Ranking.place below x items lo hi → items[k]? = some y → key y ≤ key x) ∧
      ∀ k y, Ranking.place below x items lo hi ≤ k → items[k]? = some y → key x ≤ key y := by
  have hrising : ∀ {k m : Nat} {y z : α}, k < m → items[k]? = some y → items[m]? = some z →
      key y ≤ key z := by
    intro k m y z hlt hy hz
    obtain ⟨hk, rfl⟩ := List.getElem?_eq_some_iff.mp hy
    obtain ⟨hm, rfl⟩ := List.getElem?_eq_some_iff.mp hz
    exact List.pairwise_iff_getElem.mp hsorted k m hk hm hlt
  fun_induction Ranking.place below x items lo hi with
  | case1 lo hi hlt middle y hmiddle hbelow ih =>
      have hy := List.mem_of_getElem? hmiddle
      have hle : key x ≤ key y := hagrees.below_le x (by simp) y (by simp [hy]) hbelow
      apply ih (by omega) hlow
      intro k z hk hz
      rcases Nat.lt_or_eq_of_le hk with hk | rfl
      · exact le_trans hle (hrising hk hmiddle hz)
      · obtain rfl : y = z := Option.some.inj (hmiddle.symm.trans hz)
        exact hle
  | case2 lo hi hlt middle y hmiddle hbelow ih =>
      have hy := List.mem_of_getElem? hmiddle
      have hle : key y ≤ key x :=
        hagrees.not_below_le x (by simp) y (by simp [hy]) (by simpa using hbelow)
      apply ih hlength _ hhigh
      intro k z hk hz
      rcases Nat.lt_or_eq_of_le (Nat.le_of_lt_succ hk) with hk | rfl
      · exact le_trans (hrising hk hz hmiddle) hle
      · obtain rfl : y = z := Option.some.inj (hmiddle.symm.trans hz)
        exact hle
  | case3 lo hi hlt middle hmiddle =>
      have := List.getElem?_eq_none_iff.mp hmiddle
      omega
  | case4 lo hi hge =>
      exact ⟨hlow, fun k y hk => hhigh k y (by omega)⟩

theorem Agrees.insert {x : α} {items : List α} (hagrees : Agrees below key (x :: items))
    (hsorted : items.Pairwise fun a b => key a ≤ key b) :
    (Ranking.insert below items x).Pairwise fun a b => key a ≤ key b := by
  obtain ⟨hlow, hhigh⟩ := hagrees.place hsorted 0 items.length (Nat.le_refl _)
    (fun k _ hk => absurd hk (Nat.not_lt_zero k))
    (fun k y hk hy => absurd (List.getElem?_eq_some_iff.mp hy).1 (Nat.not_lt.mpr hk))
  have hsplit := hsorted
  rw [← List.take_append_drop (Ranking.place below x items 0 items.length) items,
    List.pairwise_append] at hsplit
  obtain ⟨hbefore, hafter, hcross⟩ := hsplit
  have hleft : ∀ y ∈ items.take (Ranking.place below x items 0 items.length), key y ≤ key x := by
    intro y hy
    obtain ⟨k, hk, rfl⟩ := List.mem_take_iff_getElem.mp hy
    exact hlow k _ (by omega) (List.getElem?_eq_getElem _)
  have hright : ∀ y ∈ items.drop (Ranking.place below x items 0 items.length), key x ≤ key y := by
    intro y hy
    obtain ⟨k, hk, rfl⟩ := List.mem_drop_iff_getElem.mp hy
    exact hhigh _ _ (Nat.le_add_right _ _) (List.getElem?_eq_getElem _)
  refine List.pairwise_append.mpr ⟨hbefore, List.pairwise_cons.mpr ⟨hright, hafter⟩, ?_⟩
  intro y hy z hz
  rcases List.mem_cons.mp hz with rfl | hz
  · exact hleft y hy
  · exact hcross y hy z hz

/-- A run carries on by a transitive relation, so all of it is in order. -/
theorem splitRun_pairwise {follows : α → α → Bool} {R : α → α → Prop}
    (htrans : ∀ a b c, R a b → R b c → R a c) {x : α} {items : List α}
    (hfollows : ∀ a ∈ x :: items, ∀ b ∈ x :: items, follows a b = true → R a b) :
    (x :: (splitRun follows x items).1).Pairwise R := by
  induction items generalizing x with
  | nil => simp [splitRun]
  | cons y rest ih =>
      by_cases hnext : follows x y = true
      · have hrun := ih (x := y) fun a ha b hb =>
          hfollows a (List.mem_cons_of_mem x ha) b (List.mem_cons_of_mem x hb)
        have hxy : R x y := hfollows x (by simp) y (by simp) hnext
        simp only [splitRun, hnext, if_true]
        refine List.pairwise_cons.mpr ⟨fun z hz => ?_, hrun⟩
        rcases List.mem_cons.mp hz with rfl | hz
        · exact hxy
        · exact htrans x y z hxy ((List.pairwise_cons.mp hrun).1 z hz)
      · simp [splitRun, hnext]

theorem Agrees.startRun {items : List α} (hagrees : Agrees below key items) :
    (Ranking.startRun below items).1.Pairwise fun a b => key a ≤ key b := by
  match items with
  | [] => exact .nil
  | [x] => exact List.pairwise_singleton _ x
  | x :: y :: rest =>
      by_cases hfalling : below y x = true
      · simp only [Ranking.startRun, hfalling, if_true, List.pairwise_reverse]
        apply splitRun_pairwise
        · exact fun a b c hab hbc => le_trans hbc hab
        · exact fun a ha b hb => hagrees.below_le b hb a ha
      · simp only [Ranking.startRun, hfalling]
        rw [if_neg (by simp)]
        apply splitRun_pairwise
        · exact fun a b c => le_trans
        · intro a ha b hb hnot
          exact hagrees.not_below_le b hb a ha (by simpa using hnot)

/-- Ranking by a comparison that agrees with a key puts the items in the order of the key. -/
theorem Agrees.rank {items : List α} (hagrees : Agrees below key items) :
    (Ranking.rank below items).Pairwise fun a b => key a ≤ key b := by
  have hall : ∀ (tail run : List α), run.Pairwise (fun a b => key a ≤ key b) →
      Agrees below key (run ++ tail) →
      (tail.foldl (Ranking.insert below) run).Pairwise fun a b => key a ≤ key b := by
    intro tail
    induction tail with
    | nil => exact fun run hsorted _ => hsorted
    | cons x rest ih =>
        intro run hsorted hagrees
        have hmore : Agrees below key (x :: run) := hagrees.subset fun y hy => by
          rcases List.mem_cons.mp hy with rfl | hy <;> simp [*]
        apply ih _ (hmore.insert hsorted)
        apply hagrees.subset
        intro y hy
        rcases List.mem_append.mp hy with hy | hy
        · rcases List.mem_cons.mp ((insert_perm below run x).mem_iff.mp hy) with rfl | hy <;>
            simp [*]
        · simp [hy]
  have hperm := startRun_perm below items
  exact hall _ _ hagrees.startRun (hagrees.subset fun y hy => hperm.mem_iff.mp hy)

end

theorem splitRun_map {f : α → β} (follows : α → α → Bool) (carries : β → β → Bool)
    (hcarries : ∀ x y, carries (f x) (f y) = follows x y) (x : α) (items : List α) :
    splitRun carries (f x) (items.map f) =
      ((splitRun follows x items).1.map f, (splitRun follows x items).2.map f) := by
  induction items generalizing x with
  | nil => rfl
  | cons y rest ih =>
      by_cases hnext : follows x y = true
      · simp [splitRun, hcarries, hnext, ih y]
      · simp [splitRun, hcarries, hnext]

section

variable {below : α → α → Bool} {beyond : β → β → Bool} {f : α → β}
  (hsame : ∀ x y, beyond (f x) (f y) = below x y)
include hsame

theorem place_map (x : α) (items : List α) (lo hi : Nat) :
    place beyond (f x) (items.map f) lo hi = place below x items lo hi := by
  fun_induction place below x items lo hi with
  | case1 lo hi hlt middle y hmiddle hbelow ih =>
      rw [place, if_pos hlt]
      simpa [middle, hmiddle, hsame, hbelow] using ih
  | case2 lo hi hlt middle y hmiddle hbelow ih =>
      rw [place, if_pos hlt]
      simpa [middle, hmiddle, hsame, hbelow] using ih
  | case3 lo hi hlt middle hmiddle =>
      rw [place, if_pos hlt]
      simp [middle, hmiddle]
  | case4 lo hi hge => rw [place, if_neg hge]

theorem insert_map (items : List α) (x : α) :
    insert beyond (items.map f) (f x) = (insert below items x).map f := by
  simp only [insert, List.length_map, place_map hsame, List.map_append, List.map_cons,
    List.map_take, List.map_drop]

theorem startRun_map (items : List α) :
    startRun beyond (items.map f) =
      ((startRun below items).1.map f, (startRun below items).2.map f) := by
  match items with
  | [] => rfl
  | [x] => rfl
  | x :: y :: rest =>
      have hdown := splitRun_map (fun a b => below b a) (fun a b => beyond b a)
        (fun a b => hsame b a) x (y :: rest)
      have hup := splitRun_map (fun a b => !below b a) (fun a b => !beyond b a)
        (fun a b => by rw [hsame]) x (y :: rest)
      rw [List.map_cons] at hdown hup
      by_cases hfalling : below y x = true
      · simp [startRun, hsame, hfalling, hdown]
      · simp [startRun, hsame, hfalling, hup]

/-- Ranking commutes with a change of the items that keeps every comparison. -/
theorem rank_map (items : List α) : rank beyond (items.map f) = (rank below items).map f := by
  have hfold : ∀ (tail run : List α),
      (tail.map f).foldl (insert beyond) (run.map f) =
        (tail.foldl (insert below) run).map f := by
    intro tail
    induction tail with
    | nil => exact fun run => rfl
    | cons x rest ih =>
        intro run
        rw [List.map_cons, List.foldl_cons, List.foldl_cons, insert_map hsame, ih]
  simp only [rank, startRun_map hsame, hfold]

end

end Ranking

namespace Rank

variable {a b : Rank}

theorem below_overserved_le (hbelow : a.below b = true) : a.overserved ≤ b.overserved := by
  rw [below] at hbelow
  split at hbelow
  · simp only [decide_eq_true_eq] at hbelow
    omega
  · omega

theorem not_below_overserved_le (hbelow : a.below b = false) : b.overserved ≤ a.overserved := by
  rw [below] at hbelow
  split at hbelow
  · simp only [decide_eq_false_iff_not] at hbelow
    omega
  · omega

/-- What a rank says besides the bonus. -/
def standing (r : Rank) : Int ×ₗ Int ×ₗ Int ×ₗ String :=
  toLex (r.overserved, toLex (r.total, toLex (r.preference, r.key)))

/-- Where the bonuses do not differ, the rest of the ranks decides. -/
theorem below_iff_standing_lt (hequal : a.malus.equal b.malus = true) :
    a.below b = true ↔ a.standing < b.standing := by
  simp only [below, standing, Prod.Lex.toLex_lt_toLex, hequal]
  grind

def raise (r : Rank) (c : Int) : Rank := { r with overserved := r.overserved + c }

theorem below_raise (c : Int) : (a.raise c).below (b.raise c) = a.below b := by
  by_cases hsame : a.overserved = b.overserved
  · simp [below, raise, hsame]
  · simp [below, raise, hsame]

/-- One raise for all ranks leaves their order as it is, wherever the ranked stand. -/
theorem rank_raise (c : Int) (σ : Nat → Nat) (ranks : List (Rank × Nat)) :
    (Ranking.rank (fun x y => x.1.below y.1) (ranks.map fun x => (x.1.raise c, σ x.2))).map (·.2) =
      ((Ranking.rank (fun x y => x.1.below y.1) ranks).map (·.2)).map σ := by
  let lift (x : Rank × Nat) : Rank × Nat := (x.1.raise c, σ x.2)
  have horder : Ranking.rank (fun x y => x.1.below y.1) (ranks.map lift) =
      (Ranking.rank (fun x y => x.1.below y.1) ranks).map lift := by
    apply Ranking.rank_map
    exact fun x y => below_raise c
  rw [horder, List.map_map, List.map_map]
  rfl

end Rank

namespace Rota

variable {rota : Rota} {policy : Policy} {s : Shift} {g : Group}

theorem rankOf_eq_ok_iff {r : Rank} :
    rota.rankOf policy g s = .ok r ↔
      ∃ bonus due, rota.bonus policy.criteria g s = .ok bonus ∧
        targetAllocations rota.history.length rota.shifts.length rota.target = .ok due ∧
        r = ⟨g.totalCount - due, bonus.neg, g.totalCount, policy.tieBreak.preference g.size,
          g.key⟩ := by
  simp only [rankOf, desiredRemaining, Rostering.desiredRemaining, bind_eq_ok, pure_eq_ok]
  constructor
  · intro hrank
    obtain ⟨bonus, hbonus, owed, ⟨due, hdue, rfl⟩, rfl⟩ := hrank
    exact ⟨bonus, due, hbonus, hdue, by rw [Int.neg_sub]⟩
  · intro hrank
    obtain ⟨bonus, due, hbonus, hdue, rfl⟩ := hrank
    exact ⟨bonus, hbonus, _, ⟨due, hdue, rfl⟩, by rw [Int.neg_sub]⟩

theorem mem_ranksAt {positions : List Nat} {ranks : List (Rank × Nat)}
    (h : rota.ranksAt policy s positions = .ok ranks) {r : Rank} {i : Nat} :
    (r, i) ∈ ranks ↔ i ∈ positions ∧ ∃ g, rota.groups[i]? = some g ∧
      rota.rankOf policy g s = .ok r := by
  rw [mem_of_mapM_eq_ok h]
  simp only [List.mem_filterMap, bind_eq_ok, pure_eq_ok, Prod.exists, Prod.mk.injEq,
    Option.map_eq_some_iff]
  constructor
  · intro hfound
    obtain ⟨g, _, ⟨k, hk, _, hgroup, rfl, rfl⟩, r, hrank, rfl, rfl⟩ := hfound
    exact ⟨hk, _, hgroup, hrank⟩
  · intro hfound
    obtain ⟨hi, g, hgroup, hrank⟩ := hfound
    exact ⟨g, i, ⟨i, hi, g, hgroup, rfl, rfl⟩, r, hrank, rfl, rfl⟩

theorem exists_rank_of_mem {positions : List Nat} {ranks : List (Rank × Nat)}
    (h : rota.ranksAt policy s positions = .ok ranks) {i : Nat} (hi : i ∈ positions)
    (hgroup : rota.groups[i]? = some g) : ∃ r, rota.rankOf policy g s = .ok r := by
  have hcandidate : (g, i) ∈
      positions.filterMap fun i => (rota.groups[i]?).map fun g => (g, i) :=
    List.mem_filterMap.mpr ⟨i, hi, by rw [hgroup]; rfl⟩
  obtain ⟨ranked, hranked⟩ := exists_ok_of_mapM_eq_ok h hcandidate
  obtain ⟨r, hrank, -⟩ := bind_eq_ok.mp hranked
  exact ⟨r, hrank⟩

/-- The group that comes out first has the least key of all that were ranked. -/
theorem ranked_head_le [Preorder κ] {key : Rank → κ} {positions rest : List Nat} {i k : Nat}
    {h : Group} (hranked : rota.ranked policy s positions = .ok (i :: rest))
    (hagrees : ∀ ranks, rota.ranksAt policy s positions = .ok ranks →
      Ranking.Agrees (fun a b => a.1.below b.1) (fun a => key a.1) ranks)
    (hgroup : rota.groups[i]? = some g) (hk : k ∈ positions) (hother : rota.groups[k]? = some h) :
    ∃ first other, rota.rankOf policy g s = .ok first ∧ rota.rankOf policy h s = .ok other ∧
      key first ≤ key other := by
  simp only [ranked, bind_eq_ok, pure_eq_ok] at hranked
  obtain ⟨ranks, hranks, horder⟩ := hranked
  have hsorted := (hagrees ranks hranks).rank
  have hmem : ∀ a, a ∈ Ranking.rank (fun a b => a.1.below b.1) ranks ↔ a ∈ ranks :=
    fun a => (Ranking.rank_perm _ ranks).mem_iff
  obtain ⟨⟨first, _⟩, tail, hrank, rfl, -⟩ := List.map_eq_cons_iff.mp horder
  rw [hrank] at hsorted hmem
  obtain ⟨-, g', hgroup', hfirst⟩ := (mem_ranksAt hranks).mp ((hmem _).mp List.mem_cons_self)
  obtain rfl : g = g' := Option.some.inj (hgroup.symm.trans hgroup')
  obtain ⟨other, hrest⟩ := exists_rank_of_mem hranks hk hother
  refine ⟨first, other, hfirst, hrest, ?_⟩
  rcases List.mem_cons.mp ((hmem _).mpr ((mem_ranksAt hranks).mpr ⟨hk, h, hother, hrest⟩)) with
    heq | htail
  · obtain ⟨rfl, -⟩ := Prod.mk.inj heq
    exact le_refl _
  · exact (List.pairwise_cons.mp hsorted).1 _ htail

end Rota

end Rostering
