import Rostering.Proofs.Coherence
import Rostering.Proofs.Faults
import Rostering.Proofs.NumberOrder
import Rostering.Proofs.Reading

namespace Rostering

/-! The groups that may join a shift, in the order of their ranks for it. Unless men are balanced no
pick changes the rank of another group, and a group that did not fit never will, so what is left of
the queue behind a pick is the queue after it. -/

namespace Rota

variable {rota : Rota} {criteria : List Criterion} {policy : Policy} {g h : Group} {s : Shift}
  {i j : Nat} {r : Rank}

theorem rankOf_join (hbalance : ∀ c ∈ policy.criteria, c.kind ≠ .maleBalance) :
    (rota.join i g j s).rankOf policy h (s.seat g) = rota.rankOf policy h s := by
  have hbonus : (rota.join i g j s).bonus policy.criteria h (s.seat g) =
      rota.bonus policy.criteria h s := by
    apply bonus_eq_of_readsSame
    intro c hc
    constructor
    case men_eq => exact fun hmen => absurd hmen (hbalance c hc)
    case count_eq => exact List.length_set
    case need_eq => exact fun _ => ⟨rfl, rfl⟩
    all_goals rfl
  have howed : (rota.join i g j s).desiredRemaining h = rota.desiredRemaining h := by
    simp only [desiredRemaining, join, List.length_set]
  rw [rankOf, rankOf, hbonus, howed]

/-- A group without a lead that still fits may join as it might before. -/
theorem mayJoin_join (hbefore : rota.mayJoin criteria h s = true) (hkey : h.key ≠ g.key)
    (hlead : h.hasTeamLead = false) (hfits : (s.seat g).canFit h.size = true) :
    (rota.join i g j s).mayJoin criteria h (s.seat g) = true := by
  obtain ⟨hjoins, hallowed⟩ := mayJoin_iff.mp hbefore
  refine mayJoin_iff.mpr ⟨⟨⟨?_, Shift.canFit_iff.mp hfits, fun hled => ?_⟩, hjoins.capacity,
    hjoins.available, hjoins.notHolding⟩, fun c hc => ?_⟩
  · simp [hjoins.notOn, hkey]
  · simp [hlead] at hled
  · rw [allows_join]
    exact hallowed c hc

theorem not_full_of_canFit (hfits : s.canFit g.size = true) (hsome : g.members ≠ []) :
    s.isFull = false := by
  have hpeople : 0 < g.size := List.length_pos_iff.mpr hsome
  have := Shift.canFit_iff.mp hfits
  simp only [Shift.isFull, decide_eq_false_iff_not]
  omega

theorem exists_ranksAt {positions : List Nat}
    (hranks : ∀ i ∈ positions, ∀ g, rota.groups[i]? = some g →
      ∃ r, rota.rankOf policy g s = .ok r) :
    ∃ ranks, rota.ranksAt policy s positions = .ok ranks := by
  apply FaultsOnly.exists_ok
  apply FaultsOnly.mapM
  intro candidate hmem
  obtain ⟨i, hi, hcandidate⟩ := List.mem_filterMap.mp hmem
  obtain ⟨g, hgroup, rfl⟩ := Option.map_eq_some_iff.mp hcandidate
  obtain ⟨r, hr⟩ := hranks i hi g hgroup
  simp only [hr]
  exact FaultsOnly.ok _

/-- Groups in the order of their ranks for a shift. Those of them that fit may join it, and nobody
else may. -/
structure Queue (policy : Policy) (s : Shift) (queue : List (Rank × Nat)) (rota : Rota) :
    Prop where
  keys_nodup : (rota.groups.map Group.key).Nodup
  standing : ∀ r i, (r, i) ∈ queue → ∃ g, rota.groups[i]? = some g ∧
    rota.rankOf policy g s = .ok r ∧ g.hasTeamLead = false ∧ g.members ≠ []
  numbers : ∀ x ∈ queue, x.1.malus ≠ .real .nan
  rising : queue.Pairwise fun x y => x.1.order < y.1.order
  mayJoin_iff : ∀ i g, rota.groups[i]? = some g →
    (rota.mayJoin policy.criteria g s = true ↔
      i ∈ queue.map (·.2) ∧ s.canFit g.size = true)

namespace Queue

variable {rest : List (Rank × Nat)}

theorem skip (hqueue : Queue policy s ((r, i) :: rest) rota) (hgroup : rota.groups[i]? = some g)
    (htight : s.canFit g.size = false) : Queue policy s rest rota where
  keys_nodup := hqueue.keys_nodup
  standing q k hmem := hqueue.standing q k (List.mem_cons_of_mem _ hmem)
  numbers x hmem := hqueue.numbers x (List.mem_cons_of_mem _ hmem)
  rising := (List.pairwise_cons.mp hqueue.rising).2
  mayJoin_iff k h hat := by
    rw [hqueue.mayJoin_iff k h hat, List.map_cons, List.mem_cons]
    refine and_congr_left fun hfits => or_iff_right fun heq => ?_
    subst heq
    obtain rfl : g = h := Option.some.inj (hgroup.symm.trans hat)
    exact Bool.false_ne_true (htight.symm.trans hfits)

/-- The first of a queue is not in it again, having the least rank. -/
theorem ne_first (hqueue : Queue policy s ((r, i) :: rest) rota)
    (hgroup : rota.groups[i]? = some g) {x : Rank × Nat} (hx : x ∈ rest) : x.2 ≠ i := by
  obtain ⟨q, k⟩ := x
  rintro rfl
  have hless := (List.pairwise_cons.mp hqueue.rising).1 _ hx
  obtain ⟨g₁, hat₁, hr, -⟩ := hqueue.standing r k List.mem_cons_self
  obtain ⟨g₂, hat₂, hq, -⟩ := hqueue.standing q k (List.mem_cons_of_mem _ hx)
  obtain rfl : g₁ = g₂ := Option.some.inj (hat₁.symm.trans hat₂)
  obtain rfl : r = q := Except.ok.inj (hr.symm.trans hq)
  exact absurd hless (lt_irrefl _)

theorem seat (hqueue : Queue policy s ((r, i) :: rest) rota)
    (hbalance : ∀ c ∈ policy.criteria, c.kind ≠ .maleBalance) (hgroup : rota.groups[i]? = some g) :
    Queue policy (s.seat g) rest (rota.join i g j s) where
  keys_nodup := by
    have hkeys : (rota.groups.set i (g.take s.index)).map Group.key = rota.groups.map Group.key :=
      set_map_self hgroup rfl
    rw [join, hkeys]
    exact hqueue.keys_nodup
  standing q k hmem := by
    obtain ⟨h, hat, hrank, hleadless, hsome⟩ := hqueue.standing q k (List.mem_cons_of_mem _ hmem)
    have hne : i ≠ k := (hqueue.ne_first hgroup hmem).symm
    refine ⟨h, ?_, (rankOf_join hbalance).trans hrank, hleadless, hsome⟩
    rw [join, List.getElem?_set_ne hne]
    exact hat
  numbers x hmem := hqueue.numbers x (List.mem_cons_of_mem _ hmem)
  rising := (List.pairwise_cons.mp hqueue.rising).2
  mayJoin_iff k h hat := by
    by_cases hik : i = k
    · -- The group that joined is on the shift now, and has no second place in the queue.
      subst hik
      have hlength := (List.getElem?_eq_some_iff.mp hgroup).1
      obtain rfl : g.take s.index = h := by simpa [join, hlength] using hat
      constructor
      · intro hmay
        exact absurd rfl (mayJoin_of_mayJoin_join hmay).1
      · intro hqueued
        obtain ⟨x, hx, hagain⟩ := List.mem_map.mp hqueued.1
        exact absurd hagain (hqueue.ne_first hgroup hx)
    · rw [join, List.getElem?_set_ne hik] at hat
      have hbefore := hqueue.mayJoin_iff k h hat
      constructor
      · intro hmay
        have hqueued := (hbefore.mp (mayJoin_of_mayJoin_join hmay).2).1
        rw [List.map_cons, List.mem_cons] at hqueued
        exact ⟨hqueued.resolve_left (Ne.symm hik),
          Shift.canFit_iff.mpr (Rota.mayJoin_iff.mp hmay).1.fits⟩
      · intro hqueued
        obtain ⟨hmem, hfits⟩ := hqueued
        obtain ⟨⟨q, _⟩, hx, rfl⟩ := List.mem_map.mp hmem
        obtain ⟨h', hat', -, hleadless, -⟩ := hqueue.standing q _ (List.mem_cons_of_mem _ hx)
        obtain rfl : h = h' := Option.some.inj (hat.symm.trans hat')
        have hroom : s.canFit h.size = true := by
          rw [Shift.canFit_iff] at hfits ⊢
          rw [Shift.currentSize_seat, Shift.seat_size] at hfits
          omega
        have hkey : h.key ≠ g.key := fun heq =>
          hik (index_eq_of_nodup_map hqueue.keys_nodup hgroup hat heq.symm)
        exact mayJoin_join (hbefore.mpr ⟨List.mem_cons_of_mem _ hmem, hroom⟩) hkey hleadless hfits

theorem exists_rank {queue : List (Rank × Nat)} (hqueue : Queue policy s queue rota)
    (hi : i ∈ rota.eligible policy.criteria s) (hgroup : rota.groups[i]? = some g) :
    ∃ r, (r, i) ∈ queue ∧ rota.rankOf policy g s = .ok r := by
  obtain ⟨g', hat, hjoin⟩ := mem_positionsWhere.mp hi
  obtain ⟨⟨r, _⟩, hmem, rfl⟩ := List.mem_map.mp ((hqueue.mayJoin_iff i g' hat).mp hjoin).1
  obtain ⟨h, hagain, hrank, -⟩ := hqueue.standing r _ hmem
  obtain rfl : g = h := Option.some.inj (hgroup.symm.trans hagain)
  exact ⟨r, hmem, hrank⟩

theorem exists_ranks {queue : List (Rank × Nat)} (hqueue : Queue policy s queue rota) :
    ∃ ranks, rota.ranksAt policy s (rota.eligible policy.criteria s) = .ok ranks ∧
      ∀ x ∈ ranks, x.1.malus ≠ .real .nan := by
  obtain ⟨ranks, hranks⟩ : ∃ ranks,
      rota.ranksAt policy s (rota.eligible policy.criteria s) = .ok ranks := by
    apply exists_ranksAt
    intro k hk h hat
    obtain ⟨q, -, hrank⟩ := hqueue.exists_rank hk hat
    exact ⟨q, hrank⟩
  refine ⟨ranks, hranks, fun x hx => ?_⟩
  obtain ⟨hk, h, hat, hx⟩ := (mem_ranksAt hranks).mp hx
  obtain ⟨q, hmem, hrank⟩ := hqueue.exists_rank hk hat
  obtain rfl : q = x.1 := Except.ok.inj (hrank.symm.trans hx)
  exact hqueue.numbers _ hmem

/-- Whoever is first in the queue and fits comes out first when those that fit are ranked. -/
theorem ranked_eq (hqueue : Queue policy s ((r, i) :: rest) rota)
    (hgroup : rota.groups[i]? = some g) (hfits : s.canFit g.size = true) :
    ∃ others, rota.ranked policy s (rota.eligible policy.criteria s) = .ok (i :: others) := by
  have hi : i ∈ rota.eligible policy.criteria s :=
    mem_positionsWhere.mpr ⟨g, hgroup, (hqueue.mayJoin_iff i g hgroup).mpr ⟨by simp, hfits⟩⟩
  obtain ⟨ranks, hranks, hnumbers⟩ := hqueue.exists_ranks
  obtain ⟨order, horder⟩ : ∃ order,
      rota.ranked policy s (rota.eligible policy.criteria s) = .ok order := by
    rw [ranked, hranks]
    exact ⟨_, rfl⟩
  have hperm := ranked_positionsWhere_perm horder
  cases order with
  | nil => exact absurd (hperm.mem_iff.mpr hi) List.not_mem_nil
  | cons k others =>
      have hk := hperm.mem_iff.mp List.mem_cons_self
      obtain ⟨h, hat, -⟩ := mem_positionsWhere.mp hk
      obtain ⟨first, other, hfirst, hother, hle⟩ := ranked_head_le horder
        (fun ranks' hranks' => Except.ok.inj (hranks.symm.trans hranks') ▸
          Rank.agrees_order hnumbers) hat hi hgroup
      obtain ⟨q, hmem, hq⟩ := hqueue.exists_rank hk hat
      obtain rfl : q = first := Except.ok.inj (hq.symm.trans hfirst)
      obtain ⟨g', hat', hr, -⟩ := hqueue.standing r i List.mem_cons_self
      obtain rfl : g = g' := Option.some.inj (hgroup.symm.trans hat')
      obtain rfl : r = other := Except.ok.inj (hr.symm.trans hother)
      rcases List.mem_cons.mp hmem with heq | hlater
      · obtain ⟨-, rfl⟩ := Prod.mk.inj heq
        exact ⟨others, horder⟩
      · have hless := (List.pairwise_cons.mp hqueue.rising).1 _ hlater
        exact absurd hless (not_lt_of_ge hle)

theorem eligible_nil (hqueue : Queue policy s [] rota) : rota.eligible policy.criteria s = [] := by
  refine List.eq_nil_iff_forall_not_mem.mpr fun i hi => ?_
  obtain ⟨g, hgroup, hjoin⟩ := mem_positionsWhere.mp hi
  exact absurd ((hqueue.mayJoin_iff i g hgroup).mp hjoin).1 List.not_mem_nil

end Queue

/-- The groups that may join when the filling starts make a queue once they are ranked. -/
theorem queue_of_ranksAt {ranks : List (Rank × Nat)} (hkeys : (rota.groups.map Group.key).Nodup)
    (hsome : ∀ g ∈ rota.groups, g.members ≠ [])
    (hleadless : ∀ g ∈ rota.groups, rota.mayJoin policy.criteria g s = true → g.hasTeamLead = false)
    (hnumbers : ∀ g ∈ rota.groups, rota.mayJoin policy.criteria g s = true →
      rota.bonus policy.criteria g s ≠ .ok (.real .nan))
    (hranks : rota.ranksAt policy s (rota.eligible policy.criteria s) = .ok ranks) :
    Queue policy s (Ranking.rank (fun a b => a.1.below b.1) ranks) rota := by
  have hperm := Ranking.rank_perm (fun a b : Rank × Nat => a.1.below b.1) ranks
  have hpositions := ranksAt_positions (fun _ => lt_of_mem_positionsWhere) hranks
  have hmem : ∀ {q k}, (q, k) ∈ ranks ↔
      ∃ g, rota.groups[k]? = some g ∧ rota.mayJoin policy.criteria g s = true ∧
        rota.rankOf policy g s = .ok q := by
    intro q k
    rw [mem_ranksAt hranks, eligible, mem_positionsWhere]
    constructor
    · intro hfound
      obtain ⟨⟨g, hgroup, hjoin⟩, g', hat, hrank⟩ := hfound
      obtain rfl : g = g' := Option.some.inj (hgroup.symm.trans hat)
      exact ⟨g, hgroup, hjoin, hrank⟩
    · intro hfound
      obtain ⟨g, hgroup, hjoin, hrank⟩ := hfound
      exact ⟨⟨g, hgroup, hjoin⟩, g, hgroup, hrank⟩
  have hvalued : ∀ x ∈ ranks, x.1.malus ≠ .real .nan := by
    intro x hx
    obtain ⟨g, hgroup, hjoin, hrank⟩ := hmem.mp hx
    obtain ⟨bonus, due, hbonus, -, hx⟩ := rankOf_eq_ok_iff.mp hrank
    rw [hx, Ne, Number.neg_eq_nan_iff]
    rintro rfl
    exact hnumbers g (List.mem_of_getElem? hgroup) hjoin hbonus
  constructor
  case keys_nodup => exact hkeys
  case standing =>
    intro q k hx
    obtain ⟨g, hgroup, hjoin, hrank⟩ := hmem.mp (hperm.mem_iff.mp hx)
    have hg := List.mem_of_getElem? hgroup
    exact ⟨g, hgroup, hrank, hleadless g hg hjoin, hsome g hg⟩
  case numbers => exact fun x hx => hvalued x (hperm.mem_iff.mp hx)
  case rising =>
    have hdistinct : (Ranking.rank (fun a b : Rank × Nat => a.1.below b.1) ranks).Pairwise
        fun x y => x.2 ≠ y.2 := by
      rw [← List.pairwise_map (R := (· ≠ ·)), ← List.Nodup, (hperm.map _).nodup_iff, hpositions]
      exact nodup_positionsWhere _
    have hsorted := (Rank.agrees_order hvalued).rank
    refine (hsorted.and hdistinct).imp_of_mem fun {x y} hx hy hxy => ?_
    refine lt_of_le_of_ne hxy.1 fun heq => hxy.2 ?_
    obtain ⟨g, hgroup, -, hrank⟩ := hmem.mp (hperm.mem_iff.mp hx)
    obtain ⟨h, hat, -, hrank'⟩ := hmem.mp (hperm.mem_iff.mp hy)
    obtain ⟨_, _, -, -, hx⟩ := rankOf_eq_ok_iff.mp hrank
    obtain ⟨_, _, -, -, hy⟩ := rankOf_eq_ok_iff.mp hrank'
    have hkey := Rank.key_eq_of_order_eq heq
    rw [hx, hy] at hkey
    exact index_eq_of_nodup_map hkeys hgroup hat hkey
  case mayJoin_iff =>
    intro k g hgroup
    rw [(hperm.map _).mem_iff, hpositions, mem_positionsWhere]
    constructor
    · intro hjoin
      exact ⟨⟨g, hgroup, hjoin⟩, Shift.canFit_iff.mpr (Rota.mayJoin_iff.mp hjoin).1.fits⟩
    · intro hfound
      obtain ⟨⟨g', hat, hjoin⟩, -⟩ := hfound
      obtain rfl : g = g' := Option.some.inj (hgroup.symm.trans hat)
      exact hjoin

end Rota

end Rostering
