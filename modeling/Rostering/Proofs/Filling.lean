import Rostering.Proofs.Picks
import Mathlib.Data.List.Perm.Subperm

namespace Rostering

/-! Filling shifts is a series of picks, and it stops at a shift only once the shift is full or no
group may join it any more. -/

namespace Rota

/-- A shift is full, or no group may join it. -/
def Settled (criteria : List Criterion) (j : Nat) (rota : Rota) : Prop :=
  ∀ s, rota.shifts[j]? = some s → s.isFull = false →
    ∀ g ∈ rota.groups, rota.mayJoin criteria g s = false

variable {criteria : List Criterion} {policy : Policy} {rota after : Rota}

theorem mem_positionsWhere {test : Group → Bool} {i : Nat} :
    i ∈ rota.positionsWhere test ↔ ∃ g, rota.groups[i]? = some g ∧ test g = true := by
  simp only [positionsWhere, List.mem_filter, List.mem_range, Option.any_eq_true]
  constructor
  · exact fun h => h.2
  · intro hfound
    obtain ⟨g, hgroup, htest⟩ := hfound
    exact ⟨(List.getElem?_eq_some_iff.mp hgroup).1, g, hgroup, htest⟩

theorem nodup_positionsWhere (test : Group → Bool) : (rota.positionsWhere test).Nodup :=
  List.nodup_range.filter _

theorem positionsWhere_length_le (test : Group → Bool) :
    (rota.positionsWhere test).length ≤ rota.groups.length :=
  Nat.le_trans (List.length_filter_le _ _) (Nat.le_of_eq List.length_range)

theorem settled_iff_eligible_eq_nil {j : Nat} {s : Shift} (hshift : rota.shifts[j]? = some s)
    (hroom : s.isFull = false) :
    Settled criteria j rota ↔ rota.eligible criteria s = [] := by
  constructor
  · intro hsettled
    refine List.eq_nil_iff_forall_not_mem.mpr fun i hi => ?_
    obtain ⟨g, hgroup, hjoin⟩ := mem_positionsWhere.mp hi
    have hno := hsettled s hshift hroom g (List.mem_of_getElem? hgroup)
    exact Bool.false_ne_true (hno.symm.trans hjoin)
  · intro hnil t ht _ g hg
    obtain rfl : s = t := Option.some.inj (hshift.symm.trans ht)
    obtain ⟨i, hi, rfl⟩ := List.mem_iff_getElem.mp hg
    refine Bool.eq_false_iff.mpr fun hjoin => ?_
    have hmem : i ∈ rota.eligible criteria s :=
      mem_positionsWhere.mpr ⟨_, List.getElem?_eq_getElem hi, hjoin⟩
    simp [hnil] at hmem

/-! Ranking puts the candidates in another order. -/

theorem filterMap_group_snd {positions : List Nat}
    (hvalid : ∀ i ∈ positions, i < rota.groups.length) :
    ((positions.filterMap fun i => (rota.groups[i]?).map fun g => (g, i)).map (·.2)) =
      positions := by
  induction positions with
  | nil => rfl
  | cons i rest ih =>
      have hi := hvalid i (by simp)
      have hrest := ih fun k hk => hvalid k (by simp [hk])
      simp only [List.filterMap_cons, List.getElem?_eq_getElem hi, Option.map_some, List.map_cons,
        hrest]

theorem ranksAt_positions {s : Shift} {positions : List Nat} {ranks : List (Rank × Nat)}
    (hvalid : ∀ i ∈ positions, i < rota.groups.length)
    (h : rota.ranksAt policy s positions = .ok ranks) : ranks.map (·.2) = positions := by
  rw [map_eq_of_mapM_eq_ok (p := (·.2)) ?_ h, filterMap_group_snd hvalid]
  intro candidate ranked hrank
  simp only [bind_eq_ok, pure_eq_ok] at hrank
  obtain ⟨_, _, rfl⟩ := hrank
  rfl

theorem ranked_perm {s : Shift} {positions order : List Nat}
    (hvalid : ∀ i ∈ positions, i < rota.groups.length)
    (h : rota.ranked policy s positions = .ok order) : order.Perm positions := by
  simp only [ranked, bind_eq_ok, pure_eq_ok] at h
  obtain ⟨ranks, hranks, rfl⟩ := h
  exact ranksAt_positions hvalid hranks ▸ (Ranking.rank_perm _ ranks).map _

theorem lt_of_mem_positionsWhere {test : Group → Bool} {i : Nat}
    (hi : i ∈ rota.positionsWhere test) : i < rota.groups.length := by
  obtain ⟨g, hgroup, -⟩ := mem_positionsWhere.mp hi
  exact (List.getElem?_eq_some_iff.mp hgroup).1

theorem ranked_positionsWhere_perm {s : Shift} {test : Group → Bool} {order : List Nat}
    (h : rota.ranked policy s (rota.positionsWhere test) = .ok order) :
    order.Perm (rota.positionsWhere test) :=
  ranked_perm (fun _ => lt_of_mem_positionsWhere) h

/-! A pick leaves fewer groups that may join the same shift. -/

theorem allows_join (kind : CriterionKind) (i j : Nat) (g h : Group) (s : Shift) :
    kind.allows (rota.join i g j s) h (s.seat g) = kind.allows rota h s := by
  cases kind <;> rfl

theorem mayJoin_of_mayJoin_join {i j : Nat} {g h : Group} {s : Shift}
    (hjoin : (rota.join i g j s).mayJoin criteria h (s.seat g) = true) :
    h.key ≠ g.key ∧ rota.mayJoin criteria h s = true := by
  obtain ⟨hjoins, hallowed⟩ := mayJoin_iff.mp hjoin
  have hon := hjoins.notOn
  have hfits := hjoins.fits
  have hlead := hjoins.leadFree
  simp only [Shift.groupKeys_seat, List.mem_append, List.mem_singleton, not_or] at hon
  simp only [Shift.currentSize_seat, Shift.seat_size] at hfits
  simp only [Shift.seat_teamLead, Option.or_eq_none_iff] at hlead
  refine ⟨hon.2, mayJoin_iff.mpr ⟨⟨⟨hon.1, ?_, fun hled => (hlead hled).2⟩, hjoins.capacity,
    hjoins.available, hjoins.notHolding⟩, fun c hc => ?_⟩⟩
  · omega
  · rw [← allows_join]
    exact hallowed c hc

theorem eligible_join_length_lt {i j : Nat} {g : Group} {s : Shift}
    (hgroup : rota.groups[i]? = some g) (hjoin : rota.mayJoin criteria g s = true) :
    ((rota.join i g j s).eligible criteria (s.seat g)).length <
      (rota.eligible criteria s).length := by
  have hmem : ∀ k ∈ (rota.join i g j s).eligible criteria (s.seat g),
      k ≠ i ∧ k ∈ rota.eligible criteria s := by
    intro k hk
    obtain ⟨h, hgroup', hjoin'⟩ := mem_positionsWhere.mp hk
    obtain ⟨hkey, hbefore⟩ := mayJoin_of_mayJoin_join hjoin'
    have hne : k ≠ i := by
      intro heq
      subst heq
      have hlength := (List.getElem?_eq_some_iff.mp hgroup).1
      obtain rfl : g.take s.index = h := by simpa [join, hlength] using hgroup'
      exact hkey rfl
    rw [join, List.getElem?_set_ne hne.symm] at hgroup'
    exact ⟨hne, mem_positionsWhere.mpr ⟨h, hgroup', hbefore⟩⟩
  have hnodup : (i :: (rota.join i g j s).eligible criteria (s.seat g)).Nodup :=
    List.nodup_cons.mpr ⟨fun hi => (hmem i hi).1 rfl, nodup_positionsWhere _⟩
  have hsubset : i :: (rota.join i g j s).eligible criteria (s.seat g) ⊆
      rota.eligible criteria s := by
    refine List.cons_subset.mpr ⟨mem_positionsWhere.mpr ⟨g, hgroup, hjoin⟩, fun k hk => ?_⟩
    exact (hmem k hk).2
  exact (hnodup.subperm hsubset).length_le

/-! One shift is filled by picks for it. The fuel of the loop covers every group that may still
join, and each pick spends one of them, so the loop never stops early. -/

theorem placeAt_eq_ok {i j : Nat} {g : Group} {s : Shift} (hgroup : rota.groups[i]? = some g)
    (hshift : rota.shifts[j]? = some s) (h : rota.placeAt i j = .ok after) :
    after = rota.join i g j s :=
  ((place_eq_ok_iff hgroup hshift).mp (mapError_eq_ok.mp h)).2

theorem placeAt_of_mayJoin {i j : Nat} {g : Group} {s : Shift}
    (hgroup : rota.groups[i]? = some g) (hshift : rota.shifts[j]? = some s)
    (hjoin : rota.mayJoin criteria g s = true) :
    rota.placeAt i j = .ok (rota.join i g j s) :=
  mapError_eq_ok.mpr ((place_eq_ok_iff hgroup hshift).mpr ⟨(mayJoin_iff.mp hjoin).1, rfl⟩)

/-- The best ranked group of those asked for joins the shift at a position. -/
inductive Choice (policy : Policy) (j : Nat) (rota : Rota) : Nat → Rota → Prop
  | lead {i : Nat} {rest : List Nat} {g : Group} {s : Shift}
      (hgroup : rota.groups[i]? = some g) (hshift : rota.shifts[j]? = some s)
      (hroom : s.isFull = false)
      (hbest : rota.ranked policy s (rota.eligibleLeads policy.criteria s) = .ok (i :: rest)) :
      Choice policy j rota i (rota.join i g j s)
  | member {i : Nat} {rest : List Nat} {g : Group} {s : Shift}
      (hgroup : rota.groups[i]? = some g) (hshift : rota.shifts[j]? = some s)
      (hroom : s.isFull = false)
      (hbest : rota.ranked policy s (rota.eligible policy.criteria s) = .ok (i :: rest)) :
      Choice policy j rota i (rota.join i g j s)

/-- Some choices in a row, all for the shift at one position. -/
abbrev Choices (policy : Policy) (j : Nat) : Rota → Rota → Prop :=
  Relation.ReflTransGen fun rota after => ∃ i, Choice policy j rota i after

theorem exists_of_ranked_head {test : Group → Bool} {s : Shift} {i : Nat} {rest : List Nat}
    (hbest : rota.ranked policy s (rota.positionsWhere test) = .ok (i :: rest)) :
    ∃ g, rota.groups[i]? = some g ∧ test g = true :=
  mem_positionsWhere.mp ((ranked_positionsWhere_perm hbest).mem_iff.mp List.mem_cons_self)

theorem Choice.mayJoin {i j : Nat} {g : Group} {s : Shift}
    (hchoice : Choice policy j rota i after) (hgroup : rota.groups[i]? = some g)
    (hshift : rota.shifts[j]? = some s) : rota.mayJoin policy.criteria g s = true := by
  cases hchoice with
  | lead hat hfound hroom hbest =>
      obtain rfl := Option.some.inj (hshift.symm.trans hfound)
      obtain ⟨g', hgroup', htest⟩ := exists_of_ranked_head hbest
      obtain rfl := Option.some.inj (hgroup.symm.trans hgroup')
      exact (Bool.and_eq_true _ _ ▸ htest).2
  | member hat hfound hroom hbest =>
      obtain rfl := Option.some.inj (hshift.symm.trans hfound)
      obtain ⟨g', hgroup', hjoin⟩ := exists_of_ranked_head hbest
      obtain rfl := Option.some.inj (hgroup.symm.trans hgroup')
      exact hjoin

theorem Choice.pick {i j : Nat} (hchoice : Choice policy j rota i after) :
    Pick policy.criteria j rota after := by
  have hmay := @hchoice.mayJoin
  cases hchoice with
  | lead hgroup hshift hroom hbest => exact .join hgroup hshift hroom (hmay _ _ hgroup hshift)
  | member hgroup hshift hroom hbest => exact .join hgroup hshift hroom (hmay _ _ hgroup hshift)

theorem Choices.picks {j : Nat} (hchoices : Choices policy j rota after) :
    Picks policy.criteria [j] rota after :=
  Relation.ReflTransGen.mono
    (fun _ _ ⟨_, hchoice⟩ => ⟨j, List.mem_singleton_self j, hchoice.pick⟩) _ _ hchoices

/-- A run that changes a group has a moment when it chooses the group. -/
theorem Choices.exists_choice {j k : Nat} {g : Group} (hchoices : Choices policy j rota after)
    (hgroup : rota.groups[k]? = some g) (hchanged : after.groups[k]? ≠ some g) :
    ∃ between next, Choices policy j rota between ∧ Choice policy j between k next ∧
      Choices policy j next after ∧ between.groups[k]? = some g := by
  induction hchoices using Relation.ReflTransGen.head_induction_on with
  | refl => exact absurd hgroup hchanged
  | @head rota next hfirst hrest ih =>
      obtain ⟨i, hchoice⟩ := hfirst
      by_cases hik : i = k
      · subst hik
        exact ⟨rota, next, .refl, hchoice, hrest, hgroup⟩
      · have hkept : next.groups[k]? = some g := by
          cases hchoice <;> rw [join, List.getElem?_set_ne hik] <;> exact hgroup
        obtain ⟨between, chosen, hsofar, hmoment, hlater, hstill⟩ := ih hkept
        exact ⟨between, chosen, .head ⟨i, hchoice⟩ hsofar, hmoment, hlater, hstill⟩

theorem Choices.group_eq {j k : Nat} {between : Rota} {g : Group}
    (hsofar : Choices policy j rota between) (hlater : Choices policy j between after)
    (hgroup : rota.groups[k]? = some g) (hkept : after.groups[k]? = some g) :
    between.groups[k]? = some g := by
  obtain ⟨m, added, hm, hsame, hadded, -⟩ := hsofar.picks.allocated_eq_append hgroup
  obtain ⟨g', more, hg', -, hmore, -⟩ := hlater.picks.allocated_eq_append hm
  obtain rfl : g = g' := Option.some.inj (hkept.symm.trans hg')
  rw [hadded, List.append_assoc, List.self_eq_append_right, List.append_eq_nil_iff] at hmore
  rw [hm]
  cases g
  cases m
  simp_all [Group.blank]

/-- Where a shift has room and no lead, it gets the best ranked lead if there is any. -/
theorem fillLead_ok {j : Nat} {s : Shift} (hshift : rota.shifts[j]? = some s)
    (hroom : s.isFull = false) (hbare : s.teamLead = none)
    (h : fillLead policy j rota = .ok after) :
    (rota.eligibleLeads policy.criteria s = [] ∧ after = rota) ∨
      ∃ i rest g, rota.groups[i]? = some g ∧ g.hasTeamLead = true ∧
        rota.ranked policy s (rota.eligibleLeads policy.criteria s) = .ok (i :: rest) ∧
          after = rota.join i g j s := by
  simp only [fillLead, hshift, hbare, hroom, Option.isSome_none, Bool.or_self,
    Bool.false_eq_true, if_false] at h
  obtain ⟨order, horder, h⟩ := bind_eq_ok.mp h
  cases order with
  | nil =>
      left
      exact ⟨(ranked_positionsWhere_perm horder).symm.eq_nil, (pure_eq_ok.mp h).symm⟩
  | cons best rest =>
      right
      obtain ⟨g, hgroup, htest⟩ := exists_of_ranked_head horder
      rw [Bool.and_eq_true] at htest
      exact ⟨best, rest, g, hgroup, htest.1, horder, placeAt_eq_ok hgroup hshift h⟩

theorem fillLead_choices {j : Nat} (h : fillLead policy j rota = .ok after) :
    Choices policy j rota after := by
  cases hshift : rota.shifts[j]? with
  | none =>
      obtain rfl : after = rota := by simpa [fillLead, hshift, eq_comm] using h
      exact .refl
  | some s =>
      by_cases hskip : (s.teamLead.isSome || s.isFull) = true
      · obtain rfl : after = rota := by simpa [fillLead, hshift, hskip, eq_comm] using h
        exact .refl
      · simp only [Bool.or_eq_true, not_or, Bool.not_eq_true, Option.isSome_eq_false_iff,
          Option.isNone_iff_eq_none] at hskip
        rcases fillLead_ok hshift hskip.2 hskip.1 h with
          ⟨-, rfl⟩ | ⟨i, rest, g, hgroup, -, hbest, rfl⟩
        · exact .refl
        · exact .single ⟨i, .lead hgroup hshift hskip.2 hbest⟩

theorem fillMembers_ok {j fuel : Nat} {s : Shift} (hshift : rota.shifts[j]? = some s)
    (hfuel : (rota.eligible policy.criteria s).length ≤ fuel)
    (h : fillMembers policy j fuel rota = .ok after) :
    Choices policy j rota after ∧ Settled policy.criteria j after := by
  induction fuel generalizing rota s with
  | zero =>
      obtain rfl := Except.ok.inj h
      refine ⟨.refl, fun t ht hroom => ?_⟩
      obtain rfl : s = t := Option.some.inj (hshift.symm.trans ht)
      have hnil := List.eq_nil_of_length_eq_zero (Nat.le_zero.mp hfuel)
      exact (settled_iff_eligible_eq_nil hshift hroom).mpr hnil s hshift hroom
  | succ fuel ih =>
      simp only [fillMembers, hshift] at h
      split at h
      · next hfull =>
          obtain rfl := Except.ok.inj h
          refine ⟨.refl, fun t ht hroom => ?_⟩
          obtain rfl : s = t := Option.some.inj (hshift.symm.trans ht)
          exact absurd hfull (by simp [hroom])
      · next hroom =>
          have hroom : s.isFull = false := by simpa using hroom
          obtain ⟨order, horder, h⟩ := bind_eq_ok.mp h
          cases order with
          | nil =>
              obtain rfl := pure_eq_ok.mp h
              have hnil := (ranked_positionsWhere_perm horder).symm.eq_nil
              exact ⟨.refl, (settled_iff_eligible_eq_nil hshift hroom).mpr hnil⟩
          | cons best rest =>
              obtain ⟨g, hgroup, hjoin⟩ := exists_of_ranked_head horder
              obtain ⟨next, hplaced, h⟩ := bind_eq_ok.mp h
              obtain rfl := placeAt_eq_ok hgroup hshift hplaced
              have hlength := (List.getElem?_eq_some_iff.mp hshift).1
              have hseat : (rota.join best g j s).shifts[j]? = some (s.seat g) := by
                simp [join, hlength]
              have hspent := eligible_join_length_lt (j := j) hgroup hjoin
              obtain ⟨hchoices, hsettled⟩ := ih hseat (by omega) h
              exact ⟨.head ⟨best, .member hgroup hshift hroom horder⟩ hchoices, hsettled⟩

theorem fillMembers_absent {j fuel : Nat} (hshift : rota.shifts[j]? = none) :
    fillMembers policy j fuel rota = .ok rota := by
  cases fuel with
  | zero => rfl
  | succ fuel => simp [fillMembers, hshift]

theorem fillShift_ok {j : Nat} (h : fillShift policy rota j = .ok after) :
    Choices policy j rota after ∧ Settled policy.criteria j after := by
  obtain ⟨middle, hlead, hmembers⟩ := bind_eq_ok.mp h
  have hfirst := fillLead_choices hlead
  cases hshift : middle.shifts[j]? with
  | none =>
      rw [fillMembers_absent hshift] at hmembers
      obtain rfl := Except.ok.inj hmembers
      exact ⟨hfirst, fun s hs => by simp [hshift] at hs⟩
  | some s =>
      obtain ⟨hchoices, hsettled⟩ :=
        fillMembers_ok hshift (positionsWhere_length_le _) hmembers
      exact ⟨hfirst.trans hchoices, hsettled⟩

theorem fillMembers_full {j fuel : Nat} {s : Shift} (hshift : rota.shifts[j]? = some s)
    (hfull : s.isFull = true) : fillMembers policy j fuel rota = .ok rota := by
  cases fuel with
  | zero => rfl
  | succ fuel => simp [fillMembers, hshift, hfull]

theorem fillMembers_idle {j fuel : Nat} {s : Shift} (hshift : rota.shifts[j]? = some s)
    (hnone : rota.eligible policy.criteria s = []) : fillMembers policy j fuel rota = .ok rota := by
  cases fuel with
  | zero => rfl
  | succ fuel =>
      have hranked : rota.ranked policy s [] = .ok [] := rfl
      cases hfull : s.isFull with
      | true => exact fillMembers_full hshift hfull
      | false =>
          simp only [fillMembers, hshift, hfull, hnone, hranked]
          rfl

theorem fillShift_full {j : Nat} {s : Shift} (hshift : rota.shifts[j]? = some s)
    (hfull : s.isFull = true) : fillShift policy rota j = .ok rota := by
  have hlead : fillLead policy j rota = .ok rota := by simp [fillLead, hshift, hfull]
  exact bind_eq_ok.mpr ⟨rota, hlead, fillMembers_full hshift hfull⟩

theorem fillShifts_picks {order : List Nat} (h : order.foldlM (fillShift policy) rota = .ok after) :
    Picks policy.criteria order rota after := by
  induction order generalizing rota with
  | nil =>
      obtain rfl := pure_eq_ok.mp h
      exact .refl
  | cons j rest ih =>
      rw [List.foldlM_cons] at h
      obtain ⟨middle, hfirst, hrest⟩ := bind_eq_ok.mp h
      have hshift : Picks policy.criteria (j :: rest) rota middle :=
        (fillShift_ok hfirst).1.picks.mono (by simp)
      exact hshift.trans ((ih hrest).mono (by simp))

theorem allocate_picks (h : rota.allocate policy = .ok after) :
    Picks policy.criteria rota.shiftOrder rota after :=
  fillShifts_picks h

/-! Shifts are taken by their index, so a run splits at any of them. -/

theorem shiftOrder_perm (rota : Rota) :
    rota.shiftOrder.Perm (List.range rota.shifts.length) :=
  List.mergeSort_perm _ _

theorem mem_shiftOrder {j : Nat} : j ∈ rota.shiftOrder ↔ j < rota.shifts.length := by
  rw [(shiftOrder_perm rota).mem_iff, List.mem_range]

theorem shiftOrder_pairwise (rota : Rota) :
    rota.shiftOrder.Pairwise fun i j => ∀ s t : Shift,
      rota.shifts[i]? = some s → rota.shifts[j]? = some t → s.index ≤ t.index := by
  let index (i : Nat) : Int := (rota.shifts[i]?).elim 0 Shift.index
  have hsorted : rota.shiftOrder.Pairwise fun i j => decide (index i ≤ index j) = true := by
    apply List.pairwise_mergeSort
    · intro i j k hij hjk
      rw [decide_eq_true_eq] at *
      exact Int.le_trans hij hjk
    · intro i j
      rw [Bool.or_eq_true, decide_eq_true_eq, decide_eq_true_eq]
      exact Int.le_total _ _
  refine hsorted.imp fun {i j} hle s t hs ht => ?_
  simpa [index, hs, ht] using hle

/-- A run up to the moment when it is done with a shift, and from there on. -/
theorem allocate_split (h : rota.allocate policy = .ok after) {j : Nat} {s : Shift}
    (hshift : rota.shifts[j]? = some s) :
    ∃ sofar later middle,
      Picks policy.criteria sofar rota middle ∧ Settled policy.criteria j middle ∧
      Picks policy.criteria later middle after ∧
      (∀ k ∈ sofar, ∀ t, rota.shifts[k]? = some t → t.index ≤ s.index) ∧
      (∀ k ∈ later, k ≠ j ∧ ∀ t, rota.shifts[k]? = some t → s.index ≤ t.index) := by
  have hmem : j ∈ rota.shiftOrder :=
    mem_shiftOrder.mpr (List.getElem?_eq_some_iff.mp hshift).1
  obtain ⟨earlier, later, horder⟩ := List.append_of_mem hmem
  have hsorted := shiftOrder_pairwise rota
  have hnodup := (shiftOrder_perm rota).nodup_iff.mpr List.nodup_range
  rw [horder, List.pairwise_append, List.pairwise_cons] at hsorted
  rw [horder, List.nodup_append, List.nodup_cons] at hnodup
  rw [allocate, horder, foldlM_append_eq_ok] at h
  obtain ⟨before, hearlier, h⟩ := h
  rw [List.foldlM_cons] at h
  obtain ⟨middle, hfill, hlater⟩ := bind_eq_ok.mp h
  obtain ⟨hchoices, hsettled⟩ := fillShift_ok hfill
  have hsofar : Picks policy.criteria (j :: earlier) rota middle :=
    ((fillShifts_picks hearlier).mono (by simp)).trans (hchoices.picks.mono (by simp))
  refine ⟨j :: earlier, later, middle, hsofar, hsettled, fillShifts_picks hlater, ?_, ?_⟩
  · intro k hk t ht
    rcases List.mem_cons.mp hk with rfl | hk
    · obtain rfl : s = t := Option.some.inj (hshift.symm.trans ht)
      exact Int.le_refl _
    · exact hsorted.2.2 k hk j (by simp) t s ht hshift
  · intro k hk
    refine ⟨fun heq => hnodup.2.1.1 (heq ▸ hk), fun t ht => ?_⟩
    exact hsorted.2.1.1 k hk s t hshift ht

end Rota

end Rostering
