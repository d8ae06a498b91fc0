import Rostering.Proofs.Generated

namespace Rostering

/-! A generated rota shows how it came about. Without what it got for later shifts, it is the rota
that the run had when it came to a shift. -/

/-- The group with only those of its shifts that come before one. -/
def Group.before (g : Group) (i : Int) : Group :=
  { g with allocated := g.allocated.filter fun k => decide (k < i) }

namespace Group

variable {g h : Group} {i k : Int}

@[simp] theorem before_key : (g.before i).key = g.key := rfl
@[simp] theorem before_available : (g.before i).available = g.available := rfl
@[simp] theorem before_historicalCount :
    (g.before i).historicalCount = g.historicalCount := rfl
@[simp] theorem before_size : (g.before i).size = g.size := rfl
@[simp] theorem before_hasTeamLead : (g.before i).hasTeamLead = g.hasTeamLead := rfl
@[simp] theorem before_teamLead? : (g.before i).teamLead? = g.teamLead? := rfl

@[simp] theorem ofGroup_before : Placement.ofGroup (g.before i) = .ofGroup g := rfl

theorem mem_before : k ∈ (g.before i).allocated ↔ k ∈ g.allocated ∧ k < i := by
  simp [before]

theorem filter_lt_succ {indices : List Int} (hoff : i ∉ indices) :
    indices.filter (fun k => decide (k < i + 1)) = indices.filter fun k => decide (k < i) := by
  refine List.filter_congr fun k hk => ?_
  have hne : k ≠ i := fun heq => hoff (heq ▸ hk)
  simp only [decide_eq_decide]
  omega

theorem length_filter_lt_succ {indices : List Int} (hnodup : indices.Nodup) (hmem : i ∈ indices) :
    (indices.filter fun k => decide (k < i + 1)).length =
      (indices.filter fun k => decide (k < i)).length + 1 := by
  induction indices with
  | nil => simp at hmem
  | cons x rest ih =>
      obtain ⟨hx, hrest⟩ := List.nodup_cons.mp hnodup
      by_cases heq : x = i
      · subst heq
        have hnext : decide (x < x + 1) = true := decide_eq_true (by omega)
        have hlast : ¬ decide (x < x) = true := by simp
        rw [List.filter_cons, if_pos hnext, List.filter_cons, if_neg hlast, filter_lt_succ hx,
          List.length_cons]
      · have hlength := ih hrest ((List.mem_cons.mp hmem).resolve_left (Ne.symm heq))
        have hsame : decide (x < i + 1) = decide (x < i) := decide_eq_decide.mpr (by omega)
        rw [List.filter_cons, hsame, List.filter_cons]
        split
        · rw [List.length_cons, List.length_cons, hlength]
        · exact hlength

theorem before_succ (hoff : i ∉ g.allocated) : g.before (i + 1) = g.before i := by
  rw [before, filter_lt_succ hoff, before]

theorem allocationCount_before_succ (hnodup : g.allocated.Nodup) (hheld : i ∈ g.allocated) :
    (g.before (i + 1)).allocationCount = (g.before i).allocationCount + 1 :=
  length_filter_lt_succ hnodup hheld

theorem before_eq_self (hheld : ∀ k ∈ g.allocated, k < i) : g.before i = g := by
  have hall : g.allocated.filter (fun k => decide (k < i)) = g.allocated :=
    List.filter_eq_self.mpr fun k hk => decide_eq_true (hheld k hk)
  rw [before, hall]

theorem eq_before {added : List Int} (hblank : h.blank = g.blank)
    (hallocated : g.allocated = h.allocated ++ added) (hheld : ∀ k ∈ h.allocated, k < i)
    (hadded : ∀ k ∈ added, i ≤ k) : h = g.before i := by
  have hkept : h.allocated.filter (fun k => decide (k < i)) = h.allocated :=
    List.filter_eq_self.mpr fun k hk => decide_eq_true (hheld k hk)
  have hdropped : added.filter (fun k => decide (k < i)) = [] := by
    refine List.filter_eq_nil_iff.mpr fun k hk => ?_
    have := hadded k hk
    simp only [decide_eq_true_eq]
    omega
  rw [Group.before, hallocated, List.filter_append, hkept, hdropped, List.append_nil]
  cases g
  cases h
  simp_all [Group.blank]

end Group

namespace Rota

/-- The rota with nothing but what was placed before a shift. -/
def upTo (rota : Rota) (i : Int) : Rota :=
  { rota with
    groups := rota.groups.map fun g => g.before i
    shifts := rota.shifts.map fun s => if s.index < i then s else s.blank }

variable {rota : Rota} {i : Int} {k : Nat}

@[simp] theorem upTo_cap : (rota.upTo i).cap = rota.cap := rfl
@[simp] theorem upTo_history : (rota.upTo i).history = rota.history := rfl

theorem upTo_group {g : Group} (hgroup : rota.groups[k]? = some g) :
    (rota.upTo i).groups[k]? = some (g.before i) := by
  simp [upTo, hgroup]

theorem exists_group_of_upTo {g : Group} (hgroup : (rota.upTo i).groups[k]? = some g) :
    ∃ final, rota.groups[k]? = some final ∧ g = final.before i := by
  rw [upTo, List.getElem?_map, Option.map_eq_some_iff] at hgroup
  obtain ⟨final, hfinal, rfl⟩ := hgroup
  exact ⟨final, hfinal, rfl⟩

theorem upTo_shift {s : Shift} (hshift : rota.shifts[k]? = some s) (hlt : s.index < i) :
    (rota.upTo i).shifts[k]? = some s := by
  simp [upTo, hshift, hlt]

theorem upTo_later_shift {s : Shift} (hshift : rota.shifts[k]? = some s) (hle : i ≤ s.index) :
    (rota.upTo i).shifts[k]? = some s.blank := by
  simp [upTo, hshift, Int.not_lt.mpr hle]

end Rota

namespace Request.Prepares

open Rota

variable {request : Request} {start middle final : Rota} {criteria : List Criterion}
  {policy : Policy} {earlier later : List Nat} {j : Nat}

theorem index_eq (hprepares : request.Prepares start) (hblank : middle.blank = start.blank)
    {k : Nat} {s : Shift} (hshift : middle.shifts[k]? = some s) : s.index = k := by
  obtain ⟨first, hfirst, hindex⟩ := exists_shift_of_index hblank hshift
  exact hindex.symm.trans (hprepares.prepared k first hfirst).index_eq

theorem upTo_groups (hprepares : request.Prepares start)
    (hearlier : Picks criteria earlier start middle) (hlater : Picks criteria later middle final)
    (hbefore : ∀ k ∈ earlier, k < j) (hafter : ∀ k ∈ later, j ≤ k) :
    (final.upTo j).groups = middle.groups := by
  apply List.ext_getElem?
  intro k
  cases hgroup : final.groups[k]? with
  | none =>
      have hnone : middle.groups[k]? = none := by
        refine Option.eq_none_iff_forall_ne_some.mpr fun m hm => ?_
        obtain ⟨g, _, hg, -⟩ := hlater.allocated_eq_append hm
        simp [hgroup] at hg
      simp [upTo, hgroup, hnone]
  | some g =>
      obtain ⟨m, hm, hsame⟩ := exists_group_of_blank_eq hlater.blank_eq hgroup
      obtain ⟨g', added, hg', -, hallocated, hadded⟩ := hlater.allocated_eq_append hm
      obtain rfl : g = g' := Option.some.inj (hgroup.symm.trans hg')
      have hheld : ∀ i ∈ m.allocated, i < j := by
        intro i hi
        have hle := hearlier.allocated_le hprepares.allocated_eq_nil (i := (j : Int) - 1)
          (fun p hp s hs => by
            have := hbefore p hp
            rw [(hprepares.prepared p s hs).index_eq]
            omega) m (List.mem_of_getElem? hm) i hi
        omega
      have hlate : ∀ i ∈ added, (j : Int) ≤ i := by
        intro i hi
        obtain ⟨p, hp, s, hs, rfl⟩ := hadded i hi
        rw [hprepares.index_eq hearlier.blank_eq hs]
        exact_mod_cast hafter p hp
      rw [upTo_group hgroup, hm, Group.eq_before hsame hallocated hheld hlate]

theorem upTo_shifts (hprepares : request.Prepares start)
    (hearlier : Picks criteria earlier start middle) (hlater : Picks criteria later middle final)
    (hbefore : ∀ k ∈ earlier, k < j) (hafter : ∀ k ∈ later, j ≤ k) :
    (final.upTo j).shifts = middle.shifts := by
  have hblank := hlater.blank_eq.trans hearlier.blank_eq
  apply List.ext_getElem?
  intro k
  cases hshift : final.shifts[k]? with
  | none =>
      have hlength : final.shifts.length = middle.shifts.length := by
        simpa [blank] using congrArg (fun rota => rota.shifts.length) hlater.blank_eq
      have hnone : middle.shifts[k]? = none := by
        rw [List.getElem?_eq_none_iff] at hshift ⊢
        omega
      simp [upTo, hshift, hnone]
  | some s =>
      have hindex := hprepares.index_eq hblank hshift
      by_cases hk : k < j
      · have hkept : k ∉ later := fun hmem => by
          have := hafter k hmem
          omega
        rw [upTo_shift hshift (by omega), ← hlater.shift_eq hkept, hshift]
      · have huntouched : k ∉ earlier := fun hmem => hk (hbefore k hmem)
        obtain ⟨first, hfirst, hsame⟩ := exists_shift_of_blank_eq hblank hshift
        rw [upTo_later_shift hshift (by omega), hearlier.shift_eq huntouched, hfirst, ← hsame,
          (hprepares.prepared k first hfirst).blank_eq]

theorem upTo_eq (hprepares : request.Prepares start)
    (hearlier : Picks criteria earlier start middle) (hlater : Picks criteria later middle final)
    (hbefore : ∀ k ∈ earlier, k < j) (hafter : ∀ k ∈ later, j ≤ k) :
    final.upTo j = middle := by
  have hgroups := hprepares.upTo_groups hearlier hlater hbefore hafter
  have hshifts := hprepares.upTo_shifts hearlier hlater hbefore hafter
  have hblank := hlater.blank_eq
  cases final
  cases middle
  simp_all [blank, upTo]

/-- Filling a shift takes the rota from its moment before the shift to the one after it. -/
theorem fillShift_upTo (hprepares : request.Prepares start)
    (hallocate : start.allocate policy = .ok final) (hj : j < request.dates.length) :
    fillShift policy (final.upTo j) j = .ok (final.upTo (j + 1)) := by
  rw [allocate, hprepares.shiftOrder_eq] at hallocate
  obtain ⟨earlier, later, horder⟩ := List.append_of_mem (List.mem_range.mpr hj)
  have hrising := List.pairwise_lt_range (n := request.dates.length)
  rw [horder, List.pairwise_append, List.pairwise_cons] at hrising
  rw [horder, foldlM_append_eq_ok] at hallocate
  obtain ⟨before, hearlier, hallocate⟩ := hallocate
  rw [List.foldlM_cons] at hallocate
  obtain ⟨after, hfill, hlater⟩ := bind_eq_ok.mp hallocate
  have hfilled := (fillShift_ok hfill).1.picks
  have hbefore : final.upTo j = before := by
    apply hprepares.upTo_eq (fillShifts_picks hearlier)
      ((hfilled.mono (by simp)).trans ((fillShifts_picks hlater).mono
        (List.subset_cons_self j later)))
    · intro k hk
      exact hrising.2.2 k hk j (by simp)
    · intro k hk
      rcases List.mem_cons.mp hk with rfl | hk
      · exact Nat.le_refl _
      · exact Nat.le_of_lt (hrising.2.1.1 k hk)
  have hafter : final.upTo (j + 1 : Nat) = after := by
    apply hprepares.upTo_eq (((fillShifts_picks hearlier).mono
      (List.subset_append_left earlier [j])).trans (hfilled.mono (by simp)))
      (fillShifts_picks hlater)
    · intro k hk
      rcases List.mem_append.mp hk with hk | hk
      · exact Nat.lt_succ_of_lt (hrising.2.2 k hk j (by simp))
      · obtain rfl := List.mem_singleton.mp hk
        exact Nat.lt_succ_self _
    · intro k hk
      exact hrising.2.1.1 k hk
  rw [hbefore, hfill, ← hafter]
  rfl

end Request.Prepares

variable {request : Request} {outcome : Outcome} {j : Nat}

theorem generate_fillShift (h : generate request = .ok outcome) (hj : j < request.dates.length) :
    Rota.fillShift request.policy (outcome.rota.upTo j) j = .ok (outcome.rota.upTo (j + 1)) := by
  obtain ⟨start, hprepares, hallocate, -⟩ := generate_ok h
  exact hprepares.fillShift_upTo hallocate hj

end Rostering
