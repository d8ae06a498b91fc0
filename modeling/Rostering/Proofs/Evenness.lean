import Rostering.Proofs.Envy
import Rostering.Proofs.LeadSeats

namespace Rostering

/-! Groups that nothing tells apart but their keys and members end a run with as many shifts, give
or take one. Double shifts ruled out do not upset this: a group that sits out because it holds the
shift before caught up by that very shift. -/

/-- Nothing tells two groups apart but their keys and members. -/
structure Group.Alike (g g' : Group) : Prop where
  size_eq : g.size = g'.size
  available_eq : g.available = g'.available
  hasTeamLead_eq : g.hasTeamLead = g'.hasTeamLead
  historicalCount_eq : g.historicalCount = g'.historicalCount

theorem Group.Alike.symm {g g' : Group} (halike : g.Alike g') : g'.Alike g :=
  ⟨halike.size_eq.symm, halike.available_eq.symm, halike.hasTeamLead_eq.symm,
    halike.historicalCount_eq.symm⟩

variable {request : Request} {outcome : Outcome} {g g' : Group}

section

variable (h : generate request = .ok outcome)
include h

theorem generate_held_range (hg : g ∈ outcome.rota.groups) :
    ∀ i ∈ g.allocated, 0 ≤ i ∧ i < request.dates.length := by
  intro i hi
  obtain ⟨s, hs, rfl⟩ := (generate_closed h).held g hg i hi
  obtain ⟨j, hshift⟩ := List.getElem?_of_mem hs
  have hindex := generate_index_eq h hshift
  have hlt := generate_position_lt h hshift
  omega

theorem generate_count_zero (hg : g ∈ outcome.rota.groups) :
    (g.before (0 : Nat)).allocationCount = 0 := by
  rw [Group.allocationCount, List.length_eq_zero_iff]
  refine List.eq_nil_iff_forall_not_mem.mpr fun k hk => ?_
  obtain ⟨hk, hlt⟩ := Group.mem_before.mp hk
  have := (generate_held_range h hg k hk).1
  omega

/-- A group that gets a shift over one like it has worked no more of this rotation. Where the other
one sits out after the shift before, that is for the balance before that shift to say. -/
theorem generate_count_le_of_passed (hg : g ∈ outcome.rota.groups)
    (hg' : g' ∈ outcome.rota.groups) (halike : g.Alike g') {n : Nat}
    (hbalance : ∀ m : Nat, n = m + 1 →
      (g.before m).allocationCount ≤ (g'.before m).allocationCount + 1)
    (hheld : (n : Int) ∈ g.allocated) (hoff : (n : Int) ∉ g'.allocated) :
    (g.before n).allocationCount ≤ (g'.before n).allocationCount := by
  obtain ⟨s, hs, hindex⟩ := (generate_closed h).held g hg n hheld
  obtain ⟨j, hshift⟩ := List.getElem?_of_mem hs
  have hopen := (generate_openTo h hshift hg (by rwa [hindex])).1
  by_cases hother : request.OpenTo g' s.index
  · have htotal := generate_total_le h hs hg hg' (by rwa [hindex]) (by rwa [hindex])
      halike.hasTeamLead_eq (Nat.le_of_eq halike.size_eq.symm) hother
    rw [hindex, Group.totalCount, Group.totalCount, Group.before_historicalCount,
      Group.before_historicalCount, halike.historicalCount_eq] at htotal
    exact_mod_cast Int.le_of_add_le_add_left htotal
  · rw [hindex] at hopen hother
    by_cases hspare : ((g'.before n).allocationCount : Int) < request.cap
    · have hvetoed : ¬ ((∃ c ∈ request.policy.criteria, c.kind = .noDoubleShifts) →
          (n : Int) - 1 ∉ g'.allocated ∧ ¬ ((n : Int) = 0 ∧
            ∃ worked, request.history.getLast? = some worked ∧ g'.key ∈ worked.groupKeys)) :=
        fun hrested => hother ⟨halike.available_eq ▸ hopen.available, hspare, hrested⟩
      obtain ⟨hbarred, hdouble⟩ := Classical.not_imp.mp hvetoed
      have hrested := (hopen.rested hbarred).1
      cases n with
      | zero =>
          rw [generate_count_zero h hg]
          exact Nat.zero_le _
      | succ m =>
          have hafter : (m : Int) ∈ g'.allocated := by
            by_contra hnot
            apply hdouble
            constructor
            · simpa using hnot
            · omega
          have hfree : (m : Int) ∉ g.allocated := by simpa using hrested
          have hbefore := hbalance m rfl
          have hsound := (generate_coherent h).group_sound g' hg'
          rw [Int.natCast_succ, Group.before_succ hfree,
            Group.allocationCount_before_succ hsound.nodup hafter]
          exact hbefore
    · have := hopen.spare
      omega

theorem generate_count_le_succ (hg : g ∈ outcome.rota.groups) (hg' : g' ∈ outcome.rota.groups)
    (halike : g.Alike g') (n : Nat) :
    (g.before n).allocationCount ≤ (g'.before n).allocationCount + 1 := by
  induction n using Nat.strongRecOn with
  | ind n ih =>
      cases n with
      | zero =>
          rw [generate_count_zero h hg]
          exact Nat.zero_le _
      | succ n =>
          have hbefore := ih n (Nat.lt_succ_self n)
          have hsound := (generate_coherent h).group_sound g hg
          have hsound' := (generate_coherent h).group_sound g' hg'
          rw [Int.natCast_succ]
          by_cases hheld : (n : Int) ∈ g.allocated
          · rw [Group.allocationCount_before_succ hsound.nodup hheld]
            by_cases hheld' : (n : Int) ∈ g'.allocated
            · rw [Group.allocationCount_before_succ hsound'.nodup hheld']
              omega
            · rw [Group.before_succ hheld']
              apply Nat.succ_le_succ
              apply generate_count_le_of_passed h hg hg' halike _ hheld hheld'
              exact fun m hm => ih m (by omega)
          · rw [Group.before_succ hheld]
            by_cases hheld' : (n : Int) ∈ g'.allocated
            · rw [Group.allocationCount_before_succ hsound'.nodup hheld']
              omega
            · rw [Group.before_succ hheld']
              exact hbefore

theorem generate_allocationCount_le_succ (hg : g ∈ outcome.rota.groups)
    (hg' : g' ∈ outcome.rota.groups) (halike : g.Alike g') :
    g.allocationCount ≤ g'.allocationCount + 1 := by
  have hcount := generate_count_le_succ h hg hg' halike request.dates.length
  rwa [Group.before_eq_self fun k hk => (generate_held_range h hg k hk).2,
    Group.before_eq_self fun k hk => (generate_held_range h hg' k hk).2] at hcount

end

/-- Two groups of one size, free on the same shifts, with or without a lead alike and with as much
work behind them, get numbers of shifts that differ by one at most. -/
theorem interchangeable_groups_even (h : generate request = .ok outcome) :
    ∀ g ∈ outcome.rota.groups, ∀ g' ∈ outcome.rota.groups, g.Alike g' →
      g.allocationCount ≤ g'.allocationCount + 1 ∧
      g'.allocationCount ≤ g.allocationCount + 1 := by
  intro g hg g' hg' halike
  constructor
  · exact generate_allocationCount_le_succ h hg hg' halike
  · exact generate_allocationCount_le_succ h hg' hg halike.symm

theorem Sample.generate_rested_pair :
    ∃ outcome, generate (pair [⟨.noDoubleShifts, .one⟩]) = .ok outcome ∧
      outcome.rota = pairFinal :=
  exists_generate (prepare_pair _) (by decide +kernel)

theorem interchangeable_groups_even_sample :
    ∃ outcome, generate (Sample.pair [⟨.noDoubleShifts, .one⟩]) = .ok outcome ∧
      ∃ dee ∈ outcome.rota.groups, ∃ eli ∈ outcome.rota.groups, dee.Alike eli ∧
        dee.allocated = [0, 2] ∧ eli.allocated = [1] ∧
        dee.allocationCount ≤ eli.allocationCount + 1 ∧
        eli.allocationCount ≤ dee.allocationCount + 1 := by
  obtain ⟨outcome, h, hfinal⟩ := Sample.generate_rested_pair
  have hdee : ⟨"individual_dee", [Sample.dee], .ofList [0, 1, 2], [0, 2], 0⟩ ∈
      outcome.rota.groups := by
    rw [hfinal]
    decide
  have heli : ⟨"individual_eli", [Sample.eli], .ofList [0, 1, 2], [1], 0⟩ ∈
      outcome.rota.groups := by
    rw [hfinal]
    decide
  have halike : Group.Alike ⟨"individual_dee", [Sample.dee], .ofList [0, 1, 2], [0, 2], 0⟩
      ⟨"individual_eli", [Sample.eli], .ofList [0, 1, 2], [1], 0⟩ :=
    ⟨rfl, rfl, rfl, rfl⟩
  have heven := interchangeable_groups_even h _ hdee _ heli halike
  exact ⟨outcome, h, _, hdee, _, heli, halike, rfl, rfl, heven⟩

end Rostering
