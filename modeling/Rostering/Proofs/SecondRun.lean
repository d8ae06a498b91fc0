import Rostering.Proofs.Generated

namespace Rostering

/-! A second run over a rota that has been filled. Nobody who may not join a shift may do so after
further picks, whatever these are for, so a shift that was settled once stays so. -/

namespace Rota

variable {rota after : Rota} {criteria : List Criterion} {policy : Policy} {positions : List Nat}
  {g : Group} {s : Shift}

theorem allows_of_allows_take {kind : CriterionKind} {i : Int}
    (hallowed : kind.allows rota (g.take i) s = true) : kind.allows rota g s = true := by
  cases kind with
  | noDoubleShifts =>
      simp only [CriterionKind.allows, Group.holds, Group.take_key, Group.take_allocated,
        Bool.and_eq_true, Bool.not_eq_true', Bool.or_eq_false_iff, List.contains_eq_mem,
        decide_eq_false_iff_not, List.mem_append, not_or] at hallowed ⊢
      exact ⟨hallowed.1, hallowed.2.1.1, hallowed.2.2.1⟩
  | _ => rfl

theorem mayJoin_of_mayJoin_take {i : Int} (hjoin : rota.mayJoin criteria (g.take i) s = true) :
    rota.mayJoin criteria g s = true := by
  obtain ⟨hjoins, hallowed⟩ := mayJoin_iff.mp hjoin
  have hcapacity := hjoins.capacity
  have hfree := hjoins.notHolding
  simp only [Group.allocationCount, Group.take_allocated, List.length_append,
    List.length_singleton] at hcapacity
  simp only [Group.take_allocated, List.mem_append, not_or] at hfree
  refine mayJoin_iff.mpr ⟨⟨⟨hjoins.notOn, hjoins.fits, hjoins.leadFree⟩, ?_, hjoins.available,
    hfree.1⟩, fun c hc => allows_of_allows_take (hallowed c hc)⟩
  rw [Group.allocationCount]
  omega

theorem mayJoin_join_elsewhere {i k : Nat} {h : Group} {t : Shift} :
    (rota.join i g k s).mayJoin criteria h t = rota.mayJoin criteria h t := rfl

theorem Settled.join {i j k : Nat} (hsettled : Settled criteria j rota) (hne : k ≠ j)
    (hgroup : rota.groups[i]? = some g) : Settled criteria j (rota.join i g k s) := by
  intro t ht hroom h hh
  rw [Rota.join, List.getElem?_set_ne hne] at ht
  rw [mayJoin_join_elsewhere]
  -- Only the group that was picked has changed, and it holds one shift more.
  rcases List.mem_or_eq_of_mem_set hh with hh | rfl
  · exact hsettled t ht hroom h hh
  · refine Bool.eq_false_iff.mpr fun hjoin => ?_
    have hno := hsettled t ht hroom g (List.mem_of_getElem? hgroup)
    exact Bool.false_ne_true (hno.symm.trans (mayJoin_of_mayJoin_take hjoin))

theorem Settled.picks {j : Nat} (hsettled : Settled criteria j rota)
    (hpicks : Picks criteria positions rota after) (hj : j ∉ positions) :
    Settled criteria j after := by
  induction hpicks with
  | refl => exact hsettled
  | tail _ hpick ih =>
      obtain ⟨k, hk, hpick⟩ := hpick
      obtain ⟨hgroup, -, -, -⟩ := hpick
      exact ih.join (fun heq => hj (heq ▸ hk)) hgroup

theorem allocate_settled (h : rota.allocate policy = .ok after) (j : Nat) :
    Settled policy.criteria j after := by
  cases hshift : rota.shifts[j]? with
  | none =>
      intro s hs
      obtain ⟨before, hbefore, -⟩ := exists_shift_of_index (allocate_picks h).blank_eq hs
      simp [hshift] at hbefore
  | some s =>
      obtain ⟨_, later, middle, -, hsettled, hlater, -, hafter⟩ := allocate_split h hshift
      exact hsettled.picks hlater fun hmem => (hafter j hmem).1 rfl

theorem Settled.fillShift_eq {j : Nat} (hsettled : Settled policy.criteria j rota) :
    fillShift policy rota j = .ok rota := by
  cases hshift : rota.shifts[j]? with
  | none =>
      have hlead : fillLead policy j rota = .ok rota := by simp [fillLead, hshift]
      exact bind_eq_ok.mpr ⟨rota, hlead, fillMembers_absent hshift⟩
  | some s =>
      cases hroom : s.isFull with
      | true => exact fillShift_full hshift hroom
      | false =>
          have hnone := (settled_iff_eligible_eq_nil hshift hroom).mp hsettled
          have hleads : rota.eligibleLeads policy.criteria s = [] := by
            refine List.eq_nil_iff_forall_not_mem.mpr fun i hi => ?_
            obtain ⟨g, hgroup, htest⟩ := mem_positionsWhere.mp hi
            have hmem : i ∈ rota.eligible policy.criteria s :=
              mem_positionsWhere.mpr ⟨g, hgroup, (Bool.and_eq_true _ _ ▸ htest).2⟩
            simp [hnone] at hmem
          have hlead : fillLead policy j rota = .ok rota := by
            have hranked : rota.ranked policy s [] = .ok [] := rfl
            simp only [fillLead, hshift, hleads, hranked]
            split <;> rfl
          exact bind_eq_ok.mpr ⟨rota, hlead, fillMembers_idle hshift hnone⟩

theorem fillShifts_eq_of_settled {order : List Nat}
    (hsettled : ∀ j, Settled policy.criteria j rota) :
    order.foldlM (fillShift policy) rota = .ok rota := by
  induction order with
  | nil => rfl
  | cons j rest ih =>
      rw [List.foldlM_cons]
      exact bind_eq_ok.mpr ⟨rota, (hsettled j).fillShift_eq, ih⟩

/-- A second run with the same criteria changes nothing, under whatever tie-break rule. -/
theorem allocate_again {first second : TieBreak}
    (h : rota.allocate ⟨criteria, first⟩ = .ok after) :
    after.allocate ⟨criteria, second⟩ = .ok after := by
  have hsettled : ∀ j, Settled criteria j after := allocate_settled h
  exact fillShifts_eq_of_settled hsettled

end Rota

open Sample in
theorem allocate_again_sample :
    start.allocate ⟨[⟨.noDoubleShifts, .one⟩], .largestFirst⟩ = .ok final ∧ start ≠ final ∧
      final.allocate ⟨[⟨.noDoubleShifts, .one⟩], .smallestFirst⟩ = .ok final :=
  ⟨allocate_start, by decide, Rota.allocate_again allocate_start⟩

end Rostering
