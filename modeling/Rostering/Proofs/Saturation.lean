import Rostering.Proofs.Moments
import Rostering.Proofs.Spacing

namespace Rostering

/-! A generated rota leaves no seat empty that it could have filled. A group is passed over at the
moment when the run is done with a shift; what it held then is what it holds of earlier shifts in
the end, so the reason outlives the rest of the run. -/

namespace Rota

variable {rota after : Rota} {policy : Policy} {g : Group} {s : Shift}

theorem Coherent.position_eq (hcoherent : rota.Coherent) {j k : Nat} {t : Shift}
    (hshift : rota.shifts[j]? = some s) (hother : rota.shifts[k]? = some t)
    (hindex : t.index = s.index) : k = j := by
  refine (List.getElem?_inj ?_ hcoherent.indices_nodup).mp ?_
  · simpa using (List.getElem?_eq_some_iff.mp hother).1
  · simp [hshift, hother, hindex]

/-- When a run is done with a shift, each group holds just those of its shifts that come before it,
and if the shift still has room then no other group may join it. -/
theorem allocate_moment (hcoherent : rota.Coherent)
    (hempty : ∀ g ∈ rota.groups, g.allocated = []) (h : rota.allocate policy = .ok after)
    (hs : s ∈ after.shifts) (hroom : s.isFull = false) (hg : g ∈ after.groups)
    (hoff : g.key ∉ s.groupKeys) :
    ∃ middle : Rota, middle.blank = rota.blank ∧
      middle.mayJoin policy.criteria (g.before s.index) s = false := by
  obtain ⟨j, hj⟩ := List.getElem?_of_mem hs
  obtain ⟨i, hi⟩ := List.getElem?_of_mem hg
  obtain ⟨first, hfirst, hindex⟩ := exists_shift_of_index (allocate_picks h).blank_eq hj
  obtain ⟨sofar, later, middle, hsofar, hsettled, hlater, hbefore, hafter⟩ :=
    allocate_split h hfirst
  have hshift : middle.shifts[j]? = some s := by
    rw [← hlater.shift_eq fun hmem => (hafter j hmem).1 rfl, hj]
  obtain ⟨m, hm, hsame⟩ := exists_group_of_blank_eq hlater.blank_eq hi
  have hmem := List.mem_of_getElem? hm
  have hnot : s.index ∉ m.allocated := by
    have hkey : m.key = g.key := by
      simpa [Group.blank] using congrArg Group.key hsame
    rw [(hcoherent.picks hsofar).linked m hmem s (List.mem_of_getElem? hshift), hkey]
    exact hoff
  -- So far only shifts up to this one were picked for, and the group is not on this one.
  have hearly : ∀ k ∈ m.allocated, k < s.index := by
    intro k hk
    have hle := hsofar.allocated_le hempty hbefore m hmem k hk
    have hne : k ≠ first.index := fun heq => hnot (hindex ▸ heq ▸ hk)
    omega
  obtain ⟨g', added, hg', -, hadded, haddedAt⟩ := hlater.allocated_eq_append hm
  obtain rfl : g' = g := Option.some.inj (hg'.symm.trans hi)
  -- What is picked for later has a larger index: a run takes each shift once, in order.
  have hlate : ∀ k ∈ added, s.index < k := by
    intro k hk
    obtain ⟨_, hposition, u, hu, rfl⟩ := haddedAt k hk
    obtain ⟨t, ht, hsame⟩ := exists_shift_of_index hsofar.blank_eq hu
    obtain ⟨hne, hle⟩ := hafter _ hposition
    have hle := hle t ht
    have hne : t.index ≠ first.index := fun heq => hne (hcoherent.position_eq hfirst ht heq)
    omega
  obtain rfl := Group.eq_before hsame hadded hearly fun k hk => Int.le_of_lt (hlate k hk)
  exact ⟨middle, hsofar.blank_eq, hsettled s hshift hroom _ hmem⟩

end Rota

variable {request : Request} {outcome : Outcome}

/-- Where a generated rota leaves room on a shift, every group that is not on it could not have
joined it: it is not free, has its fill of earlier shifts, would bring a second lead, is too large,
or would work a double shift. -/
theorem empty_seats_unfillable (h : generate request = .ok outcome) :
    ∀ s ∈ outcome.rota.shifts, s.isFull = false →
      ∀ g ∈ outcome.rota.groups, g.key ∉ s.groupKeys →
        s.index ∉ g.available ∨
        request.cap ≤ (g.allocated.filter fun i => decide (i < s.index)).length ∨
        (g.hasTeamLead = true ∧ s.teamLead.isSome = true) ∨
        s.size - s.currentSize < g.size ∨
        (∃ c ∈ request.policy.criteria, c.kind = .noDoubleShifts) ∧
          (s.index - 1 ∈ g.allocated ∨
            s.index = 0 ∧ ∃ worked, request.history.getLast? = some worked ∧
              g.key ∈ worked.groupKeys) := by
  intro s hs hroom g hg hoff
  obtain ⟨start, hprepares, hallocate, -⟩ := generate_ok h
  obtain ⟨middle, hblank, hrefused⟩ :=
    Rota.allocate_moment hprepares.coherent hprepares.allocated_eq_nil hallocate hs hroom hg hoff
  have hcap : middle.cap = request.cap :=
    (Rota.cap_eq_of_blank_eq hblank).trans hprepares.cap_eq
  have hhistory : middle.history = request.history :=
    (Rota.history_eq_of_blank_eq hblank).trans hprepares.history_eq
  have hfree : s.index ∉ (g.before s.index).allocated :=
    fun hheld => Int.lt_irrefl _ (Group.mem_before.mp hheld).2
  rcases Rota.reason_of_mayJoin_eq_false hrefused hoff hfree with
    hclosed | hfilled | hlead | hlarge | ⟨hbarred, hdouble⟩
  · exact Or.inl hclosed
  · rw [hcap] at hfilled
    exact Or.inr (Or.inl hfilled)
  · exact Or.inr (Or.inr (Or.inl hlead))
  · exact Or.inr (Or.inr (Or.inr (Or.inl hlarge)))
  · refine Or.inr (Or.inr (Or.inr (Or.inr ⟨hbarred, ?_⟩)))
    by_contra hnone
    obtain ⟨hafter, hlast⟩ := not_or.mp hnone
    apply hdouble
    constructor
    case notLast =>
      intro hfirst
      refine Bool.eq_false_iff.mpr fun hworked => hlast ⟨hfirst, ?_⟩
      rwa [Rota.workedLast_iff, hhistory] at hworked
    case notAfter =>
      intro hheld
      exact hafter (Group.mem_before.mp hheld).1
    case notBefore =>
      intro hheld
      have hlt := (Group.mem_before.mp hheld).2
      omega

theorem empty_seats_unfillable_sample :
    ∃ outcome, generate Sample.input = .ok outcome ∧ outcome.rota = Sample.final ∧
      ∃ s ∈ outcome.rota.shifts, s.index = 0 ∧ s.isFull = false ∧
        ∃ g ∈ outcome.rota.groups, g.key = "individual_cy" ∧ g.key ∉ s.groupKeys ∧
          ∃ worked, Sample.input.history.getLast? = some worked ∧ g.key ∈ worked.groupKeys := by
  obtain ⟨outcome, h, hfinal⟩ := Sample.generate_input
  have hs : ⟨Sample.week 1, 0, 2, [], [], none, 0⟩ ∈ outcome.rota.shifts :=
    hfinal ▸ List.mem_cons_self
  have hg : ⟨"individual_cy", [Sample.cy], .ofList [0, 1, 2], [2], 1⟩ ∈ outcome.rota.groups :=
    hfinal ▸ List.mem_cons_self
  refine ⟨outcome, h, hfinal, _, hs, rfl, by decide, _, hg, rfl, by decide, ?_⟩
  rcases empty_seats_unfillable h _ hs (by decide) _ hg (by decide) with
    hclosed | hcap | hlead | hsize | ⟨-, hbefore | ⟨-, hworked⟩⟩
  · exact absurd hclosed (by decide)
  · exact absurd hcap (by decide)
  · exact absurd hlead (by decide)
  · exact absurd hsize (by decide)
  · exact absurd hbefore (by decide)
  · exact hworked

end Rostering
