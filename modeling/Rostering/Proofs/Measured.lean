import Rostering.Proofs.Decisions
import Rostering.Proofs.Moments
import Rostering.Proofs.Scores

namespace Rostering

/-! Every rota that a run comes to is measured, so the run goes on: nobody counts twice on a shift,
and no group holds more shifts than there are. -/

open Resolution in
/-- Groups with different keys share nobody. -/
theorem Shift.headcount_le {volunteers : List Volunteer} {placements : List Placement}
    (hkeys : (placements.map Placement.groupKey).Nodup)
    (hsize : ∀ p ∈ placements, p.size = (membersOf volunteers p.groupKey).length) :
    headcount placements ≤ volunteers.length := by
  induction placements generalizing volunteers with
  | nil => exact Nat.zero_le _
  | cons p rest ih =>
      obtain ⟨hfresh, hrest⟩ := List.nodup_cons.mp hkeys
      -- The induction goes on with the people of all other groups.
      let others := volunteers.filter fun v => !(v.effectiveKey == p.groupKey)
      have hothers : ∀ q ∈ rest, q.size = (membersOf others q.groupKey).length := by
        intro q hq
        have hne : q.groupKey ≠ p.groupKey := fun heq => hfresh (heq ▸ List.mem_map_of_mem hq)
        rw [hsize q (by simp [hq]), membersOf, membersOf, List.filter_filter]
        congr 1
        refine List.filter_congr fun v _ => ?_
        by_cases hv : v.effectiveKey = q.groupKey
        · simp [hv, hne]
        · simp [hv]
      have hsplit := List.length_eq_length_filter_add (l := volunteers)
        fun v => v.effectiveKey == p.groupKey
      have hhead := hsize p (by simp)
      have htail := ih hrest hothers
      rw [membersOf] at hhead
      change p.size + headcount rest ≤ volunteers.length
      change _ = _ + others.length at hsplit
      omega

theorem Shift.countMen_le {placements : List Placement}
    (hmen : ∀ p ∈ placements, 0 ≤ p.maleCount ∧ p.maleCount ≤ p.size) :
    0 ≤ countMen placements ∧ countMen placements ≤ headcount placements := by
  induction placements with
  | nil => exact ⟨Int.le_refl 0, Int.le_refl 0⟩
  | cons p rest ih =>
      have hhead := hmen p (by simp)
      have htail := ih fun q hq => hmen q (by simp [hq])
      change 0 ≤ p.maleCount + countMen rest ∧
        p.maleCount + countMen rest ≤ (p.size + headcount rest : Nat)
      omega

theorem length_le_of_range {indices : List Int} {bound : Nat} (hnodup : indices.Nodup)
    (hrange : ∀ i ∈ indices, 0 ≤ i ∧ i < bound) : indices.length ≤ bound := by
  have hsubset : indices ⊆ (List.range bound).map Int.ofNat := by
    intro i hi
    obtain ⟨h0, hlt⟩ := hrange i hi
    exact List.mem_map.mpr ⟨i.toNat, List.mem_range.mpr (by omega), by simp [h0]⟩
  simpa using (hnodup.subperm hsubset).length_le

namespace Request.Prepares

open Rota

variable {request : Request} {start between : Rota} {criteria : List Criterion}
  {positions : List Nat}

theorem placements_eq_nil (hprepares : request.Prepares start) {s : Shift}
    (hs : s ∈ start.shifts) : s.placements = [] := by
  obtain ⟨j, hj⟩ := List.getElem?_of_mem hs
  rw [← (hprepares.prepared j s hj).blank_eq]
  rfl

section

variable (hprepares : request.Prepares start) (hpicks : Picks criteria positions start between)
include hprepares hpicks

theorem resolved_blank {g : Group} (hg : g ∈ between.groups) :
    Resolution.Resolved request.volunteers request.responses request.dates.length request.history
      g.blank := by
  have hblank : between.blank = start := hpicks.blank_eq.trans hprepares.blank_eq
  exact hprepares.resolved _ (hblank ▸ List.mem_map_of_mem hg)

theorem men_bounds {s : Shift} (hs : s ∈ between.shifts) :
    0 ≤ s.maleCount ∧ s.maleCount ≤ request.volunteers.length := by
  have hsound := (hprepares.coherent.picks hpicks).shift_sound s hs
  have hplaced : ∀ p ∈ s.placements, ∃ g ∈ between.groups, p = .ofGroup g := by
    refine hpicks.placed (fun t ht p hp => ?_) s hs
    simp [hprepares.placements_eq_nil ht] at hp
  have hmen : ∀ p ∈ s.placements, 0 ≤ p.maleCount ∧ p.maleCount ≤ p.size := by
    intro p hp
    obtain ⟨g, -, rfl⟩ := hplaced p hp
    have hcount : g.maleCount ≤ g.size := List.countP_le_length
    rw [Placement.size_ofGroup]
    exact ⟨Int.natCast_nonneg _, Int.ofNat_le.mpr hcount⟩
  have hsize : ∀ p ∈ s.placements,
      p.size = (Resolution.membersOf request.volunteers p.groupKey).length := by
    intro p hp
    obtain ⟨g, hg, rfl⟩ := hplaced p hp
    have hmembers : g.members = _ := (hprepares.resolved_blank hpicks hg).members_eq
    rw [Placement.size_ofGroup, Group.size, hmembers]
    rfl
  have hcount := Shift.countMen_le hmen
  have hpeople := Shift.headcount_le hsound.keys_nodup hsize
  rw [hsound.maleCount_eq]
  omega

theorem available_range {g : Group} (hg : g ∈ between.groups) {i : Int} (hi : i ∈ g.available) :
    0 ≤ i ∧ i < between.shifts.length := by
  have hresolved := hprepares.resolved_blank hpicks hg
  change i ∈ g.blank.available at hi
  rw [(Resolution.judge_eq_ok_iff.mp hresolved.judged).2.2.2,
    Resolution.mem_availableShifts_iff] at hi
  rw [shifts_length_eq_of_blank_eq hpicks.blank_eq, hprepares.shifts_length]
  exact ⟨hi.1, hi.2.1⟩

theorem measured : between.Measured request.volunteers.length := by
  have hcoherent := hprepares.coherent.picks hpicks
  have hheld : ∀ g ∈ between.groups, ∀ i ∈ g.allocated, 0 ≤ i ∧ i < between.shifts.length :=
    fun g hg i hi => hprepares.available_range hpicks hg
      ((hcoherent.group_sound g hg).available i hi)
  constructor
  case index =>
    intro s hs
    obtain ⟨j, hj⟩ := List.getElem?_of_mem hs
    have hbound := (List.getElem?_eq_some_iff.mp hj).1
    rw [hprepares.index_eq hpicks.blank_eq hj]
    omega
  case men =>
    intro s hs
    have hmen := hprepares.men_bounds hpicks hs
    omega
  case held => exact hheld
  case count =>
    intro g hg
    exact length_le_of_range (hcoherent.group_sound g hg).nodup (hheld g hg)

end

/-- A run stops only for want of range, and only if it is oversized. -/
theorem run_faults (hprepares : request.Prepares start) (htarget : start.target.IsTarget)
    (policy : Policy) (order : List Nat) :
    FaultsOnly (start.Outranged request.volunteers.length)
      (order.foldlM (fillShift policy) start) := by
  refine fillShifts_faults
    (I := fun between => ∃ positions, Picks policy.criteria positions start between) ?_ ?_
    ⟨[], .refl⟩ order
  · rintro before next j hpick ⟨positions, hpicks⟩
    exact ⟨j :: positions, (hpicks.mono (List.subset_cons_self j positions)).tail
      ⟨j, List.mem_cons_self, hpick⟩⟩
  · rintro between ⟨positions, hpicks⟩ s hs candidates
    have hblank := hpicks.blank_eq
    have htarget' : between.target.IsTarget := target_eq_of_blank_eq hblank ▸ htarget
    refine (ranked_faults (hprepares.measured hpicks) htarget' hs candidates).mono ?_
    rintro fault ⟨hrange, hlarge⟩
    rw [Rota.Oversized, Rota.Overlong, history_eq_of_blank_eq hblank,
      shifts_length_eq_of_blank_eq hblank] at hlarge
    exact ⟨hrange, hlarge⟩

end Request.Prepares

end Rostering
