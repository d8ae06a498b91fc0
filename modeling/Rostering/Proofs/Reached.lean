import Rostering.Proofs.Refusals

namespace Rostering

/-! The rotas that generating comes to on its way. -/

open Rota in
/-- Generating comes to a rota while it fills the shift at a position: the shifts before it are
done with, and some groups have been chosen for it. -/
def Request.Reaches (request : Request) (j : Nat) (rota : Rota) : Prop :=
  ∃ start report filled, request.prepare = .ok (start, report) ∧
    (List.range j).foldlM (fillShift request.policy) start = .ok filled ∧
    Choices request.policy j filled rota

/-- The outcome is what a run comes to once all shifts are done with. -/
theorem generate_reaches {request : Request} {outcome : Outcome}
    (h : generate request = .ok outcome) : request.Reaches request.dates.length outcome.rota := by
  obtain ⟨start, report, final, hprepare, hfill, rfl⟩ := generate_eq_ok_iff.mp h
  exact ⟨start, report, final, hprepare, hfill, .refl⟩

namespace Request.Reaches

open Rota

variable {request : Request} {j : Nat} {rota : Rota}

theorem exists_picks (h : request.Reaches j rota) :
    ∃ start, request.Prepares start ∧ start.target.IsTarget ∧
      Picks request.policy.criteria (List.range (j + 1)) start rota := by
  obtain ⟨start, report, filled, hprepare, hfill, hchoices⟩ := h
  refine ⟨start, Request.prepare_ok hprepare, Request.prepare_target hprepare, ?_⟩
  have hsubset : List.range j ⊆ List.range (j + 1) := by
    intro k hk
    rw [List.mem_range] at hk ⊢
    omega
  exact ((fillShifts_picks hfill).mono hsubset).trans (hchoices.picks.mono (by simp))

theorem coherent (h : request.Reaches j rota) : rota.Coherent := by
  obtain ⟨start, hprepares, -, hpicks⟩ := h.exists_picks
  exact hprepares.coherent.picks hpicks

theorem measured (h : request.Reaches j rota) : rota.Measured request.volunteers.length := by
  obtain ⟨start, hprepares, -, hpicks⟩ := h.exists_picks
  exact hprepares.measured hpicks

theorem available_size_le (h : request.Reaches j rota) {g : Group} (hg : g ∈ rota.groups) :
    g.available.size ≤ rota.shifts.length := by
  obtain ⟨start, hprepares, -, hpicks⟩ := h.exists_picks
  exact length_le_of_range g.available.nodup fun i hi => hprepares.available_range hpicks hg hi

theorem isTarget (h : request.Reaches j rota) : rota.target.IsTarget := by
  obtain ⟨start, -, htarget, hpicks⟩ := h.exists_picks
  exact target_eq_of_blank_eq hpicks.blank_eq ▸ htarget

theorem maleCount_nonneg (h : request.Reaches j rota) {s : Shift} (hs : s ∈ rota.shifts) :
    0 ≤ s.maleCount := by
  obtain ⟨start, hprepares, -, hpicks⟩ := h.exists_picks
  exact (hprepares.men_bounds hpicks hs).1

theorem historicalCount_eq (h : request.Reaches j rota) {g : Group} (hg : g ∈ rota.groups) :
    g.historicalCount = Resolution.countWorked rota.history g.key := by
  obtain ⟨start, hprepares, -, hpicks⟩ := h.exists_picks
  rw [history_eq_of_blank_eq hpicks.blank_eq, hprepares.history_eq]
  exact (hprepares.resolved_blank hpicks hg).historicalCount_eq

end Request.Reaches

end Rostering
