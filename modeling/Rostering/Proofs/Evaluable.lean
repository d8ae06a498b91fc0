import Rostering.Proofs.Concentration
import Rostering.Proofs.Decisions
import Rostering.Proofs.Measured
import Rostering.Proofs.Summaries

namespace Rostering

/-! Generated rotas can be summed up and evaluated: what their groups got and are owed, and the
statistics of it, stay in the range of doubles as long as the shifts and the people themselves are
far from the end of it. -/

open Binary64 in
/-- Rounding makes no more than a few shifts of each. -/
theorem targetAllocations_le_mul {target : Number} (htarget : target.IsTarget) {count : Nat}
    (hcount : count ≤ safeCount) {due : Int} (h : targetAllocations 0 count target = .ok due) :
    0 ≤ due ∧ due ≤ 4 * (count + 1) := by
  refine ⟨(targetAllocations_le htarget hcount h).1, ?_⟩
  cases target with
  | int share =>
      obtain rfl := htarget.int_eq
      obtain rfl : (0 + count : Int) * 1 = due := Except.ok.inj h
      omega
  | real share =>
      obtain ⟨x, hreal, hfrequency⟩ := htarget
      obtain rfl : share = x := Except.ok.inj hreal
      obtain ⟨steps, rfl, hsteps⟩ := Fairness.finite_of_isFrequency hfrequency
      obtain ⟨least, hleast, hle, -⟩ := Number.exists_count hcount
      simp only [targetAllocations, Number.mul, Number.combine, Number.toReal, bind_eq_ok,
        pure_eq_ok, Int.zero_add, hleast] at h
      obtain ⟨_, ⟨_, ⟨-⟩, _, ⟨-⟩, rfl⟩, hfloor⟩ := h
      have hproduct : roundSteps (least * steps) stepsPerUnit ≤ 2 * least + 1 := by
        have hshare : least * steps / stepsPerUnit ≤ least := by
          refine Nat.div_le_of_le_mul ?_
          rw [Nat.mul_comm stepsPerUnit]
          exact Nat.mul_le_mul_left least hsteps
        have hround := roundSteps_le (least * steps) stepsPerUnit
        omega
      have hwhole : roundSteps (least * steps) stepsPerUnit / stepsPerUnit ≤ 4 * (count + 1) := by
        have hunit := stepsPerUnit_pos
        have hover : stepsPerUnit * (4 * (count + 1)) =
            4 * (count * stepsPerUnit) + 4 * stepsPerUnit := by ring
        refine Nat.div_le_of_le_mul ?_
        rw [hover]
        omega
      change Number.floor (.real (ofSteps false (least * steps) stepsPerUnit)) = .ok due at hfloor
      rw [ofSteps] at hfloor
      split at hfloor
      · have hdue : (roundSteps (least * steps) stepsPerUnit : Int).fdiv stepsPerUnit = due :=
          Except.ok.inj hfloor
        rw [Int.fdiv_eq_ediv_of_nonneg _ (Int.natCast_nonneg _), ← Int.natCast_ediv] at hdue
        omega
      · cases hfloor

open Fairness in
/-- The rows of a rota whose groups can be counted for certain. -/
theorem Fairness.exists_overview {rota : Rota} (htarget : rota.target.IsTarget) {most : Nat}
    (hshifts : rota.history.length + rota.shifts.length ≤ most) (hsafe : most ≤ safeCount)
    (htotal : ∀ g ∈ rota.groups, 0 ≤ g.historicalCount ∧ g.totalCount ≤ most) :
    ∃ rows, overview rota = .ok rows ∧ rows.length = rota.groups.length ∧
      ∀ row ∈ rows, row.count ≤ most ∧ row.desiredRemaining.natAbs ≤ 4 * (most + 1) := by
  obtain ⟨due, hdue⟩ | ⟨-, hover⟩ :=
    targetAllocations_ok_or htarget rota.history.length rota.shifts.length
  · have hlimits : 0 ≤ due ∧ due ≤ 4 * ((rota.history.length + rota.shifts.length : Nat) + 1) := by
      refine targetAllocations_le_mul htarget (Nat.le_trans hshifts hsafe) ?_
      rw [targetAllocations, Int.zero_add, Int.natCast_add]
      exact hdue
    let row (g : Group) : Row :=
      { groupKey := g.key
        members := g.memberIds
        historical := g.historicalCount
        shifts := ascendingIndices g.allocated
        count := g.allocationCount
        availableCount := g.available.size
        desiredRemaining := due - g.totalCount
        remainingCapacity := g.remainingCapacity rota.cap }
    have hrow : ∀ g ∈ rota.groups, rowOf rota g = .ok (row g) := by
      intro g _
      rw [rowOf, Rota.desiredRemaining, desiredRemaining, hdue]
      rfl
    have hrows : rota.groups.mapM (rowOf rota) = .ok (rota.groups.map row) := by
      have hmapM := mapM_map_eq_pure (m := Except Fault) hrow
      rwa [List.map_id'] at hmapM
    have hperm := List.mergeSort_perm (rota.groups.map row) Row.before
    refine ⟨_, bind_eq_ok.mpr ⟨_, hrows, rfl⟩, ?_, fun r hr => ?_⟩
    · rw [hperm.length_eq, List.length_map]
    · obtain ⟨g, hg, rfl⟩ := List.mem_map.mp (hperm.mem_iff.mp hr)
      obtain ⟨hbefore, hall⟩ := htotal g hg
      rw [Group.totalCount] at hall
      change g.allocationCount ≤ most ∧ (due - (g.historicalCount + _)).natAbs ≤ 4 * (most + 1)
      omega
  · omega

section

open Evaluation Summary

variable {rows : List Fairness.Row} {most : Nat}

/-- What one field says of all groups, as doubles. -/
theorem exists_readings (name : String) {field : Fairness.Row → Int} (hmost : most ≤ safeCount)
    (hfield : ∀ row, lookup (ofFairnessRow row) name 0 = .ok (.number (.int (field row))))
    (hrows : ∀ row ∈ rows, (field row).natAbs ≤ most) :
    ∃ xs : List Binary64, (rows.map ofFairnessRow).mapM (fun row => do
        return Number.real (← (← lookup row name 0).toReal)) = .ok (xs.map .real) ∧
      xs.length = rows.length ∧ ∀ x ∈ xs, x.Within (2 * (most * Binary64.stepsPerUnit) + 1) := by
  rw [← List.length_map ofFairnessRow]
  refine Number.exists_reals fun record hrecord => ?_
  obtain ⟨row, hrow, rfl⟩ := List.mem_map.mp hrecord
  obtain ⟨x, hx, hwithin⟩ := Binary64.exists_within hmost (hrows row hrow)
  exact ⟨x, bind_eq_ok.mpr ⟨_, hfield row, bind_eq_ok.mpr ⟨x, hx, rfl⟩⟩, hwithin⟩

theorem exists_fairness (hmost : 16 * (most + 1) ≤ safeCount)
    (hrows : ∀ row ∈ rows, row.count ≤ most ∧ row.desiredRemaining.natAbs ≤ most)
    (hfew : rows.length < safeCount) :
    ∃ fairness, fairnessOf (rows.map ofFairnessRow) = .ok fairness := by
  have hbound : 4 * (2 * (most * Binary64.stepsPerUnit) + 1) ≤ Binary64.safeSteps := by
    have hunits := Nat.mul_le_mul_right Binary64.stepsPerUnit hmost
    have hunit := Binary64.stepsPerUnit_pos
    rw [← Binary64.safeSteps, Nat.mul_assoc, Nat.add_mul, Nat.one_mul] at hunits
    omega
  obtain ⟨counts, hcounts, hlength, hcountsWithin⟩ := exists_readings "allocation_count"
    (by omega) (fun _ => rfl) fun row hrow => (Int.natAbs_natCast row.count).trans_le (hrows row hrow).1
  obtain ⟨owed, howed, -, howedWithin⟩ := exists_readings "desired_remaining"
    (by omega) (fun _ => rfl) fun row hrow => (hrows row hrow).2
  obtain ⟨share, hshare⟩ := Fairness.exists_gini (hlength ▸ hfew)
  obtain ⟨spread, hspread⟩ := exists_distribution hcountsWithin hbound
  obtain ⟨due, hdue⟩ := exists_distribution howedWithin hbound
  have hnever : ∀ row ∈ rows, isNeverAllocated (ofFairnessRow row) =
      .ok ((Number.int row.count).isZero && isPositive (.int row.availableCount)) := by
    intro row _
    change (if (Number.int row.count).isZero then
      Except.ok (isPositive (.int row.availableCount)) else .ok false) = _
    cases (Number.int row.count).isZero <;> rfl
  simp only [fairnessOf, bind_eq_ok]
  exact ⟨_, _, hcounts, _, howed, _, hshare, _, hspread, _, hdue, _, filterM_map_eq_ok hnever, rfl⟩

end

theorem Summary.exists_metrics (rota : Rota) : ∃ record, metrics rota = .ok record := by
  have hfull : rota.shifts.countP Shift.isFull ≤ rota.shifts.length := List.countP_le_length
  obtain ⟨rate, hrate⟩ : ∃ share, Number.percentage
      (.int (rota.shifts.countP Shift.isFull)) (.int rota.shifts.length) = .ok share :=
    Number.exists_percentage (by omega)
  exact ⟨_, bind_eq_ok.mpr ⟨rate, hrate, rfl⟩⟩

/-- So few shifts, those of the history included, and so few people that all that an evaluation
makes of them can be counted for certain. -/
structure Request.Countable (request : Request) : Prop where
  shifts : 128 * (request.history.length + request.dates.length + 1) ≤ safeCount
  people : request.volunteers.length < safeCount

section

variable {request : Request} {outcome : Outcome}

open Resolution in
theorem generate_decided (h : generate request = .ok outcome) :
    Decided request.volunteers request.responses request.dates.length request.history
      outcome.rota.blank.groups outcome.report := by
  simp only [generate, generateUnder, bind_eq_ok, pure_eq_ok] at h
  obtain ⟨⟨start, report⟩, hprepare, _, -, rota, hallocate, rfl⟩ := h
  have hblank := (Rota.allocate_picks hallocate).blank_eq
  change Decided _ _ _ _ rota.blank.groups report
  rw [hblank, (Request.prepare_ok hprepare).blank_eq]
  simp only [Request.prepare, bind_eq_ok, pure_eq_ok] at hprepare
  obtain ⟨_, -, ⟨groups, _⟩, hresolve, shifts, -, hpair⟩ := hprepare
  obtain ⟨rfl, rfl⟩ := Prod.mk.inj hpair
  exact decided_of_resolve hresolve

theorem generate_keys_eq (h : generate request = .ok outcome) :
    outcome.rota.groups.map Group.key = outcome.report.eligible := by
  rw [← (generate_decided h).keys_eq, Rota.blank, List.map_map]
  rfl

theorem generate_underfilled (h : generate request = .ok outcome) :
    outcome.underfilled = outcome.rota.underfilled := by
  obtain ⟨_, -, -, houtcome⟩ := generate_ok h
  rw [houtcome]
  rfl

/-- Each group has somebody of its own. -/
theorem generate_groups_length_le (h : generate request = .ok outcome) :
    outcome.rota.groups.length ≤ request.volunteers.length := by
  have hdecided := generate_decided h
  have hnodup : outcome.report.eligible.Nodup := (List.nodup_append.mp hdecided.each_once).1
  have hsubset : outcome.report.eligible ⊆ request.volunteers.map Volunteer.effectiveKey :=
    fun key hkey => ((hdecided.eligible key).mp hkey).1
  have hle := (hnodup.subperm hsubset).length_le
  rw [← generate_keys_eq h] at hle
  simpa using hle

theorem generate_totalCount_le (h : generate request = .ok outcome) {g : Group}
    (hg : g ∈ outcome.rota.groups) : 0 ≤ g.historicalCount ∧
      g.totalCount ≤ (request.history.length + request.dates.length : Nat) := by
  obtain ⟨start, hprepares, hallocate, -⟩ := generate_ok h
  have hpicks := Rota.allocate_picks hallocate
  have hworked : g.historicalCount = Resolution.countWorked request.history g.key :=
    (hprepares.resolved_blank hpicks hg).historicalCount_eq
  have hhistory : Resolution.countWorked request.history g.key ≤ request.history.length :=
    List.countP_le_length
  have hcount := (hprepares.measured hpicks).count g hg
  rw [Rota.shifts_length_eq_of_blank_eq hpicks.blank_eq, hprepares.shifts_length] at hcount
  rw [Group.totalCount, hworked]
  omega

theorem exists_evaluation (h : generate request = .ok outcome) (hcountable : request.Countable) :
    ∃ out rep, outcome.summary = .ok out ∧ evaluate out = .ok rep := by
  obtain ⟨hshifts, hpeople⟩ := hcountable
  have hprepares := generate_prepares h
  have hlength : outcome.rota.history.length + outcome.rota.shifts.length ≤
      request.history.length + request.dates.length := by
    rw [← hprepares.history_eq, ← hprepares.shifts_length, Rota.blank, List.length_map]
  obtain ⟨rows, hoverview, hgroups, hrows⟩ := Fairness.exists_overview (generate_target h) hlength
    (by omega) fun g hg => generate_totalCount_le h hg
  obtain ⟨fairness, hfairness⟩ : ∃ fairness,
      Evaluation.fairnessOf (rows.map Summary.ofFairnessRow) = .ok fairness := by
    -- What is owed is the larger of the two counts.
    have hmost : ∀ row ∈ rows,
        row.count ≤ 4 * (request.history.length + request.dates.length + 1) ∧
          row.desiredRemaining.natAbs ≤ 4 * (request.history.length + request.dates.length + 1) := by
      intro row hrow
      obtain ⟨hcount, howed⟩ := hrows row hrow
      exact ⟨by omega, howed⟩
    refine exists_fairness (by omega) hmost ?_
    rw [hgroups]
    exact Nat.lt_of_le_of_lt (generate_groups_length_le h) hpeople
  obtain ⟨metrics, hmetrics⟩ := Summary.exists_metrics outcome.rota
  obtain ⟨out, hsummary⟩ : ∃ out, outcome.summary = .ok out :=
    ⟨_, bind_eq_ok.mpr ⟨metrics, hmetrics, bind_eq_ok.mpr ⟨rows, hoverview, rfl⟩⟩⟩
  obtain ⟨rows', complete, hrows', -, hevaluate⟩ :=
    evaluate_summary (generate_coherent h).shift_sound (generate_underfilled h) hsummary
  obtain rfl : rows = rows' := Except.ok.inj (hoverview.symm.trans hrows')
  rw [hfairness] at hevaluate
  exact ⟨out, complete fairness, hsummary, hevaluate⟩

end

end Rostering
