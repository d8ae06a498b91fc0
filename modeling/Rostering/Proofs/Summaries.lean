import Rostering.Evaluation
import Rostering.Summary
import Rostering.Proofs.Headcounts
import Rostering.Proofs.SafeRange
import Mathlib.Algebra.Order.BigOperators.Group.List

namespace Rostering

/-! A summary read back. What an evaluation counts in the records of a rota is what the rota holds,
and only the spread of shifts over groups can keep an evaluation from coming to an end. -/

theorem filterM_map_eq_ok {w : α → β} {f : β → Except ε Bool} {p : α → Bool} {xs : List α}
    (h : ∀ x ∈ xs, f (w x) = .ok (p x)) : (xs.map w).filterM f = .ok ((xs.filter p).map w) := by
  have haux : ∀ kept, (xs.map w).filterAuxM f kept = .ok (((xs.filter p).map w).reverse ++ kept) := by
    induction xs with
    | nil => exact fun kept => rfl
    | cons x rest ih =>
        intro kept
        have hrest := ih fun y hy => h y (by simp [hy])
        rw [List.map_cons, List.filterAuxM, h x (by simp)]
        cases hp : p x with
        | true =>
            refine (hrest (w x :: kept)).trans ?_
            simp [hp]
        | false =>
            refine (hrest kept).trans ?_
            simp [hp]
  rw [List.filterM, haux []]
  simp [bind, Except.bind, pure, Except.pure]

namespace Number

theorem sum_ints (ns : List Int) : sum (ns.map int) = .ok (.int ns.sum) := by
  have hfold : ∀ start : Int, (ns.map int).foldlM add (.int start) = .ok (.int (start + ns.sum)) := by
    induction ns with
    | nil => simp
    | cons n rest ih =>
        intro start
        rw [List.map_cons, List.foldlM_cons, List.sum_cons, ← Int.add_assoc]
        exact ih (start + n)
  rw [sum, ← Int.zero_add ns.sum]
  exact hfold 0

theorem min_ints (m n : Int) : (int m).min (.int n) = .int (Min.min m n) := by
  change (if decide (n < m) = true then int n else int m) = _
  by_cases hlt : n < m
  · rw [if_pos (decide_eq_true hlt), Int.min_eq_right (Int.le_of_lt hlt)]
  · rw [if_neg (by simpa using hlt), Int.min_eq_left (Int.not_lt.mp hlt)]

theorem max_ints (m n : Int) : (int m).max (.int n) = .int (Max.max m n) := by
  change (if decide (m < n) = true then int n else int m) = _
  by_cases hlt : m < n
  · rw [if_pos (decide_eq_true hlt), Int.max_eq_right (Int.le_of_lt hlt)]
  · rw [if_neg (by simpa using hlt), Int.max_eq_left (Int.not_lt.mp hlt)]

theorem exists_percentage {part whole : Int} (hle : part.natAbs ≤ whole.natAbs) :
    ∃ share, percentage (.int part) (.int whole) = .ok share := by
  rw [percentage]
  split
  · exact ⟨_, rfl⟩
  · next hwhole =>
      have hne : whole ≠ 0 := by simpa [isZero] using hwhole
      have hsteps : part.natAbs * Binary64.stepsPerUnit ≤
          Binary64.safeSteps * whole.natAbs := by
        have hone : Binary64.stepsPerUnit ≤ Binary64.safeSteps := by decide +kernel
        rw [Nat.mul_comm Binary64.safeSteps]
        exact Nat.mul_le_mul hle hone
      have hdiv : ∃ x, (int part).div (.int whole) = .ok x := by
        rw [div, if_neg hne, Binary64.ofRatio, Binary64.ofQuotient,
          Binary64.ofSteps_eq_finite (Int.natAbs_pos.mpr hne) hsteps]
        exact ⟨_, rfl⟩
      obtain ⟨x, hx⟩ := hdiv
      have hhundred : ∃ y, (real x).mul 100 = .ok y := by
        have hscored := Scored.combine_int (· * ·) Binary64.mul x 100
        change Scored _ ((real x).mul 100) at hscored
        cases hmul : (real x).mul 100 with
        | ok y => exact ⟨y, rfl⟩
        | error fault =>
            rw [hmul] at hscored
            cases hscored with
            | overflow hlarge => exact absurd hlarge (by decide +kernel)
      obtain ⟨y, hy⟩ := hhundred
      refine ⟨y.roundTo 1, ?_⟩
      simp only [hx, bind, Except.bind, hy]
      rfl

end Number

/-- What an evaluation has counted on shifts. -/
structure Coverage.Counts (shifts : List Shift) (coverage : Coverage) : Prop where
  openShifts : coverage.openShifts = (shifts.filter Shift.isOpen).length
  closedShifts : coverage.closedShifts = shifts.length - (shifts.filter Shift.isOpen).length
  fullShifts : coverage.fullShifts = (shifts.filter Shift.isOpen).countP Shift.isFull
  seats : coverage.seats = .int ((shifts.filter Shift.isOpen).map Shift.size).sum
  filled : coverage.filled =
    .int ((shifts.filter Shift.isOpen).map fun s => (s.currentSize : Int)).sum

/-- What an evaluation of an outcome's summary has counted, fairness aside. -/
structure Evaluation.Counts (outcome : Outcome) (e : Evaluation) : Prop where
  coverage : e.coverage.Counts outcome.rota.shifts
  leads : e.leads.led + e.leads.unledDates.length = e.coverage.openShifts
  short : e.shortfall.count = outcome.underfilled.length
  missing : e.shortfall.missingSeats = .int (outcome.underfilled.map Shift.spare).sum
  eligible : e.eligible = outcome.report.eligible.length

open Evaluation Summary

namespace Summary

def shiftRecord (s : Shift) : Value := .record (ofShift s)

variable {shifts : List Shift}

theorem openShifts_records (shifts : List Shift) :
    openShifts (shifts.map shiftRecord) = .ok ((shifts.filter Shift.isOpen).map shiftRecord) :=
  filterM_map_eq_ok fun _ _ => rfl

theorem sum_mapM_eq_ok {w : α → Value} {f : Value → Except Fault Number} {n : α → Int} {xs : List α}
    (h : ∀ x ∈ xs, f (w x) = .ok (.int (n x))) :
    (do Number.sum (← (xs.map w).mapM f)) = .ok (.int (xs.map n).sum) := by
  rw [mapM_map_eq_pure h, ← Number.sum_ints, List.map_map]
  rfl

/-- On sound shifts the people on open shifts are counted as they are. -/
theorem coverageOf_records (hsound : ∀ s ∈ shifts, s.Sound) :
    ∃ coverage, coverageOf (shifts.map shiftRecord) = .ok coverage ∧ coverage.Counts shifts := by
  have hcounts : ∀ shiftRate seatRate, Coverage.Counts shifts
      { openShifts := (shifts.filter Shift.isOpen).length
        closedShifts := shifts.length - (shifts.filter Shift.isOpen).length
        fullShifts := (shifts.filter Shift.isOpen).countP Shift.isFull
        shiftRate
        seats := .int ((shifts.filter Shift.isOpen).map Shift.size).sum
        filled := .int ((shifts.filter Shift.isOpen).map fun s => (s.currentSize : Int)).sum
        seatRate } := fun _ _ => ⟨rfl, rfl, rfl, rfl, rfl⟩
  have hopen := openShifts_records shifts
  have hfits : ∀ s ∈ shifts.filter Shift.isOpen, (s.currentSize : Int) ≤ s.size :=
    fun s hs => (hsound s (List.mem_of_mem_filter hs)).size_le
  -- From here on nothing but the open shifts is read.
  generalize shifts.filter Shift.isOpen = opened at hopen hfits hcounts
  have hseats : (do Number.sum (← (opened.map shiftRecord).mapM fun (s : Value) => do
      (← s.field "size").toNumber)) = .ok (.int (opened.map Shift.size).sum) :=
    sum_mapM_eq_ok fun _ _ => rfl
  have hfilled : (do Number.sum (← (opened.map shiftRecord).mapM fun (s : Value) => do
      return (← lookupNumber s "current_size").min (← (← s.field "size").toNumber))) =
        .ok (.int (opened.map fun s => (s.currentSize : Int)).sum) := by
    refine sum_mapM_eq_ok fun s hs => ?_
    change Except.ok ((Number.int s.currentSize).min (.int s.size)) = _
    rw [Number.min_ints, Int.min_eq_left (hfits s hs)]
  have hfull : (opened.map shiftRecord).mapM (fun s => lookup s "is_full" .null) =
      .ok (opened.map fun s => .bool s.isFull) := mapM_map_eq_pure fun _ _ => rfl
  have hcount : (opened.map fun s => Value.bool s.isFull).countP Value.isTrue =
      opened.countP Shift.isFull := List.countP_map
  obtain ⟨shiftRate, hshiftRate⟩ : ∃ share, Number.percentage (.int (opened.countP Shift.isFull))
      (.int opened.length) = .ok share := by
    have hle : opened.countP Shift.isFull ≤ opened.length := List.countP_le_length
    exact Number.exists_percentage (by omega)
  obtain ⟨seatRate, hseatRate⟩ : ∃ share, Number.percentage
      (.int (opened.map fun s => (s.currentSize : Int)).sum)
        (.int (opened.map Shift.size).sum) = .ok share := by
    have hpeople : 0 ≤ (opened.map fun s => (s.currentSize : Int)).sum :=
      List.sum_nonneg fun n hn => by
        obtain ⟨s, -, rfl⟩ := List.mem_map.mp hn
        exact Int.natCast_nonneg _
    have hle := List.sum_le_sum hfits
    exact Number.exists_percentage (by omega)
  refine ⟨_, ?_, hcounts shiftRate seatRate⟩
  simp only [coverageOf, hopen, bind_eq_ok, pure_eq_ok] at hseats hfilled ⊢
  obtain ⟨sizes, hsizes, hseats⟩ := hseats
  obtain ⟨people, hpeople, hfilled⟩ := hfilled
  refine ⟨_, rfl, sizes, hsizes, _, hseats, people, hpeople, _, hfilled, _, hfull, shiftRate, ?_,
    seatRate, hseatRate, ?_⟩
  · rw [hcount, List.length_map]
    exact hshiftRate
  · rw [hcount, List.length_map, List.length_map]

theorem hasLead_record (s : Shift) : hasLead (shiftRecord s) = .ok s.teamLead.isSome := by
  rw [shiftRecord, ofShift]
  cases s.teamLead <;> rfl

theorem leadsOf_records (shifts : List Shift) :
    ∃ leads, leadsOf (shifts.map shiftRecord) = .ok leads ∧
      leads.led + leads.unledDates.length = (shifts.filter Shift.isOpen).length := by
  have hopen := openShifts_records shifts
  generalize shifts.filter Shift.isOpen = opened at hopen ⊢
  have hled : (opened.map shiftRecord).filterM hasLead =
      .ok ((opened.filter fun s => s.teamLead.isSome).map shiftRecord) :=
    filterM_map_eq_ok fun s _ => hasLead_record s
  have hunled : (opened.map shiftRecord).filterM (fun s => return !(← hasLead s)) =
      .ok ((opened.filter fun s => !s.teamLead.isSome).map shiftRecord) := by
    refine filterM_map_eq_ok fun s _ => ?_
    rw [hasLead_record]
    rfl
  have hdates : ((opened.filter fun s => !s.teamLead.isSome).map shiftRecord).mapM
      (fun s => s.field "date") = .ok ((opened.filter fun s => !s.teamLead.isSome).map
        fun s => .text s.day.isoText) := mapM_map_eq_pure fun _ _ => rfl
  obtain ⟨rate, hrate⟩ : ∃ share, Number.percentage
      (.int (opened.filter fun s => s.teamLead.isSome).length) (.int opened.length) =
        .ok share := by
    have hle := List.length_filter_le (fun s : Shift => s.teamLead.isSome) opened
    exact Number.exists_percentage (by omega)
  have hsplit := List.length_eq_length_filter_add (l := opened) fun s => s.teamLead.isSome
  simp only [leadsOf, hopen, bind_eq_ok, pure_eq_ok]
  refine ⟨_, ⟨_, rfl, _, hled, _, hunled, _, hdates, rate, ?_, rfl⟩, ?_⟩
  · rw [List.length_map, List.length_map]
    exact hrate
  · rw [List.length_map, List.length_map]
    exact hsplit.symm

theorem shortfallOf_records (hspare : ∀ s ∈ shifts, 0 ≤ s.spare) :
    shortfallOf (shifts.map ofUnderfilled) = .ok
      { count := shifts.length
        missingSeats := .int (shifts.map Shift.spare).sum
        dates := shifts.map fun s => .text s.day.isoText } := by
  have hmissing : (do Number.sum (← (shifts.map ofUnderfilled).mapM missingSeats)) =
      .ok (.int (shifts.map Shift.spare).sum) := by
    refine sum_mapM_eq_ok fun s hs => ?_
    change Except.ok ((Number.int 0).max (.int s.spare)) = _
    rw [Number.max_ints, Int.max_eq_right (hspare s hs)]
  have hdates : (shifts.map ofUnderfilled).mapM (fun item => item.field "date") =
      .ok (shifts.map fun s => .text s.day.isoText) := mapM_map_eq_pure fun _ _ => rfl
  simp only [shortfallOf, bind_eq_ok, pure_eq_ok] at hmissing ⊢
  obtain ⟨missing, hitems, hsum⟩ := hmissing
  exact ⟨missing, hitems, _, hsum, _, hdates, by rw [List.length_map]⟩

end Summary

theorem summary_eq_ok {outcome : Outcome} {out : Value} (h : outcome.summary = .ok out) :
    ∃ metrics rows, Summary.metrics outcome.rota = .ok metrics ∧
      Fairness.overview outcome.rota = .ok rows ∧
      out = .record [
        ("success", outcome.success),
        ("shifts", .list (outcome.rota.shifts.map shiftRecord)),
        ("metrics", metrics),
        ("underfilled", .ofList ofUnderfilled outcome.underfilled),
        ("underutilized_groups", .texts (outcome.underutilized.map Group.key)),
        ("fairness", .ofList ofFairnessRow rows),
        ("validation_issues", .ofList ofIssue outcome.issues),
        ("resolution", .record (ofReport outcome.report))] := by
  simp only [Outcome.summary, bind_eq_ok, pure_eq_ok] at h
  obtain ⟨metrics, hmetrics, rows, hrows, rfl⟩ := h
  exact ⟨metrics, rows, hmetrics, hrows, rfl⟩

/-- The evaluation of a record that has all the fields of a summary. -/
theorem evaluate_record {success metrics : Value} {discarded : Fields}
    {shifts underfilled underutilized rows issues eligible : List Value} :
    evaluate (.record [
      ("success", success),
      ("shifts", .list shifts),
      ("metrics", metrics),
      ("underfilled", .list underfilled),
      ("underutilized_groups", .list underutilized),
      ("fairness", .list rows),
      ("validation_issues", .list issues),
      ("resolution", .record [("eligible", .list eligible), ("discarded", .record discarded)])]) =
    (do
      let reasons ← discarded.mapM fun field => Tally.key field.2
      let coverage ← coverageOf shifts
      let leads ← leadsOf shifts
      let shortfall ← shortfallOf underfilled
      let fairness ← fairnessOf rows
      let severities ← issues.mapM fun i => do Tally.key (← lookup i "severity" "unknown")
      let criteria ← issues.mapM fun i => do Tally.key (← lookup i "criterion" "unknown")
      return {
        success := success.isTrue
        coverage, leads, shortfall, underutilized, fairness
        issueCount := issues.length
        bySeverity := .ofList severities
        byCriterion := .ofList criteria
        eligible := eligible.length
        discarded := .ofList reasons }) := rfl

/-- A summary is evaluated as far as its rows of fairness can be. -/
theorem evaluate_summary {outcome : Outcome} {out : Value}
    (hsound : ∀ s ∈ outcome.rota.shifts, s.Sound)
    (hunderfilled : outcome.underfilled = outcome.rota.underfilled)
    (hsummary : outcome.summary = .ok out) :
    ∃ rows, ∃ complete : FairnessReport → Evaluation,
      Fairness.overview outcome.rota = .ok rows ∧
      (∀ fairness, (complete fairness).Counts outcome ∧ (complete fairness).fairness = fairness) ∧
      evaluate out = complete <$> fairnessOf (rows.map ofFairnessRow) := by
  obtain ⟨metrics, rows, -, hrows, rfl⟩ := summary_eq_ok hsummary
  obtain ⟨coverage, hcoverage, hcounts⟩ := coverageOf_records hsound
  obtain ⟨leads, hleads, hled⟩ := leadsOf_records outcome.rota.shifts
  have hspare : ∀ s ∈ outcome.underfilled, 0 ≤ s.spare := by
    intro s hs
    rw [hunderfilled] at hs
    exact (hsound s (List.mem_of_mem_filter hs)).spare_nonneg
  have hshortfall := shortfallOf_records hspare
  have hdiscarded : ∀ w : String × DiscardReason → String × Value,
      (∀ entry, (w entry).2 = .text entry.2.name) →
      (outcome.report.discarded.map w).mapM (fun field => Tally.key field.2) =
        .ok (outcome.report.discarded.map fun entry => .text entry.2.name) :=
    fun w hw => mapM_map_eq_pure fun entry _ => congrArg Tally.key (hw entry)
  have hseverities : (outcome.issues.map ofIssue).mapM
      (fun i => do Tally.key (← lookup i "severity" "unknown")) =
        .ok (outcome.issues.map fun i => .text i.severity.name) := mapM_map_eq_pure fun _ _ => rfl
  have hcriteria : (outcome.issues.map ofIssue).mapM
      (fun i => do Tally.key (← lookup i "criterion" "unknown")) =
        .ok (outcome.issues.map fun i => .text i.check) := mapM_map_eq_pure fun _ _ => rfl
  refine ⟨rows, fun fairness => {
    success := outcome.success
    coverage, leads
    shortfall := {
      count := outcome.underfilled.length
      missingSeats := .int (outcome.underfilled.map Shift.spare).sum
      dates := outcome.underfilled.map fun s => .text s.day.isoText }
    underutilized := (outcome.underutilized.map Group.key).map .text
    fairness
    issueCount := (outcome.issues.map ofIssue).length
    bySeverity := .ofList (outcome.issues.map fun i => .text i.severity.name)
    byCriterion := .ofList (outcome.issues.map fun i => .text i.check)
    eligible := (outcome.report.eligible.map Value.text).length
    discarded := .ofList (outcome.report.discarded.map fun entry => .text entry.2.name) },
    hrows, fun fairness => ⟨?counts, rfl⟩, ?equal⟩
  case counts =>
    exact ⟨hcounts, hled.trans hcounts.openShifts.symm, rfl, rfl, List.length_map _⟩
  case equal =>
    refine evaluate_record.trans ?_
    rw [hdiscarded _ fun _ => rfl, hcoverage, hleads, hshortfall, hseverities, hcriteria]
    cases fairnessOf (rows.map ofFairnessRow) <;> rfl

end Rostering
