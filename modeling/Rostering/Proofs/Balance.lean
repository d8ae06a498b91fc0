import Rostering.Proofs.Evaluable

namespace Rostering

/-! The books of a rota: what its summary says of each shift and each group, and what an evaluation
of that summary says of all of them. -/

namespace Value

/-- What stands under a path of names. -/
def at? (v : Value) (path : List String) : Option Value :=
  path.foldlM (fun (v : Value) name =>
    match v with
    | .record fields => Fields.get? fields name
    | _ => none) v

def intAt? (v : Value) (path : List String) : Option Int := do
  match ← v.at? path with
  | .number (.int n) => some n
  | _ => none

theorem intAt?_eq_some {v : Value} {path : List String} {n : Number} {i : Int}
    (hat : v.at? path = some (.number n)) (hint : n = .int i) : v.intAt? path = some i := by
  rw [intAt?, hat, hint]
  rfl

def listAt? (v : Value) (path : List String) : Option (List Value) := do
  match ← v.at? path with
  | .list items => some items
  | _ => none

end Value

/-- The counts that a summary gives, and its records of shifts and groups. -/
structure SummaryBook where
  total : Int
  full : Int
  underfilled : Int
  eligible : Int
  /-- How many are on each shift. -/
  people : List Int
  /-- How many of them were fixed beforehand. -/
  pinned : List Int
  /-- How often each group was placed, and how many it has. -/
  turns : List (Int × Int)
  deriving DecidableEq, Repr

def SummaryBook.read (out : Value) : Option SummaryBook := do
  let shifts ← out.listAt? ["shifts"]
  let rows ← out.listAt? ["fairness"]
  return {
    total := ← out.intAt? ["metrics", "total_shifts"]
    full := ← out.intAt? ["metrics", "full_shifts"]
    underfilled := ← out.intAt? ["metrics", "underfilled_shifts"]
    eligible := ← out.intAt? ["metrics", "eligible_groups"]
    people := ← shifts.mapM fun s => s.intAt? ["current_size"]
    pinned := ← shifts.mapM fun s => do
      return (← s.listAt? ["pre_allocated_volunteers"]).length
    turns := ← rows.mapM fun row => do
      return (← row.intAt? ["allocation_count"], (← row.listAt? ["members"]).length) }

/-- The counts that an evaluation gives. -/
structure EvaluationBook where
  openShifts : Int
  closedShifts : Int
  fullShifts : Int
  seats : Int
  filled : Int
  led : Int
  unled : Int
  short : Int
  missing : Int
  groups : Int
  eligible : Int
  deriving DecidableEq, Repr

def EvaluationBook.read (rep : Value) : Option EvaluationBook := do
  return {
    openShifts := ← rep.intAt? ["coverage", "open_shifts"]
    closedShifts := ← rep.intAt? ["coverage", "closed_shifts"]
    fullShifts := ← rep.intAt? ["coverage", "full_shifts"]
    seats := ← rep.intAt? ["coverage", "seats"]
    filled := ← rep.intAt? ["coverage", "seats_filled"]
    led := ← rep.intAt? ["team_leads", "shifts_with_team_lead"]
    unled := (← rep.listAt? ["team_leads", "shifts_without_team_lead"]).length
    short := ← rep.intAt? ["underfilled", "count"]
    missing := ← rep.intAt? ["underfilled", "missing_seats"]
    groups := ← rep.intAt? ["fairness", "groups"]
    eligible := ← rep.intAt? ["resolution", "eligible_groups"] }

/-- Every seat and every group is counted the same wherever it is counted. -/
structure Balanced (out : SummaryBook) (rep : EvaluationBook) : Prop where
  shifts : rep.openShifts + rep.closedShifts = out.total
  full : out.full = rep.fullShifts + rep.closedShifts
  short : rep.short = out.underfilled
  underfilled : out.underfilled = rep.openShifts - rep.fullShifts
  missing : rep.missing = rep.seats - rep.filled
  people : rep.filled = out.people.sum
  turns : rep.filled =
    out.pinned.sum + (out.turns.map fun (count, members) => count * members).sum
  leads : rep.led + rep.unled = rep.openShifts
  groups : rep.groups = out.eligible
  eligible : out.eligible = rep.eligible

section

open Summary

theorem SummaryBook.read_summary {outcome : Outcome} {out : Value} {rows : List Fairness.Row}
    (hsummary : outcome.summary = .ok out) (hrows : Fairness.overview outcome.rota = .ok rows) :
    SummaryBook.read out = some
      { total := outcome.rota.shifts.length
        full := outcome.rota.shifts.countP Shift.isFull
        underfilled := outcome.rota.shifts.length - outcome.rota.shifts.countP Shift.isFull
        eligible := outcome.rota.groups.length
        people := outcome.rota.shifts.map fun s => (s.currentSize : Int)
        pinned := outcome.rota.shifts.map fun s => (s.preallocated.length : Int)
        turns := rows.map fun row => ((row.count : Int), (row.members.length : Int)) } := by
  obtain ⟨metrics, rows', hmetrics, hrows', rfl⟩ := summary_eq_ok hsummary
  obtain rfl : rows = rows' := Except.ok.inj (hrows.symm.trans hrows')
  simp only [Summary.metrics, bind_eq_ok, pure_eq_ok] at hmetrics
  obtain ⟨rate, -, rfl⟩ := hmetrics
  have hpeople : (outcome.rota.shifts.map shiftRecord).mapM
      (fun s => s.intAt? ["current_size"]) =
        some (outcome.rota.shifts.map fun s => (s.currentSize : Int)) :=
    mapM_map_eq_pure fun _ _ => rfl
  have hpinned : (outcome.rota.shifts.map shiftRecord).mapM
      (fun s => do return ((← s.listAt? ["pre_allocated_volunteers"]).length : Int)) =
        some (outcome.rota.shifts.map fun s => (s.preallocated.length : Int)) :=
    mapM_map_eq_pure fun s _ => congrArg some (congrArg Nat.cast (List.length_map _))
  have hturns : (rows.map ofFairnessRow).mapM (fun row => do
      return ((← row.intAt? ["allocation_count"]), ((← row.listAt? ["members"]).length : Int))) =
        some (rows.map fun row => ((row.count : Int), (row.members.length : Int))) := by
    refine mapM_map_eq_pure fun row _ => ?_
    change some ((row.count : Int), ((row.members.map Value.text).length : Int)) = _
    rw [List.length_map]
    rfl
  simp only [SummaryBook.read, Option.bind_eq_bind, Option.bind_eq_some_iff]
  exact ⟨_, rfl, _, rfl, _, rfl, _, rfl, _, rfl, _, rfl, _, hpeople, _, hpinned, _, hturns, rfl⟩

theorem EvaluationBook.read_evaluation {outcome : Outcome} {e : Evaluation}
    (hcounts : e.Counts outcome) :
    EvaluationBook.read e.toValue = some
      { openShifts := e.coverage.openShifts
        closedShifts := e.coverage.closedShifts
        fullShifts := e.coverage.fullShifts
        seats := ((outcome.rota.shifts.filter Shift.isOpen).map Shift.size).sum
        filled := ((outcome.rota.shifts.filter Shift.isOpen).map
          fun s => (s.currentSize : Int)).sum
        led := e.leads.led
        unled := e.leads.unledDates.length
        short := e.shortfall.count
        missing := (outcome.underfilled.map Shift.spare).sum
        groups := e.fairness.groups
        eligible := e.eligible } := by
  have hseats : e.toValue.intAt? ["coverage", "seats"] = some _ :=
    Value.intAt?_eq_some rfl hcounts.coverage.seats
  have hfilled : e.toValue.intAt? ["coverage", "seats_filled"] = some _ :=
    Value.intAt?_eq_some rfl hcounts.coverage.filled
  have hmissing : e.toValue.intAt? ["underfilled", "missing_seats"] = some _ :=
    Value.intAt?_eq_some rfl hcounts.missing
  simp only [EvaluationBook.read, Option.bind_eq_bind, Option.bind_eq_some_iff]
  exact ⟨_, rfl, _, rfl, _, rfl, _, hseats, _, hfilled, _, rfl, _, rfl, _, rfl, _, hmissing, _, rfl,
    _, rfl, rfl⟩

end

section

variable {request : Request} {outcome : Outcome} {out : Value} {rep : Evaluation}

theorem evaluate_counts (h : generate request = .ok outcome)
    (hsummary : outcome.summary = .ok out) (hevaluate : evaluate out = .ok rep) :
    ∃ rows, Fairness.overview outcome.rota = .ok rows ∧ rep.Counts outcome ∧
      rep.fairness.groups = rows.length := by
  obtain ⟨rows, complete, hrows, hcomplete, hequal⟩ :=
    evaluate_summary (generate_coherent h).shift_sound (generate_underfilled h) hsummary
  rw [hequal] at hevaluate
  cases hfairness : Evaluation.fairnessOf (rows.map Summary.ofFairnessRow) with
  | error fault => simp [hfairness] at hevaluate
  | ok fairness =>
      rw [hfairness] at hevaluate
      obtain rfl : complete fairness = rep := Except.ok.inj hevaluate
      obtain ⟨hcounts, hkept⟩ := hcomplete fairness
      refine ⟨rows, hrows, hcounts, ?_⟩
      simp only [Evaluation.fairnessOf, bind_eq_ok, pure_eq_ok] at hfairness
      obtain ⟨_, -, _, -, _, -, _, -, _, -, _, -, rfl⟩ := hfairness
      rw [hkept, List.length_map]

theorem generate_balanced (h : generate request = .ok outcome)
    (hsummary : outcome.summary = .ok out) (hevaluate : evaluate out = .ok rep) :
    ∃ summary evaluation, SummaryBook.read out = some summary ∧
      EvaluationBook.read rep.toValue = some evaluation ∧ Balanced summary evaluation := by
  have hsound := (generate_coherent h).shift_sound
  obtain ⟨rows, hrows, hcounts, hgroups⟩ := evaluate_counts h hsummary hevaluate
  obtain ⟨hlength, hheld⟩ := Fairness.overview_ok hrows
  refine ⟨_, _, SummaryBook.read_summary hsummary hrows,
    EvaluationBook.read_evaluation hcounts, ?_⟩
  have hopen : (outcome.rota.shifts.filter Shift.isOpen).length ≤ outcome.rota.shifts.length :=
    List.length_filter_le _ _
  have hfull := Shift.countP_isFull hsound
  have hsplit := List.length_eq_length_filter_add (l := outcome.rota.shifts) Shift.isFull
  rw [← List.countP_eq_length_filter] at hsplit
  have hunderfilled := congrArg List.length (generate_underfilled h)
  rw [Rota.underfilled] at hunderfilled
  have hpeople := Shift.sum_currentSize_open hsound
  have hopenShifts := hcounts.coverage.openShifts
  have hclosedShifts := hcounts.coverage.closedShifts
  have hfullShifts := hcounts.coverage.fullShifts
  have hshort := hcounts.short
  have hleads := hcounts.leads
  have hkeys := congrArg List.length (generate_keys_eq h)
  rw [List.length_map, ← hcounts.eligible] at hkeys
  constructor
  case shifts => dsimp only; omega
  case full => dsimp only; omega
  case short => dsimp only; omega
  case underfilled => dsimp only; omega
  case missing =>
    dsimp only
    rw [generate_underfilled h]
    exact Shift.sum_spare hsound
  case people => exact hpeople
  case turns =>
    dsimp only
    rw [hpeople, outcome.rota.sum_currentSize, generate_seatsTaken h, ← hheld, List.map_map]
    rfl
  case leads => dsimp only; omega
  case groups => dsimp only; omega
  case eligible => dsimp only; omega

/-- The books of every accepted request balance, and they can be drawn up where what they count can
be counted for certain. -/
theorem books_balance (h : generate request = .ok outcome) :
    (∀ out rep, outcome.summary = .ok out → evaluate out = .ok rep →
      ∃ summary evaluation, SummaryBook.read out = some summary ∧
        EvaluationBook.read rep.toValue = some evaluation ∧ Balanced summary evaluation) ∧
    (request.Countable → ∃ out rep, outcome.summary = .ok out ∧ evaluate out = .ok rep) :=
  ⟨fun _ _ => generate_balanced h, exists_evaluation h⟩

end

theorem books_balance_sample : ∃ outcome out rep summary evaluation,
    generate Sample.input = .ok outcome ∧ Sample.input.Countable ∧
    outcome.summary = .ok out ∧ evaluate out = .ok rep ∧
    SummaryBook.read out = some summary ∧ EvaluationBook.read rep.toValue = some evaluation ∧
    Balanced summary evaluation ∧ summary.people = [0, 2, 1] ∧ evaluation.filled = 3 := by
  obtain ⟨outcome, haccepted, hfinal⟩ := Sample.generate_input
  obtain ⟨hbooks, hdrawn⟩ := books_balance haccepted
  have hcountable : Sample.input.Countable := by
    constructor <;> decide +kernel
  obtain ⟨out, rep, hsummary, hevaluate⟩ := hdrawn hcountable
  obtain ⟨summary, evaluation, hread, hreadBack, hbalanced⟩ := hbooks out rep hsummary hevaluate
  have hpeople : summary.people = [0, 2, 1] := by
    obtain ⟨rows, hrows, -⟩ := evaluate_counts haccepted hsummary hevaluate
    rw [SummaryBook.read_summary hsummary hrows, Option.some.injEq] at hread
    rw [← hread, hfinal]
    rfl
  have hfilled := hbalanced.people
  rw [hpeople] at hfilled
  exact ⟨outcome, out, rep, summary, evaluation, haccepted, hcountable, hsummary, hevaluate, hread,
    hreadBack, hbalanced, hpeople, hfilled⟩

end Rostering
