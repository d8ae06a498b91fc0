import Rostering.Generation
import Rostering.Number.Share

namespace Rostering

/-! Summaries: rotas and reports as loose values. -/

namespace Summary

def ofTeamLead (lead : Volunteer) : Value :=
  .record [("volunteer_id", lead.id), ("name", lead.fullName)]

def ofPlacement (p : Placement) : Value :=
  .record [("group_key", p.groupKey), ("member_ids", .texts p.memberIds)]

def ofShift (s : Shift) : Fields := [
  ("index", s.index),
  ("date", s.day.isoText),
  ("size", s.size),
  ("current_size", s.currentSize),
  ("is_full", s.isFull),
  ("remaining_capacity", s.remainingCapacity),
  ("team_lead", .ofOption ofTeamLead s.teamLead),
  ("pre_allocated_volunteers", .texts s.preallocated),
  ("allocated_groups", .ofList ofPlacement s.placements),
  ("male_count", s.maleCount)]

def ofUnderfilled (s : Shift) : Value := .record [
  ("index", s.index),
  ("date", s.day.isoText),
  ("current_size", s.currentSize),
  ("size", s.size)]

def ofFairnessRow (row : Fairness.Row) : Value := .record [
  ("group_key", row.groupKey),
  ("members", .texts row.members),
  ("historical_allocations", row.historical),
  ("allocated_shifts", .ofList (fun (i : Int) => (i : Value)) row.shifts),
  ("allocation_count", row.count),
  ("available_count", row.availableCount),
  ("desired_remaining", row.desiredRemaining),
  ("remaining_capacity", row.remainingCapacity)]

def ofIssue (issue : Issue) : Value := .record [
  ("shift_index", .ofOption (fun (i : Int) => (i : Value)) issue.shiftIndex),
  ("shift_date", issue.shiftDate),
  ("criterion", issue.check),
  ("severity", issue.severity.name),
  ("description", issue.description)]

def ofReport (report : ResolutionReport) : Fields := [
  ("eligible", .texts report.eligible),
  ("discarded", .record (report.discarded.map fun (key, reason) => (key, .text reason.name)))]

def metrics (rota : Rota) : Except Fault Value := do
  let total := rota.shifts.length
  let full := rota.shifts.countP Shift.isFull
  return .record [
    ("total_shifts", total),
    ("full_shifts", full),
    ("underfilled_shifts", ((total : Int) - full : Int)),
    ("fill_rate", ← Number.percentage (.int full) (.int total)),
    ("eligible_groups", rota.groups.length),
    ("historical_shifts", rota.history.length),
    ("max_allocation_frequency", rota.cap),
    ("target_frequency", rota.target)]

end Summary

open Summary in
/-- All that is known of a generated rota. -/
def Outcome.summary (outcome : Outcome) : Except Fault Value := do
  let rota := outcome.rota
  return .record [
    ("success", outcome.success),
    ("shifts", .ofList (fun s => .record (ofShift s)) rota.shifts),
    ("metrics", ← metrics rota),
    ("underfilled", .ofList ofUnderfilled outcome.underfilled),
    ("underutilized_groups", .texts (outcome.underutilized.map Group.key)),
    ("fairness", .ofList ofFairnessRow (← Fairness.overview rota)),
    ("validation_issues", .ofList ofIssue outcome.issues),
    ("resolution", .record (ofReport outcome.report))]

open Summary in
/-- What a resolution found: the report and the groups that may be placed. -/
def resolutionSummary (groups : List Group) (report : ResolutionReport) : Value :=
  let ofGroup (g : Group) : Value := .record [
    ("group_key", g.key),
    ("members", .texts g.memberIds),
    ("team_lead", .ofOption (fun (v : Volunteer) => (v.id : Value)) g.teamLead?),
    ("available_shifts", .ofList (fun (i : Int) => (i : Value)) g.available.toList),
    ("historical_allocations", g.historicalCount)]
  .record (ofReport report ++ [("groups", .ofList ofGroup groups)])

end Rostering
