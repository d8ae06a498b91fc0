import Rostering.Fairness
import Rostering.Number.Share
import Rostering.Number.Statistics
import Rostering.Value.Convert

namespace Rostering

/-! Evaluating the summary of a rota: how far it is covered, led and shared. A summary is read as
a loose value, since it may come from elsewhere. -/

/-- A distribution in five numbers, to two places. -/
structure Distribution where
  mean : Number := 0
  median : Number := 0
  deviation : Number := 0
  least : Number := 0
  greatest : Number := 0
  deriving DecidableEq, Repr

def Distribution.ofList : List Number → Except Fault Distribution
  | [] => .ok {}
  | first :: rest => do
      let values := first :: rest
      let mean ← Number.mean values
      let median ← Number.median values
      let deviation ←
        if rest.isEmpty then pure .zero else Number.standardDeviation values
      return {
        mean := mean.roundTo 2
        median := median.roundTo 2
        deviation := .real (deviation.roundTo 2)
        least := (rest.foldl Number.min first).roundTo 2
        greatest := (rest.foldl Number.max first).roundTo 2 }

/-- How often each value occurs, the most frequent first and else the first seen. -/
abbrev Tally := List (Value × Nat)

namespace Tally

/-- Whether two values are counted as one. Truth values count as the numbers one and zero. -/
def same (a b : Value) : Bool :=
  match a.toNumber, b.toNumber with
  | .ok m, .ok n => m.equal n
  | _, _ =>
      match a, b with
      | .null, .null => true
      | .text s, .text t => s == t
      | .day d, .day e => d == e
      | .moment m, .moment n => m == n
      | _, _ => false

def add (value : Value) : Tally → Tally
  | [] => [(value, 1)]
  | (v, n) :: rest => if same v value then (v, n + 1) :: rest else (v, n) :: add value rest

/-- A value that can be counted, as lists and records cannot. -/
def key : Value → Except Fault Value
  | .list _ | .record _ => .error .wrongKind
  | v => .ok v

def ofList (keys : List Value) : Tally :=
  (keys.foldl (fun tally v => add v tally) []).mergeSort fun a b => decide (b.2 ≤ a.2)

/-- The name under which a counted value stands in a record. -/
def keyName : Value → String
  | .text s => s
  | .null => "null"
  | .bool true => "true"
  | .bool false => "false"
  | v => v.toText

def toValue (tally : Tally) : Value :=
  .record (tally.map fun (v, n) => (keyName v, n))

def order (tally : Tally) : Value := .list (tally.map (·.1))

end Tally

structure Coverage where
  openShifts : Nat
  closedShifts : Nat
  fullShifts : Nat
  shiftRate : Number
  seats : Number
  filled : Number
  seatRate : Number

structure LeadCoverage where
  led : Nat
  unledDates : List Value
  rate : Number

structure Shortfall where
  count : Nat
  missingSeats : Number
  dates : List Value

structure FairnessReport where
  groups : Nat
  concentration : Number
  allocations : Distribution
  owed : Distribution
  stillOwed : Nat
  neverAllocated : Nat

structure Evaluation where
  success : Bool
  coverage : Coverage
  leads : LeadCoverage
  shortfall : Shortfall
  underutilized : List Value
  fairness : FairnessReport
  issueCount : Nat
  bySeverity : Tally
  byCriterion : Tally
  eligible : Nat
  discarded : Tally

namespace Evaluation

def lookup (v : Value) (name : String) (fallback : Value) : Except Fault Value :=
  return Fields.getD (← v.toFields) name fallback

def lookupNumber (v : Value) (name : String) : Except Fault Number := do
  (← lookup v name 0).toNumber

def isPositive (n : Number) : Bool := (0 : Number).lt n

/-- A shift is open if it has seats. -/
def openShifts (shifts : List Value) : Except Fault (List Value) :=
  shifts.filterM fun s => return isPositive (← lookupNumber s "size")

def coverageOf (shifts : List Value) : Except Fault Coverage := do
  let opened ← openShifts shifts
  let seats ← Number.sum (← opened.mapM fun s => do (← s.field "size").toNumber)
  let filled ← Number.sum (← opened.mapM fun s => do
    return (← lookupNumber s "current_size").min (← (← s.field "size").toNumber))
  let full := (← opened.mapM fun s => lookup s "is_full" .null).countP Value.isTrue
  return {
    openShifts := opened.length
    closedShifts := shifts.length - opened.length
    fullShifts := full
    shiftRate := ← Number.percentage (.int full) (.int opened.length)
    seats, filled
    seatRate := ← Number.percentage filled seats }

def hasLead (s : Value) : Except Fault Bool :=
  return (← lookup s "team_lead" .null).isTrue

def leadsOf (shifts : List Value) : Except Fault LeadCoverage := do
  let opened ← openShifts shifts
  let led ← opened.filterM hasLead
  let unled ← opened.filterM fun s => return !(← hasLead s)
  return {
    led := led.length
    unledDates := ← unled.mapM fun s => s.field "date"
    rate := ← Number.percentage (.int led.length) (.int opened.length) }

def missingSeats (item : Value) : Except Fault Number := do
  let size ← item.field "size"
  let current ← item.field "current_size"
  return (0 : Number).max (← (← size.toNumber).sub (← current.toNumber))

def shortfallOf (items : List Value) : Except Fault Shortfall := do
  return {
    count := items.length
    missingSeats := ← Number.sum (← items.mapM missingSeats)
    dates := ← items.mapM fun item => item.field "date" }

/-- Whether a group had an open shift and got none. -/
def isNeverAllocated (row : Value) : Except Fault Bool := do
  match (← lookup row "allocation_count" 0).toNumber with
  | .ok count =>
      if count.isZero then return isPositive (← lookupNumber row "available_count")
      else return false
  | .error _ => return false

def fairnessOf (rows : List Value) : Except Fault FairnessReport := do
  let counts ← rows.mapM fun row => return Number.real (← (← lookup row "allocation_count" 0).toReal)
  let owed ← rows.mapM fun row => return Number.real (← (← lookup row "desired_remaining" 0).toReal)
  return {
    groups := rows.length
    concentration := (← Fairness.gini counts).roundTo 4
    allocations := ← Distribution.ofList counts
    owed := ← Distribution.ofList owed
    stillOwed := owed.countP isPositive
    neverAllocated := (← rows.filterM isNeverAllocated).length }

def sizeOf (v : Value) : Except Fault Nat := return (← v.items).length

end Evaluation

open Evaluation in
def evaluate (outcome : Value) : Except Fault Evaluation := do
  let shifts ← lookup outcome "shifts" (.list [])
  let resolution ← lookup outcome "resolution" (.record [])
  let discarded ← (← (← lookup resolution "discarded" (.record [])).toFields).mapM
    fun field => Tally.key field.2
  let success := (← lookup outcome "success" .null).isTrue
  let coverage ← coverageOf (← shifts.items)
  let leads ← leadsOf (← shifts.items)
  let shortfall ← shortfallOf (← (← lookup outcome "underfilled" (.list [])).items)
  let underutilized ← (← lookup outcome "underutilized_groups" (.list [])).items
  let fairness ← fairnessOf (← (← lookup outcome "fairness" (.list [])).items)
  let issues ← (← lookup outcome "validation_issues" (.list [])).items
  let severities ← issues.mapM fun i => do Tally.key (← lookup i "severity" "unknown")
  let criteria ← issues.mapM fun i => do Tally.key (← lookup i "criterion" "unknown")
  let eligible ← sizeOf (← lookup resolution "eligible" (.list []))
  return {
    success, coverage, leads, shortfall, underutilized, fairness, eligible
    issueCount := issues.length
    bySeverity := .ofList severities
    byCriterion := .ofList criteria
    discarded := .ofList discarded }

namespace Evaluation

def ofDistribution (d : Distribution) : Value := .record [
  ("mean", d.mean), ("median", d.median), ("std", d.deviation), ("min", d.least),
  ("max", d.greatest)]

def toValue (e : Evaluation) : Value := .record [
  ("success", e.success),
  ("coverage", .record [
    ("open_shifts", e.coverage.openShifts),
    ("closed_shifts", e.coverage.closedShifts),
    ("full_shifts", e.coverage.fullShifts),
    ("shift_fill_rate", e.coverage.shiftRate),
    ("seats", e.coverage.seats),
    ("seats_filled", e.coverage.filled),
    ("seat_fill_rate", e.coverage.seatRate)]),
  ("team_leads", .record [
    ("shifts_with_team_lead", e.leads.led),
    ("shifts_without_team_lead", .list e.leads.unledDates),
    ("team_lead_rate", e.leads.rate)]),
  ("underfilled", .record [
    ("count", e.shortfall.count),
    ("missing_seats", e.shortfall.missingSeats),
    ("dates", .list e.shortfall.dates)]),
  ("underutilized_groups", .list e.underutilized),
  ("fairness", .record [
    ("groups", e.fairness.groups),
    ("allocation_gini", e.fairness.concentration),
    ("allocation_stats", ofDistribution e.fairness.allocations),
    ("desired_remaining_stats", ofDistribution e.fairness.owed),
    ("groups_still_owed", e.fairness.stillOwed),
    ("groups_never_allocated", e.fairness.neverAllocated)]),
  ("validation", .record [
    ("count", e.issueCount),
    ("by_severity", e.bySeverity.toValue),
    ("by_criterion", e.byCriterion.toValue)]),
  ("resolution", .record [
    ("eligible_groups", e.eligible),
    ("discarded", e.discarded.toValue)])]

end Evaluation

end Rostering
