import Rostering.Criterion

namespace Rostering

/-! Checks on a finished rota. An error marks a rule that was broken, a warning a shortfall. -/

inductive Severity where
  | error
  | warning
  deriving DecidableEq, Repr

def Severity.name : Severity → String
  | error => "error"
  | warning => "warning"

structure Issue where
  shiftIndex : Option Int
  shiftDate : String
  check : String
  severity : Severity
  description : String
  deriving DecidableEq, Repr

namespace Audit

def hasErrors (issues : List Issue) : Bool := issues.any fun i => i.severity == .error

def issueOn (s : Shift) (check : String) (severity : Severity) (description : String) : Issue :=
  ⟨some s.index, s.day.isoText, check, severity, description⟩

def sizeIssues (s : Shift) : List Issue :=
  let counts := s!"has {s.currentSize} volunteers but size is {s.size}"
  if s.size < s.currentSize then
    [issueOn s "shift_size" .error ("Shift is overfilled: " ++ counts)]
  else if s.currentSize < s.size then
    [issueOn s "shift_size" .warning ("Shift is underfilled: " ++ counts)]
  else []

/-- The keys that a list holds, each once and in rising order. -/
def distinctKeys (keys : List String) : List String :=
  keys.eraseDups.mergeSort fun a b => decide (a ≤ b)

def doubleBookings (s : Shift) : List Issue :=
  ((distinctKeys s.groupKeys).filter fun key => 1 < s.groupKeys.count key).map fun key =>
    issueOn s "double_booking" .error s!"Group '{key}' appears {s.groupKeys.count key} times"

def leadIds (s : Shift) : List String :=
  s.placements.filterMap fun p => p.teamLeadId.filter (!·.isEmpty)

def leadIssues (s : Shift) : List Issue :=
  let leads := leadIds s
  if 1 < leads.length then
    [issueOn s "team_lead" .error
      (s!"Shift has {leads.length} team leads: " ++ ", ".intercalate leads)]
  else if s.teamLead.isNone && decide (0 < s.size) then
    [issueOn s "team_lead" .warning "Shift has no team lead"]
  else []

def shiftIssues (s : Shift) : List Issue := sizeIssues s ++ doubleBookings s ++ leadIssues s

/-- The date of the last shift with an index, empty if there is none. -/
def dateOfIndex (rota : Rota) (index : Int) : String :=
  match rota.shifts.reverse.find? (·.index == index) with
  | some s => s.day.isoText
  | none => ""

def availabilityIssues (rota : Rota) (g : Group) : List Issue :=
  (g.allocated.filter (!g.isAvailable ·)).map fun index =>
    ⟨some index, dateOfIndex rota index, "availability", .error,
      s!"Group '{g.key}' allocated to a shift it is unavailable for"⟩

def capIssues (rota : Rota) (g : Group) : List Issue :=
  if rota.cap < g.allocationCount then
    [⟨none, "", "frequency_cap", .error,
      s!"Group '{g.key}' allocated {g.allocationCount} times (cap {rota.cap})"⟩]
  else []

def groupIssues (rota : Rota) (g : Group) : List Issue :=
  availabilityIssues rota g ++ capIssues rota g

def maleIssues (rota : Rota) : List Issue :=
  (rota.shifts.filter fun s => !s.placements.isEmpty && s.maleCount == 0).map fun s =>
    issueOn s CriterionKind.maleBalance.name .warning "Shift has no male volunteer"

def sharedKeys (s other : Shift) : List String :=
  (distinctKeys s.groupKeys).filter other.hasGroup

/-- The double shifts at a position: with the shift before it, or with the last one worked. -/
def doubleShiftsAt (rota : Rota) (s : Shift) (position : Nat) : List Issue :=
  let issues (other : Option Shift) (describe : String → String) : List Issue :=
    match other with
    | none => []
    | some other =>
        (sharedKeys s other).map fun key =>
          issueOn s CriterionKind.noDoubleShifts.name .error (describe key)
  match position with
  | 0 =>
      issues rota.history.getLast? fun key =>
        s!"Group '{key}' worked the last historical shift and the first shift"
  | before + 1 =>
      issues rota.shifts[before]? fun key =>
        s!"Group '{key}' is allocated to adjacent shifts {before} and {position}"

def criterionIssues (rota : Rota) (c : Criterion) : List Issue :=
  match c.kind with
  | .maleBalance => maleIssues rota
  | .noDoubleShifts => rota.shifts.zipIdx.flatMap fun (s, i) => doubleShiftsAt rota s i
  | _ => []

end Audit

open Audit in
/-- All issues of a rota: of each shift, of each group, then of each criterion. -/
def audit (rota : Rota) (criteria : List Criterion := []) : List Issue :=
  rota.shifts.flatMap shiftIssues ++ rota.groups.flatMap (groupIssues rota) ++
    criteria.flatMap (criterionIssues rota)

end Rostering
