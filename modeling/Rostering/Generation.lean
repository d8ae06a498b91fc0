import Rostering.Allocation
import Rostering.Audit
import Rostering.Resolution
import Rostering.Rotation

namespace Rostering

/-! Generating a rota from a roster: resolve its groups, build the shifts, fill them and audit
the result. -/

structure Request where
  volunteers : List Volunteer
  responses : List Response
  dates : List Day
  defaultSize : Int := 5
  target : Number := defaultTarget
  cap : Int := 1
  history : List Shift := []
  overrides : List Override := []
  policy : Policy := {}

structure Outcome where
  rota : Rota
  success : Bool
  underfilled : List Shift
  underutilized : List Group
  issues : List Issue
  report : ResolutionReport

namespace Request

/-- A request can be run if it has dates, volunteers and numbers within their ranges. -/
def check (request : Request) : Except Fault Unit := do
  if request.dates.isEmpty then throw (.unrunnable .noDates)
  if request.volunteers.isEmpty then throw (.unrunnable .noVolunteers)
  if request.defaultSize < 0 then throw (.unrunnable (.negativeSize request.defaultSize))
  if request.cap < 0 then throw (.unrunnable (.negativeCap request.cap))
  let target ← request.target.toReal
  if !Fairness.isFrequency target then
    throw (.unrunnable (.badFrequency (Fairness.frequencyText target)))

/-- The rota before anybody is placed. -/
def prepare (request : Request) : Except Fault (Rota × ResolutionReport) := do
  request.check
  let (groups, report) ←
    resolve request.volunteers request.responses request.dates.length request.history
  let shifts ← buildShifts request.dates request.defaultSize request.overrides
  let rota : Rota := {
    shifts, groups
    history := request.history
    cap := request.cap
    target := request.target }
  return (rota, report)

end Request

/-- The groups that got a shift and could have held more. -/
def Rota.underutilized (rota : Rota) : List Group :=
  rota.groups.filter fun g =>
    decide (0 < g.allocationCount ∧ g.allocationCount < g.available.size ∧
      (g.allocationCount : Int) < rota.cap)

def Outcome.ofRota (rota : Rota) (criteria : List Criterion) (report : ResolutionReport) :
    Outcome :=
  let issues := audit rota criteria
  { rota, issues, report
    success := rota.underfilled.isEmpty && !Audit.hasErrors issues
    underfilled := rota.underfilled
    underutilized := rota.underutilized }

/-- Generates a rota under a tie-break rule that may not have been readable. That counts only
once the request has turned out to be one that can be run. -/
def generateUnder (tieBreak : Except Fault TieBreak) (request : Request) :
    Except Fault Outcome := do
  let (rota, report) ← request.prepare
  let rota ← rota.allocate { request.policy with tieBreak := ← tieBreak }
  return .ofRota rota request.policy.criteria report

def generate (request : Request) : Except Fault Outcome :=
  generateUnder (.ok request.policy.tieBreak) request

end Rostering
