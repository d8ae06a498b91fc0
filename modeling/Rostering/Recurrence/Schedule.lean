import Rostering.Recurrence.Expansion

namespace Rostering

/-! Rules taken together: what some rules hit and further dates, less what others hit and further
dates. -/

structure Schedule where
  /-- Where the rules start, if they say so themselves. -/
  start : Option Start := none
  rules : List Rule := []
  dates : List Stamp := []
  exRules : List Rule := []
  exDates : List Stamp := []
  deriving DecidableEq, Repr

namespace Schedule

/-- Puts a point at its place in a rising list. -/
def insertPoint (p : Point) : List Point → Except Fault (List Point)
  | [] => .ok [p]
  | q :: rest => do
      if ← q.lt p then return q :: (← insertPoint p rest)
      return p :: q :: rest

def sorted (stamps : List Stamp) : Except Fault (List Point) :=
  stamps.foldrM (fun s points => insertPoint s.point points) []

/-- Some rules from a start on, and further dates. -/
def gather (start : Start) (rules : List Rule) (dates : List Stamp) : Timeline Point :=
  let ofRule (rule : Rule) : Timeline Point :=
    (rule.expandFrom start).timeline.map start.pointOf
  .mergeAll (.ofResult (sorted dates) :: rules.map ofRule)

/-- The hits of a schedule that is set out from an anchor. -/
def timeline (s : Schedule) (anchor : Day) : Timeline Point :=
  let start := s.start.getD { day := anchor }
  (gather start s.rules s.dates).exclude (gather start s.exRules s.exDates)

end Schedule

end Rostering
