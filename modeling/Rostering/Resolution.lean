import Rostering.Rota.Basic

namespace Rostering

/-! Which groups of a roster may be placed at all. A group has answered when a member has; a
shift is open to it unless a member who answered ruled the shift out. -/

inductive DiscardReason where
  | multipleTeamLeads
  | noResponse
  | noAvailability
  deriving DecidableEq, Repr

namespace DiscardReason

def all : List DiscardReason := [multipleTeamLeads, noResponse, noAvailability]

def name : DiscardReason → String
  | multipleTeamLeads => "multiple_team_leads"
  | noResponse => "no_response"
  | noAvailability => "no_availability"

end DiscardReason

/-- The keys of the groups that may be placed, and of the others with the reason. -/
structure ResolutionReport where
  eligible : List String := []
  discarded : List (String × DiscardReason) := []
  deriving DecidableEq, Repr

def ResolutionReport.discardedFor (report : ResolutionReport) (reason : DiscardReason) :
    List String :=
  (report.discarded.filter fun entry => entry.2 == reason).map (·.1)

namespace Resolution

/-- The keys of all groups of a roster, in rising order and each once. -/
def groupKeys (volunteers : List Volunteer) : List String :=
  (volunteers.map Volunteer.effectiveKey).eraseDups.mergeSort fun a b => decide (a ≤ b)

def membersOf (volunteers : List Volunteer) (key : String) : List Volunteer :=
  volunteers.filter fun v => v.effectiveKey == key

/-- The answer of a volunteer that counts: the last one, if it is an answer. -/
def answerOf? (responses : List Response) (volunteerId : String) : Option Response :=
  (responses.reverse.find? fun r => r.volunteerId == volunteerId).filter Response.responded

def answers (responses : List Response) (members : List Volunteer) : List Response :=
  members.filterMap fun v => answerOf? responses v.id

/-- The shifts that no answer rules out. -/
def availableShifts (given : List Response) (totalShifts : Nat) : IndexSet :=
  .below totalShifts fun i => given.all fun r => decide (i ∉ r.unavailable)

/-- The shifts open to a group, or the reason why the group is dropped. -/
def judge (responses : List Response) (totalShifts : Nat) (members : List Volunteer) :
    Except DiscardReason IndexSet :=
  let given := answers responses members
  let available := availableShifts given totalShifts
  if 1 < members.countP Volunteer.isTeamLead then .error .multipleTeamLeads
  else if given.isEmpty then .error .noResponse
  else if available.isEmpty then .error .noAvailability
  else .ok available

def countWorked (history : List Shift) (key : String) : Nat :=
  history.countP fun s => s.hasGroup key

/-- The decision about every group of a roster, by its key. -/
def decisions (volunteers : List Volunteer) (responses : List Response) (totalShifts : Nat) :
    List (String × Except DiscardReason IndexSet) :=
  (groupKeys volunteers).map fun key =>
    (key, judge responses totalShifts (membersOf volunteers key))

def groupOf (volunteers : List Volunteer) (history : List Shift) (key : String)
    (available : IndexSet) : Group where
  key
  members := membersOf volunteers key
  available
  historicalCount := countWorked history key

def reportOf (decided : List (String × Except DiscardReason IndexSet)) : ResolutionReport where
  eligible := decided.filterMap fun (key, decision) =>
    match decision with
    | .ok _ => some key
    | .error _ => none
  discarded := decided.filterMap fun (key, decision) =>
    match decision with
    | .ok _ => none
    | .error reason => some (key, reason)

end Resolution

open Resolution in
/-- The groups of a roster that may be placed, in the order of their keys, with a report on all
of them. -/
def resolve (volunteers : List Volunteer) (responses : List Response) (totalShifts : Nat)
    (history : List Shift := []) : Except Fault (List Group × ResolutionReport) :=
  let decided := decisions volunteers responses totalShifts
  let groups := decided.filterMap fun (key, decision) =>
    match decision with
    | .ok available => some (groupOf volunteers history key available)
    | .error _ => none
  if groups.isEmpty then .error .nobodyEligible else .ok (groups, reportOf decided)

end Rostering
