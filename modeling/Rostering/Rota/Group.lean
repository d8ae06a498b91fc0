import Rostering.Roster.Volunteer

namespace Rostering

/-! Groups of volunteers that are placed together, and their placements on shifts. -/

structure Group where
  key : String
  members : List Volunteer
  available : IndexSet
  /-- The shifts the group holds in this rotation, in the order it got them. -/
  allocated : List Int := []
  historicalCount : Int := 0
  deriving DecidableEq, Repr

namespace Group

def size (g : Group) : Nat := g.members.length

/-- Whether the key is one that a volunteer without a group gets. -/
def isIndividual (g : Group) : Bool := individualMark.isPrefixOf g.key

def teamLead? (g : Group) : Option Volunteer := g.members.find? Volunteer.isTeamLead

def hasTeamLead (g : Group) : Bool := g.teamLead?.isSome

def maleCount (g : Group) : Nat := g.members.countP Volunteer.isMale

def memberIds (g : Group) : List String := g.members.map Volunteer.id

def isAvailable (g : Group) (shift : Int) : Bool := decide (shift ∈ g.available)

def holds (g : Group) (shift : Int) : Bool := g.allocated.contains shift

def allocationCount (g : Group) : Nat := g.allocated.length

def totalCount (g : Group) : Int := g.historicalCount + g.allocationCount

/-- How many shifts a group may still get under a cap. -/
def remainingCapacity (g : Group) (cap : Int) : Int := max 0 (cap - g.allocationCount)

def record (g : Group) (shift : Int) : Except Refusal Group :=
  if !g.isAvailable shift then .error (.notAvailable g.key shift)
  else if g.holds shift then .error (.alreadyHolds g.key shift)
  else .ok { g with allocated := g.allocated ++ [shift] }

end Group

/-- A group as it stands on a shift. -/
structure Placement where
  groupKey : String
  memberIds : List String
  maleCount : Int := 0
  teamLeadId : Option String := none
  deriving DecidableEq, Repr

namespace Placement

def ofGroup (g : Group) : Placement where
  groupKey := g.key
  memberIds := g.memberIds
  maleCount := g.maleCount
  teamLeadId := g.teamLead?.map Volunteer.id

def size (p : Placement) : Nat := p.memberIds.length

@[simp] theorem size_ofGroup (g : Group) : (ofGroup g).size = g.size := by
  simp [size, ofGroup, Group.memberIds, Group.size]

end Placement

end Rostering
