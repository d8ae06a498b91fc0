import Rostering.Rota.Group

namespace Rostering

/-! Shifts: how many people they take, and who is on them. -/

structure Shift where
  day : Day
  index : Int
  size : Int
  placements : List Placement := []
  /-- People fixed beforehand: they take seats but neither lead nor count as male. -/
  preallocated : List String := []
  teamLead : Option Volunteer := none
  maleCount : Int := 0
  deriving DecidableEq, Repr

namespace Shift

def headcount (placements : List Placement) : Nat :=
  placements.foldr (fun p people => p.size + people) 0

def countMen (placements : List Placement) : Int :=
  placements.foldr (fun p men => p.maleCount + men) 0

/-- A shift that was worked: it has the size of the people on it. -/
def historical (day : Day) (index : Int) (placements : List Placement)
    (preallocated : List String := []) : Shift where
  day
  index
  size := preallocated.length + headcount placements
  placements
  preallocated
  maleCount := countMen placements

def currentSize (s : Shift) : Nat := s.preallocated.length + headcount s.placements

def remainingCapacity (s : Shift) : Int := max 0 (s.size - s.currentSize)

def isFull (s : Shift) : Bool := decide (s.size ≤ s.currentSize)

def groupKeys (s : Shift) : List String := s.placements.map Placement.groupKey

def hasGroup (s : Shift) (key : String) : Bool := s.groupKeys.contains key

def canFit (s : Shift) (people : Int) : Bool := decide (s.currentSize + people ≤ s.size)

/-- Puts a group on the shift. A second team lead is refused. -/
def place (s : Shift) (g : Group) : Except Refusal Shift :=
  if s.hasGroup g.key then .error (.alreadyOn g.key s.index)
  else if !s.canFit g.size then
    .error (.doesNotFit g.key g.size s.index s.currentSize s.size)
  else
    let placed (lead : Option Volunteer) : Shift :=
      { s with
        placements := s.placements ++ [.ofGroup g]
        maleCount := s.maleCount + g.maleCount
        teamLead := lead }
    match g.teamLead?, s.teamLead with
    | some _, some current => .error (.leadTaken s.index current.id)
    | some lead, none => .ok (placed (some lead))
    | none, current => .ok (placed current)

end Shift

end Rostering
