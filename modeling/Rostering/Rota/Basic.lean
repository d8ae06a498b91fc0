import Rostering.Rota.Shift

namespace Rostering

/-! A rota: the shifts and groups of one rotation, with the shifts worked before it. A placement
is known to both its shift and its group; `Rota.place` is where both learn of it. -/

/-- The share of all shifts that a group should work, where none is given. -/
def defaultTarget : Number := .real (.ofRatio 1 2)

structure Rota where
  shifts : List Shift
  groups : List Group
  history : List Shift := []
  /-- How many shifts of the rotation a group may hold. -/
  cap : Int := 1
  /-- The share of all shifts, history included, that a group should work. -/
  target : Number := defaultTarget
  deriving DecidableEq, Repr

/-- The whole number of shifts that a share of them makes. -/
def targetAllocations (historical current : Int) (target : Number) : Except Fault Int := do
  (← (Number.int (historical + current)).mul target).floor

/-- How many shifts are still owed to reach the target; below zero after too many. -/
def desiredRemaining (total historical current : Int) (target : Number) : Except Fault Int :=
  return (← targetAllocations historical current target) - total

namespace Rota

/-- The group with a key; of several, the last. -/
def group (rota : Rota) (key : String) : Except Fault Group :=
  match rota.groups.reverse.find? (·.key == key) with
  | some g => .ok g
  | none => .error (.unknownGroup key)

/-- The position of the group with a key; of several, the last. -/
def position (rota : Rota) (key : String) : Except Fault Nat :=
  match rota.groups.reverse.findIdx? (·.key == key) with
  | some i => .ok (rota.groups.length - 1 - i)
  | none => .error (.unknownGroup key)

def desiredRemaining (rota : Rota) (g : Group) : Except Fault Int :=
  Rostering.desiredRemaining g.totalCount rota.history.length rota.shifts.length rota.target

def allFull (rota : Rota) : Bool := rota.shifts.all Shift.isFull

def underfilled (rota : Rota) : List Shift := rota.shifts.filter (!·.isFull)

/-- Puts a group on a shift, telling both. -/
def assign (cap : Int) (g : Group) (s : Shift) : Except Refusal (Group × Shift) := do
  if g.remainingCapacity cap ≤ 0 then throw (.noCapacity g.key)
  if !g.isAvailable s.index then throw (.notAvailable g.key s.index)
  if g.holds s.index then throw (.alreadyHolds g.key s.index)
  let s' ← s.place g
  let g' ← g.record s.index
  return (g', s')

/-- Puts the group at one position on the shift at another. -/
def place (rota : Rota) (group shift : Nat) : Except Refusal Rota :=
  match rota.groups[group]?, rota.shifts[shift]? with
  | some g, some s => do
      let (g, s) ← assign rota.cap g s
      return { rota with groups := rota.groups.set group g, shifts := rota.shifts.set shift s }
  | _, _ => .ok rota

end Rota

end Rostering
