import Rostering.Fairness

namespace Rostering

open Arithmetic

/-! Optional criteria on top of the fairness ranking. A criterion scores a group for a shift and
may rule the pair out; its weight says how much the score counts. -/

inductive CriterionKind where
  | maleBalance
  | noDoubleShifts
  | currentRotaUrgency
  | promoteGroups
  | shiftSpread
  deriving DecidableEq, Repr

namespace CriterionKind

def all : List CriterionKind :=
  [currentRotaUrgency, maleBalance, noDoubleShifts, promoteGroups, shiftSpread]

def name : CriterionKind → String
  | maleBalance => "male_balance"
  | noDoubleShifts => "no_double_shifts"
  | currentRotaUrgency => "current_rota_urgency"
  | promoteGroups => "promote_groups"
  | shiftSpread => "shift_spread"

def title : CriterionKind → String
  | maleBalance => "MaleBalanceCriterion"
  | noDoubleShifts => "NoDoubleShiftsCriterion"
  | currentRotaUrgency => "CurrentRotaUrgencyCriterion"
  | promoteGroups => "PromoteGroupsCriterion"
  | shiftSpread => "ShiftSpreadCriterion"

def ofName (name : String) : Except Fault CriterionKind :=
  match all.find? fun kind => kind.name == name with
  | some kind => .ok kind
  | none => .error (.unknownCriterion name (all.map CriterionKind.name))

theorem ofName_name (kind : CriterionKind) : ofName kind.name = .ok kind := by
  cases kind <;> rfl

end CriterionKind

structure Criterion where
  kind : CriterionKind
  weight : Binary64 := .one
  deriving DecidableEq, Repr

/-- Whether a group was on the last shift worked before this rotation. -/
def Rota.workedLast (rota : Rota) (key : String) : Bool :=
  match rota.history.getLast? with
  | some shift => shift.hasGroup key
  | none => false

/-- The position of the last shift in the history that a group worked. -/
def Rota.lastWorked? (rota : Rota) (key : String) : Option Nat :=
  (List.range rota.history.length).reverse.find? fun i =>
    (rota.history[i]?).any (·.hasGroup key)

namespace Score

variable {α : Type} [Arithmetic α]

/-- For a group with men: each man on the shift halves the need for another, down to a tenth. -/
def maleBalance (g : Group) (s : Shift) : Except Fault α := do
  if g.maleCount = 0 then return ← ratio 0 1
  let need ← sub (← ratio 1 1) (← mul (← ratio 1 2) (ofInt s.maleCount))
  return larger need (← ratio 1 10)

variable (α) in
/-- The shifts that a group still needs in this rotation to keep its target. -/
def needed (rota : Rota) (g : Group) : Except Fault Int := do
  let due : α ← mul (ofInt rota.shifts.length) (← ofNumber rota.target)
  return (← truncate due) - g.allocationCount

/-- How much of what is left is needed: nothing unless more is needed than that. -/
def urgency (need left : Int) : Except Fault α := do
  let share := larger (← ratio need left) (← ratio 1 1)
  sub (← ratio 1 1) (← div (← ratio 1 1) share)

/-- How much of what a group has left it needs. -/
def currentRotaUrgency (rota : Rota) (g : Group) : Except Fault α := do
  let left : Int := g.available.size - g.allocationCount
  if left ≤ 0 then return ← ratio 0 1
  urgency (← needed α rota g) left

def promoteGroups (g : Group) : Except Fault α :=
  if 1 < g.size then ratio 1 1 else ratio 0 1

def nearest (first : Nat) (others : List Nat) : Nat := others.foldl min first

/-- How far a shift is from each one that the group holds or last worked, by their places in the
history and the rotation after it. -/
def distances (rota : Rota) (g : Group) (s : Shift) : List Nat :=
  let offset : Int := rota.history.length
  let taken := g.allocated.map (offset + ·) ++ (rota.lastWorked? g.key).toList.map Int.ofNat
  taken.map fun place => (offset + s.index - place).natAbs

/-- The largest distance that this rotation has room for. -/
def room (rota : Rota) (g : Group) : Int :=
  let offset : Int := rota.history.length
  offset + rota.shifts.length - 1 - ((rota.lastWorked? g.key).map Int.ofNat).getD offset

/-- The distance from a shift to the nearest other one that the group holds or last worked, over
the largest one possible. -/
def shiftSpread (rota : Rota) (g : Group) (s : Shift) : Except Fault α :=
  if rota.shifts.length ≤ 1 then ratio 1 2
  else
    match distances rota g s with
    | [] => ratio 1 1
    | first :: others => ratio (nearest first others) (room rota g)

end Score

namespace CriterionKind

def score {α : Type} [Arithmetic α] (kind : CriterionKind) (rota : Rota) (g : Group)
    (s : Shift) : Except Fault α :=
  match kind with
  | maleBalance => Score.maleBalance g s
  | noDoubleShifts => ratio 0 1
  | currentRotaUrgency => Score.currentRotaUrgency rota g
  | promoteGroups => Score.promoteGroups g
  | shiftSpread => Score.shiftSpread rota g s

/-- Whether a group may be put on a shift: with double shifts ruled out, not next to a shift that
it holds or right after the last one that it worked. -/
def allows (kind : CriterionKind) (rota : Rota) (g : Group) (s : Shift) : Bool :=
  match kind with
  | noDoubleShifts =>
      !(s.index == 0 && rota.workedLast g.key) &&
        !(g.holds (s.index - 1) || g.holds (s.index + 1))
  | _ => true

end CriterionKind

namespace Criterion

def weightedScore (c : Criterion) (rota : Rota) (g : Group) (s : Shift) : Except Fault Number := do
  (← c.kind.score (α := Number) rota g s).mul (.real c.weight)

def shown (c : Criterion) : String := c.kind.title ++ "(weight=" ++ c.weight.text ++ ")"

/-- The criterion that a name and its options configure, unless it is switched off. -/
def ofOptions (name : String) (options : Value) : Except Fault (Option Criterion) := do
  let kind ← CriterionKind.ofName name
  let fields ← (options.orElse (.record [])).toFields
  match Fields.getD fields "enabled" (.bool true) with
  | .bool false => return none
  | _ => return some ⟨kind, ← (Fields.getD fields "weight" (.number (.real .one))).toReal⟩

/-- The criteria that a record of options by name configures, in its order. -/
def ofConfig (config : Value) : Except Fault (List Criterion) := do
  let fields ← (config.orElse (.record [])).toFields
  return (← fields.mapM fun (name, options) => ofOptions name options).filterMap id

end Criterion

end Rostering
