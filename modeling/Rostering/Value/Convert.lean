import Rostering.Value.Basic

namespace Rostering.Value

open Text

/-! What a loose value stands for where a number, a text or a record is wanted. -/

/-- The integer that a value stands for: a number loses its fraction, a text is read. -/
def toInteger : Value → Except Fault Int
  | bool b => .ok b.toNat
  | number n => n.truncate
  | text s =>
      match integerOfText? s with
      | some n => .ok n
      | none => .error (.integerText s)
  | _ => .error .wrongKind

def toReal : Value → Except Fault Binary64
  | bool b => Number.realOfInt b.toNat
  | number n => n.toReal
  | text s =>
      match realOfText? s with
      | some x => .ok x
      | none => .error (.realText s)
  | _ => .error .wrongKind

/-- A value that can be computed with as it is. -/
def toNumber : Value → Except Fault Number
  | bool b => .ok (.int b.toNat)
  | number n => .ok n
  | _ => .error .wrongKind

def toFields : Value → Except Fault Fields
  | record fields => .ok fields
  | _ => .error .notARecord

/-- The values that a value runs through: the items of a list, the names of a record, the
characters of a text. -/
def items : Value → Except Fault (List Value)
  | list vs => .ok vs
  | record fields => .ok (fields.map fun field => .text field.1)
  | text s => .ok (s.toList.map fun c => .text c.toString)
  | _ => .error .wrongKind

/-- The field of a record that is looked up without asking for a record first. -/
def field (v : Value) (name : String) : Except Fault Value :=
  match v with
  | record fields => Fields.require fields name
  | _ => .error .wrongKind

/-- The text of a value, empty where the value does not count as yes. -/
def textOrEmpty (v : Value) : String := if v.isTrue then v.toText else ""

/-- The text of a table cell: days in their dashed form, nothing as empty, all else trimmed. -/
def cellText : Value → String
  | null => ""
  | moment m => m.day.isoText
  | day d => d.isoText
  | v => trim v.toText

end Rostering.Value
