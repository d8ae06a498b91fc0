import Rostering.Calendar.IsoText
import Rostering.Number.Basic
import Rostering.Number.Numeral

namespace Rostering

open Text

/-! Loose values, as they come from a metadata file, a table cell or a summary. A record keeps
its fields in order, one for each name. -/

inductive Value where
  | null
  | bool (value : Bool)
  | number (value : Number)
  | text (value : String)
  | day (value : Day)
  | moment (value : Moment)
  | list (items : List Value)
  | record (fields : List (String × Value))
  deriving Inhabited, Repr

abbrev Fields := List (String × Value)

namespace Fields

def get? (fields : Fields) (name : String) : Option Value :=
  (fields.find? fun field => field.1 == name).map (·.2)

def getD (fields : Fields) (name : String) (fallback : Value) : Value :=
  (get? fields name).getD fallback

/-- The value under a name; the name itself is the fault when there is none. -/
def require (fields : Fields) (name : String) : Except Fault Value :=
  match get? fields name with
  | some value => .ok value
  | none => .error (.missingKey name)

def has (fields : Fields) (name : String) : Bool := (get? fields name).isSome

/-- Sets a field. A name that is there already keeps its place. -/
def put (name : String) (value : Value) : Fields → Fields
  | [] => [(name, value)]
  | field :: rest =>
      if field.1 == name then (name, value) :: rest else field :: put name value rest

/-- Fields from pairs in which a later one wins. -/
def ofPairs (pairs : List (String × Value)) : Fields :=
  pairs.foldl (fun fields pair => put pair.1 pair.2 fields) []

def names (fields : Fields) : List String := fields.map (·.1)

end Fields

namespace Value

instance (n : Nat) : OfNat Value n := ⟨.number (.int n)⟩
instance : Coe String Value := ⟨.text⟩
instance : Coe Int Value := ⟨fun n => .number (.int n)⟩
instance : Coe Nat Value := ⟨fun n => .number (.int n)⟩
instance : Coe Bool Value := ⟨.bool⟩
instance : Coe Number Value := ⟨.number⟩

def ofOption {α : Type} (wrap : α → Value) : Option α → Value
  | some a => wrap a
  | none => .null

def ofList {α : Type} (wrap : α → Value) (items : List α) : Value := .list (items.map wrap)

def texts (items : List String) : Value := ofList .text items

/-- Whether a value counts as yes: neither nothing, nor zero, nor empty. -/
def isTrue : Value → Bool
  | null => false
  | bool b => b
  | number n => !n.isZero
  | text s => !s.isEmpty
  | list items => !items.isEmpty
  | record fields => !fields.isEmpty
  | day _ | moment _ => true

/-- The value, or another one where this one does not count as yes. -/
def orElse (v other : Value) : Value := if v.isTrue then v else other

def dayShown (d : Day) : String :=
  let c := d.civil
  s!"{c.year}, {c.month}, {c.day}"

/-- The parts of a moment; seconds and their fraction only where they are not zero. -/
def momentShown (m : Moment) : String :=
  let second := m.microsecond / 1000000
  let fraction := m.microsecond % 1000000
  let tail :=
    if fraction ≠ 0 then s!", {second % 60}, {fraction}"
    else if second % 60 ≠ 0 then s!", {second % 60}"
    else ""
  s!"{dayShown m.day}, {second / 3600}, {second / 60 % 60}" ++ tail

mutual

/-- A value as it is shown inside a list or a message. -/
def shown : Value → String
  | null => "None"
  | bool true => "True"
  | bool false => "False"
  | number n => n.text
  | text s => quoted s
  | day d => "datetime.date(" ++ dayShown d ++ ")"
  | moment m => "datetime.datetime(" ++ momentShown m ++ ")"
  | list items => "[" ++ ", ".intercalate (shownItems items) ++ "]"
  | record fields => "\x7b" ++ ", ".intercalate (shownFields fields) ++ "\x7d"

def shownItems : List Value → List String
  | [] => []
  | v :: rest => shown v :: shownItems rest

def shownFields : List (String × Value) → List String
  | [] => []
  | (name, v) :: rest => (quoted name ++ ": " ++ shown v) :: shownFields rest

end

def toText? : Value → Option String
  | text s => some s
  | _ => none

/-- A value as text: a text as it is, a day and a moment in their dashed form. -/
def toText : Value → String
  | text s => s
  | day d => d.isoText
  | moment m => m.textWith " "
  | v => v.shown

end Value

end Rostering
