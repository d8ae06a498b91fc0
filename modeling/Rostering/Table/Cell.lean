import Rostering.IndexSet
import Rostering.Value.Convert

namespace Rostering

open Text

/-! What the cells of a table hold: texts, numbers, answers and lists between bars. -/

namespace Cell

def listMark : Char := '|'

/-- The entries of a list between bars, trimmed and without blank ones. -/
def entries (v : Value) : List String :=
  if !v.isTrue then []
  else
    ((splitOnChar listMark v.toText.toList).map fun cs => String.ofList (trimList cs)).filter
      (!·.isEmpty)

def isBlank (v : Value) : Bool :=
  match v with
  | .null => true
  | v => (trim v.toText).isEmpty

/-- The integer in a cell; the fallback where the cell is blank or holds no number. A number
without bound is out of range. -/
def integerOr (v : Value) (fallback : Int := 0) : Except Fault Int :=
  if isBlank v then .ok fallback
  else
    match v.toReal.bind fun x => (Number.real x).truncate with
    | .error .outOfRange => .error .outOfRange
    | .error _ => .ok fallback
    | .ok n => .ok n

/-- The integer in an entry, if the entry is a number. -/
def entryIndex (entry : String) : Except Fault (Option Int) :=
  match realOfText? entry with
  | none => .ok none
  | some x =>
      match (Number.real x).truncate with
      | .error .outOfRange => .error .outOfRange
      | .error _ => .ok none
      | .ok n => .ok (some n)

/-- The indices in a list between bars; entries that are no numbers are left out. -/
def indices (v : Value) : Except Fault IndexSet :=
  return .ofList ((← (entries v).mapM entryIndex).filterMap id)

def yesWords : List String := ["TRUE", "1", "YES", "Y"]

def isYes (v : Value) : Bool :=
  match v with
  | .null => false
  | v => yesWords.contains (upper (trim v.toText))

/-- The digits that a workbook keeps of a number. -/
def storedDigits : Nat := 16

/-- A number as a workbook stores it: a whole number below the limit of the digits comes back as
an integer. -/
def storedReal : Binary64 → Number
  | .finite negative steps =>
      let d := Binary64.significant storedDigits steps
      if 0 ≤ d.exponent ∧ d.exponent + (toString d.digits).length ≤ storedDigits then
        let n : Nat := d.digits * Nat.pow 10 d.exponent.toNat
        .int (if negative then -(n : Int) else n)
      else .real (d.toBinary64 negative)
  | x => .real x

def formulaMark : Char := '='

/-- A text in a workbook: an empty one is nothing, and neither is a formula that was never
computed. -/
def storedText (s : String) : Value :=
  match s.toList with
  | [] => .null
  | first :: _ :: _ => if first == formulaMark then .null else .text s
  | _ => .text s

/-- A number in a workbook; integers too are kept to its digits. -/
def storedNumber (n : Number) : Number :=
  match n.toReal with
  | .ok x => storedReal x
  | .error _ => n

/-- A moment in a workbook, which keeps thousandths of a second. -/
def storedMoment (m : Moment) : Moment :=
  let thousandths := (m.microsecond + 500) / 1000
  if thousandths < 86400000 then ⟨m.day, thousandths * 1000⟩
  else
    match m.day.plus 1 with
    | .ok next => ⟨next, 0⟩
    | .error _ => m

/-- What a cell of a workbook reads as once it was stored. -/
def stored : Value → Value
  | .number n => .number (storedNumber n)
  | .text s => storedText s
  | .moment m => .moment (storedMoment m)
  | .day d => .moment ⟨d, 0⟩
  | v => v

end Cell

end Rostering
