import Rostering.Calendar.IsoText

namespace Rostering

open Text

/-! Points in time, by the clock of a place or of no place in particular. Which texts state one is
left open: a reader of dates says so. -/

/-- The clock of a place: from which of its readings on it is how many microseconds ahead of
universal time. -/
structure Zone where
  name : String
  offsets : List (Int × Int) := []
  deriving DecidableEq, Repr

namespace Zone

def utc : Zone := { name := "UTC" }

def universal (z : Zone) (reading : Int) : Int :=
  let reached := z.offsets.filter fun offset => offset.1 ≤ reading
  reading - (reached.getLast?.map (·.2)).getD 0

end Zone

/-- What a clock shows, in microseconds, with the calendar's day numbers as multiples of a whole
day. -/
structure Point where
  reading : Int
  zone : Option Zone := none
  deriving DecidableEq, Repr

/-- Whether a point comes before another. One with a zone and one without have no order. -/
def Point.lt (a b : Point) : Except Fault Bool :=
  match a.zone, b.zone with
  | none, none => .ok (decide (a.reading < b.reading))
  | some z, some w =>
      if z = w then .ok (decide (a.reading < b.reading))
      else .ok (decide (z.universal a.reading < w.universal b.reading))
  | _, _ => .error .wrongKind

def microsPerSecond : Int := 1000000

def microsPerDay : Int := 86400000000

/-- The microsecond of the day that a midnight is. -/
def firstMicro : Fin 86400000000 := 0

/-- A day and the microseconds since its midnight. -/
structure Stamp where
  day : Day
  micro : Fin 86400000000 := firstMicro
  zone : Option Zone := none
  deriving DecidableEq, Repr

def Stamp.point (s : Stamp) : Point := ⟨s.day.number * microsPerDay + s.micro.val, s.zone⟩

/-- Why a text states nothing: it has no such form, or reading it breaks off. -/
inductive Unread where
  | invalid
  | failed (cause : Fault)
  deriving DecidableEq, Repr

/-- How dates are read from texts in capitals, and which zones are known by their names. -/
class DateReader where
  read : String → Except Unread Stamp
  zone? : String → Option Zone

namespace DateReader

/-- One or two digits, and what follows them. -/
def shortNumber? (cs : List Char) : Option (Nat × List Char) :=
  match cs with
  | _ :: d :: _ => if (asciiDigit? d).isSome then takeNumber? 2 cs else takeNumber? 1 cs
  | _ => takeNumber? 1 cs

/-- A month and a day of it, with a mark between them and before the month or with none. -/
def monthAndDay? : List Char → Option (Nat × Nat × List Char)
  | '-' :: cs => separated '-' cs
  | '/' :: cs => separated '/' cs
  | cs => do
      let (month, cs) ← takeNumber? 2 cs
      let (day, cs) ← takeNumber? 2 cs
      return (month, day, cs)
where
  separated (mark : Char) (cs : List Char) : Option (Nat × Nat × List Char) := do
    let (month, cs) ← shortNumber? cs
    if cs.head? != some mark then none
    let (day, cs) ← shortNumber? (cs.drop 1)
    return (month, day, cs)

/-- A day as `YYYYMMDD`, `YYYY-MM-DD` or `YYYY/MM/DD`, and what follows it. -/
def day? (cs : List Char) : Option (Day × List Char) := do
  let (year, cs) ← takeNumber? 4 cs
  let (month, day, cs) ← monthAndDay? cs
  return (← (Day.ofCivil year month day).toOption, cs)

/-- The zone that may stand after a time with seconds or with colons. -/
def zoneMark? : List Char → Option (Option Zone)
  | [] => some none
  | ['Z'] => some (some .utc)
  | _ => none

/-- A time of day as `HH`, `HHMM`, `HHMMSS`, `HH:MM` or `HH:MM:SS`. -/
def clock? (cs : List Char) : Option ((Nat × Nat × Nat) × Option Zone) := do
  let (hour, cs) ← takeNumber? 2 cs
  match cs with
  | [] => return ((hour, 0, 0), none)
  | ':' :: cs =>
      let (minute, cs) ← takeNumber? 2 cs
      match cs with
      | ':' :: cs =>
          let (second, cs) ← takeNumber? 2 cs
          return ((hour, minute, second), ← zoneMark? cs)
      | cs => return ((hour, minute, 0), ← zoneMark? cs)
  | cs =>
      let (minute, cs) ← takeNumber? 2 cs
      if cs.isEmpty then return ((hour, minute, 0), none)
      let (second, cs) ← takeNumber? 2 cs
      return ((hour, minute, second), ← zoneMark? cs)

/-- A day, and a time of day after the mark between them. -/
def stamp? (s : String) : Option Stamp := do
  let (day, rest) ← day? s.toList
  match rest with
  | [] | ['T'] => return { day }
  | 'T' :: cs =>
      let ((hour, minute, second), zone) ← clock? cs
      if hour < 24 ∧ minute < 60 ∧ second < 60 then
        return { day, zone, micro := .ofNat _ ((hour * 3600 + minute * 60 + second) * 1000000) }
      else none
  | _ => none

/-- Reads dates in numbers and knows universal time. -/
instance numeric : DateReader where
  read s :=
    match stamp? s with
    | some stamp => .ok stamp
    | none => .error .invalid
  zone? name := if name = "UTC" ∨ name = "GMT" then some .utc else none

end DateReader

end Rostering
