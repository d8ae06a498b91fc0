import Rostering.Fault

namespace Rostering

/-! Days of the proleptic Gregorian calendar, from the first day of year 1 to the last of year
9999, numbered from one. -/

def lastDayNumber : Nat := 3652059

structure Day where
  number : Nat
  one_le : 1 ≤ number
  le_last : number ≤ lastDayNumber
  deriving DecidableEq

namespace Day

instance : Inhabited Day := ⟨1, by decide, by decide⟩
instance : Repr Day := ⟨fun d _ => repr d.number⟩

def lt (a b : Day) : Bool := decide (a.number < b.number)

def ofNumber? (n : Int) : Option Day :=
  if h : 1 ≤ n.toNat ∧ n.toNat ≤ lastDayNumber then some ⟨n.toNat, h.1, h.2⟩ else none

/-- The largest distance in days that can be stated at all. -/
def maxDistance : Int := 999999999

def plus (d : Day) (distance : Int) : Except Fault Day :=
  if distance < -maxDistance ∨ maxDistance < distance then .error .outOfRange
  else
    match ofNumber? (d.number + distance) with
    | some day => .ok day
    | none => .error .outOfRange

@[simp] theorem ofNumber?_number (d : Day) : ofNumber? d.number = some d := by
  simp [ofNumber?, d.one_le, d.le_last]

end Day

namespace Calendar

def isLeap (year : Int) : Bool :=
  year % 4 == 0 && (year % 100 != 0 || year % 400 == 0)

def yearLength (year : Int) : Nat := if isLeap year then 366 else 365

def daysBeforeYear (year : Int) : Int :=
  let y := year - 1
  365 * y + y / 4 - y / 100 + y / 400

def monthLengths (leap : Bool) : List Nat :=
  [31, if leap then 29 else 28, 31, 30, 31, 30, 31, 31, 30, 31, 30, 31]

def monthLength (year : Int) (month : Nat) : Nat :=
  (monthLengths (isLeap year)).getD (month - 1) 0

def daysBeforeMonth (year : Int) (month : Nat) : Nat :=
  ((monthLengths (isLeap year)).take (month - 1)).foldl (fun days length => days + length) 0

/-- Day of the week, with Monday zero. -/
def weekdayOf (number : Int) : Nat := ((number + 6) % 7).toNat

/-- The year of a day number, counted in cycles of 400, 100, 4 years and single years. -/
def yearOf (number : Int) : Int :=
  let n := number - 1
  let n400 := n / 146097
  let r400 := n % 146097
  let n100 := min (r400 / 36524) 3
  let r100 := r400 - 36524 * n100
  let n4 := r100 / 1461
  let r4 := r100 % 1461
  let n1 := min (r4 / 365) 3
  400 * n400 + 100 * n100 + 4 * n4 + n1 + 1

/-- Splits a position within a year into month and day, both from one. -/
def splitMonth : List Nat → Nat → Nat → Nat × Nat
  | [], month, offset => (month, offset + 1)
  | length :: rest, month, offset =>
      if offset < length then (month, offset + 1)
      else splitMonth rest (month + 1) (offset - length)

structure Civil where
  year : Int
  month : Nat
  day : Nat
  deriving DecidableEq, Repr

def civilOf (number : Int) : Civil :=
  let year := yearOf number
  let offset := (number - daysBeforeYear year - 1).toNat
  let (month, day) := splitMonth (monthLengths (isLeap year)) 1 offset
  ⟨year, month, day⟩

def Civil.number (c : Civil) : Int :=
  daysBeforeYear c.year + daysBeforeMonth c.year c.month + c.day

end Calendar

namespace Day

open Calendar

/-- The day of a year, a month and a day of month; the first part that does not exist is the
fault. -/
def ofCivil (year month day : Nat) : Except Fault Day :=
  if year < 1 ∨ 9999 < year then .error (.yearRange year)
  else if month < 1 ∨ 12 < month then .error .monthRange
  else if day < 1 ∨ monthLength year month < day then .error .dayRange
  else
    match ofNumber? (Civil.number ⟨year, month, day⟩) with
    | some d => .ok d
    | none => .error (.yearRange year)

def civil (d : Day) : Civil := civilOf d.number

def weekday (d : Day) : Nat := weekdayOf d.number

end Day

end Rostering
