import Rostering.Calendar.Day
import Rostering.Text.Digit

namespace Rostering

open Text Calendar

/-! ISO 8601 text of days and moments. A day is read in its calendar or its week form, with or
without dashes, and written in the dashed calendar form. -/

def asciiNumber? (cs : List Char) : Option Nat :=
  (cs.mapM asciiDigit?).map ofDigits

/-- Reads exactly `count` ASCII digits: their value and what follows them. -/
def takeNumber? (count : Nat) (cs : List Char) : Option (Nat × List Char) :=
  if (cs.take count).length = count then
    (asciiNumber? (cs.take count)).map fun n => (n, cs.drop count)
  else none

/-- Reads a mark that stands only in a dashed form. -/
def takeDash? : Bool → List Char → Option (List Char)
  | false, cs => some cs
  | true, '-' :: rest => some rest
  | true, _ => none

def padded (width n : Nat) : String :=
  let digits := toString n
  String.ofList (List.replicate (width - digits.length) '0') ++ digits

namespace Day

/-- The number of the Monday that starts week 1 of a year: the week of January 4. -/
def firstWeekStart (year : Int) : Int :=
  let fourth := daysBeforeYear year + 4
  fourth - weekdayOf fourth

def hasLongWeekYear (year : Int) : Bool :=
  firstWeekStart (year + 1) - firstWeekStart year == 371

inductive IsoParts where
  | civil (year month day : Nat)
  | week (year week weekday : Nat)

/-- Reads the parts of a day. A week may lack its weekday, which is then Monday. -/
def isoParts? (cs : List Char) : Option IsoParts := do
  let (year, cs) ← takeNumber? 4 cs
  let dashed := cs.head? == some '-'
  match if dashed then cs.drop 1 else cs with
  | 'W' :: cs =>
      let (week, cs) ← takeNumber? 2 cs
      if cs.isEmpty then return .week year week 1
      let (weekday, _) ← takeNumber? 1 (← takeDash? dashed cs)
      return .week year week weekday
  | cs =>
      let (month, cs) ← takeNumber? 2 cs
      let (day, _) ← takeNumber? 2 (← takeDash? dashed cs)
      return .civil year month day

/-- The day of a week, counted from Monday one. A week or weekday that does not exist makes the
whole text unreadable; the days of year 0 and after year 9999 have no month or year. -/
def ofWeek (text : String) (year week weekday : Nat) : Except Fault Day :=
  if week < 1 ∨ 53 < week ∨ (week = 53 ∧ (year = 0 ∨ !hasLongWeekYear year)) then
    .error (.dateText text)
  else if weekday < 1 ∨ 7 < weekday then .error (.dateText text)
  else if year = 0 then .error .monthRange
  else
    let number := firstWeekStart year + 7 * (week - 1) + (weekday - 1)
    match ofNumber? number with
    | some d => .ok d
    | none => .error (.yearRange (yearOf number))

/-- How many bytes the text of a day may have. -/
def isoSizes : List Nat := [7, 8, 10]

/-- Reads a day in any of the accepted forms. Ten bytes without dashes state the day in their
first seven or eight. -/
def ofIsoText (text : String) : Except Fault Day :=
  if text.utf8ByteSize ∈ isoSizes then
    match isoParts? text.toList with
    | some (.civil year month day) => ofCivil year month day
    | some (.week year week weekday) => ofWeek text year week weekday
    | none => .error (.dateText text)
  else .error (.dateText text)

def isoText (d : Day) : String :=
  let c := d.civil
  padded 4 c.year.toNat ++ "-" ++ padded 2 c.month ++ "-" ++ padded 2 c.day

end Day

/-- A moment: a day and the microseconds since its midnight. -/
structure Moment where
  day : Day
  microsecond : Nat := 0
  deriving DecidableEq, Repr

namespace Moment

/-- Day and time of day with a mark between them; a fraction only where there is one. -/
def textWith (mark : String) (m : Moment) : String :=
  let second := m.microsecond / 1000000
  let fraction := m.microsecond % 1000000
  m.day.isoText ++ mark ++ padded 2 (second / 3600) ++ ":" ++ padded 2 (second / 60 % 60) ++
    ":" ++ padded 2 (second % 60) ++ (if fraction = 0 then "" else "." ++ padded 6 fraction)

def isoText (m : Moment) : String := m.textWith "T"

/-- Reads `YYYY-MM-DD`, a mark and `HH:MM[:SS[.ffffff]]`. -/
def ofIsoText (text : String) : Except Fault Moment := do
  let cs := text.toList
  let day ← Day.ofIsoText (String.ofList (cs.take 10))
  let two (start : Nat) : Nat := (asciiNumber? ((cs.drop start).take 2)).getD 0
  let fraction := (cs.drop 20).take 6
  let micro := (asciiNumber? fraction).getD 0 * Nat.pow 10 (6 - fraction.length)
  return ⟨day, (two 11 * 3600 + two 14 * 60 + two 17) * 1000000 + micro⟩

end Moment

end Rostering
