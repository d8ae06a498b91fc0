import Rostering.Recurrence.Rule

namespace Rostering

open Calendar

/-! The days of a year as a rule sees them, by their offset from January 1. Offsets past the end
of the year belong to a week that crosses it and go on with January of the same tables. -/

/-- The item at a position, counted from the end where it is negative. -/
def itemAt? {α : Type} (items : List α) (position : Int) : Option α :=
  if 0 ≤ position then items[position.toNat]?
  else if 0 ≤ items.length + position then items[(items.length + position).toNat]?
  else none

/-- The items from one position up to another, each counted from the end where negative. -/
def itemsBetween {α : Type} (items : List α) (start stop : Int) : List α :=
  let bound (position : Int) : Nat :=
    if 0 ≤ position then position.toNat else (items.length + position).toNat
  (items.take (bound stop)).drop (bound start)

namespace YearDay

def firstDay (year : Int) : Int := daysBeforeYear year + 1

def firstWeekday (year : Int) : Nat := weekdayOf (firstDay year)

def weekdayAt (year : Int) (offset : Nat) : Nat := weekdayOf (firstDay year + offset)

def monthAndDay (year : Int) (offset : Nat) : Nat × Nat :=
  if offset < yearLength year then splitMonth (monthLengths (isLeap year)) 1 offset
  else (1, offset - yearLength year + 1)

def dayFromEnd (year : Int) (offset : Nat) : Int :=
  let (month, day) := monthAndDay year offset
  (day : Int) - monthLength year month - 1

/-- Whether one of some days of the year, counted from either end, is meant. -/
def isYearDay (year : Int) (offset : Nat) (days : List Int) : Bool :=
  let length : Int := yearLength year
  let i : Int := offset
  if i < length then days.contains (i + 1) || days.contains (i - length)
  else
    days.contains (i + 1 - length) || days.contains (i - length - yearLength (year + 1))

/-- The offset at which the first whole week of a year starts. -/
def firstWeekOffset (weekStart : Nat) (year : Int) : Nat :=
  (7 - firstWeekday year + weekStart) % 7

/-- Whether the days before the first whole week form week 1: if they are at least four. -/
def startsWithPart (weekStart : Nat) (year : Int) : Bool :=
  decide (4 ≤ firstWeekOffset weekStart year)

/-- The days that are counted in a year's weeks: with those that week 1 has from the year
before, or without those that the year before has. -/
def weekDays (weekStart : Nat) (year : Int) : Nat :=
  if startsWithPart weekStart year then
    yearLength year + (firstWeekday year + 7 - weekStart) % 7
  else yearLength year - firstWeekOffset weekStart year

def weekCount (weekStart : Nat) (year : Int) : Nat :=
  let days := weekDays weekStart year
  days / 7 + days % 7 / 4

/-- The number of the week that an offset lies in; zero before week 1. -/
def weekAt (weekStart : Nat) (year : Int) (offset : Nat) : Nat :=
  let first := firstWeekOffset weekStart year
  let part := if startsWithPart weekStart year then 1 else 0
  if offset < first then part else (offset - first) / 7 + 1 + part

/-- The offset at which the week of an offset starts, for one that is not before week 1. -/
def weekStartAt (weekStart : Nat) (year : Int) (offset : Nat) : Nat :=
  let first := firstWeekOffset weekStart year
  if offset < first then 0 else first + (offset - first) / 7 * 7

/-- The number of the week of the year before that reaches into a year. Where the year before
starts with a week of its own, the length and the offset of the later year are taken. -/
def carriedWeek (weekStart : Nat) (year : Int) : Int :=
  let before := year - 1
  if startsWithPart weekStart before then
    52 + (yearLength before + (firstWeekday before + 7 - weekStart) % 7) % 7 / 4
  else 52 + (yearLength year - firstWeekOffset weekStart year) % 7 / 4

/-- Whether an offset lies in one of some weeks, counted from either end of the year. -/
def isInWeeks (weekStart : Nat) (year : Int) (offset : Nat) (weeks : List Int) : Bool :=
  let week := weekAt weekStart year offset
  let count := weekCount weekStart year
  if week = 0 then weeks.contains (-1) || weeks.contains (carriedWeek weekStart year)
  else if week ≤ count then
    weeks.contains (week : Int) || weeks.contains ((week : Int) - count - 1)
  else
    week == count + 1 && decide (weekStartAt weekStart year offset < yearLength year) &&
      weeks.contains 1

/-- Easter Sunday of the Gregorian calendar, as an offset. -/
def easter (year : Int) : Int :=
  let century := year / 100
  let golden := year % 19
  let h := (century - century / 4 - (8 * century + 13) / 25 + 19 * golden + 15) % 30
  let i := h - h / 28 * (1 - h / 28 * (29 / (h + 1)) * ((21 - golden) / 11))
  let j := (year + year / 4 + i + 2 - century + century / 4) % 7
  let p := i - j
  let day := 1 + (p + 27 + (p + 6) / 40) % 31
  let month := 3 + (p + 26) / 30
  daysBeforeMonth year month.toNat + day - 1

/-- The offsets that lie some days from Easter. They are places in the year and a week more,
counted from the end where negative. -/
def easterDays (year : Int) (distances : List Int) : Except Fault (List Int) :=
  let places : Int := yearLength year + 7
  distances.mapM fun distance =>
    let place := easter year + distance
    if place < -places ∨ places ≤ place then .error .noSuchPosition
    else .ok (if place < 0 then place + places else place)

/-- A span of days: its first offset and the one after its last. -/
abbrev Span := Nat × Nat

/-- The offset at which each month starts, and the end of the year. -/
def monthStarts (year : Int) : List Nat :=
  (List.range 13).map fun i => daysBeforeMonth year (i + 1)

/-- The span of a month. A month outside the year has none. -/
def monthSpan (year month : Int) : Except Fault Span :=
  match itemsBetween (monthStarts year) (month - 1) (month + 1) with
  | [first, next] => .ok (first, next)
  | others => .error (.monthSpan others.length)

/-- How far weekdays are looked up, from the first Monday before the year. -/
def lookupLength : Int := 385

/-- The n-th weekday of a span, counted from its end where n is negative. It need not lie in the
span. -/
def countedWeekday (year : Int) (span : Span) (weekday : Nat) (n : Int) : Except Fault Int :=
  let places := lookupLength - firstWeekday year
  let weekdayOfPlace (place : Int) : Int :=
    weekdayAt year ((if place < 0 then place + places else place).toNat)
  if n < 0 then
    let place : Int := span.2 - 1 + (n + 1) * 7
    if place < -places then .error .noSuchPosition
    else .ok (place - (weekdayOfPlace place - weekday) % 7)
  else
    let place : Int := span.1 + (n - 1) * 7
    if places ≤ place then .error .noSuchPosition
    else .ok (place + (7 - weekdayOfPlace place + weekday) % 7)

def countedDays (year : Int) (span : Span) (specs : List (Nat × Int)) :
    Except Fault (List Int) := do
  let days ← specs.mapM fun (weekday, n) => countedWeekday year span weekday n
  return days.filter fun day => decide ((span.1 : Int) ≤ day ∧ day < span.2)

end YearDay

end Rostering
