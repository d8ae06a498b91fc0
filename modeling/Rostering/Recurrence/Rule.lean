import Rostering.Calendar.Stamp
import Rostering.IndexSet

namespace Rostering

open Calendar

/-! Recurrence rules in the sense of RFC 5545: how often, and which days and times of each
period. An empty list of values is no condition. -/

inductive Frequency where
  | yearly
  | monthly
  | weekly
  | daily
  | hourly
  | minutely
  | secondly
  deriving DecidableEq, Repr

namespace Frequency

def name : Frequency → String
  | yearly => "YEARLY"
  | monthly => "MONTHLY"
  | weekly => "WEEKLY"
  | daily => "DAILY"
  | hourly => "HOURLY"
  | minutely => "MINUTELY"
  | secondly => "SECONDLY"

def all : List Frequency := [yearly, monthly, weekly, daily, hourly, minutely, secondly]

/-- The seconds of one step, for a frequency that steps within the day. -/
def unit? : Frequency → Option Int
  | hourly => some 3600
  | minutely => some 60
  | secondly => some 1
  | _ => none

/-- Whether the n-th weekday of a period has a meaning. -/
def hasOrdinals : Frequency → Bool
  | yearly | monthly => true
  | _ => false

end Frequency

/-- A day of the week, Monday zero, and which one of its period. -/
structure WeekdaySpec where
  weekday : Nat
  ordinal : Option Int := none
  deriving DecidableEq, Repr

/-- A point in time as seconds, with the calendar's day numbers as multiples of a whole day. -/
abbrev Instant := Int

def secondsPerDay : Int := 86400

def Day.midnight (d : Day) : Instant := d.number * secondsPerDay

/-- The second of the day that a midnight is. -/
def firstSecond : Fin 86400 := 0

/-- Where a rule starts: a day, a second of it, and the zone of all that the rule hits. -/
structure Start where
  day : Day
  second : Fin 86400 := firstSecond
  zone : Option Zone := none
  deriving DecidableEq, Repr

namespace Start

def ofStamp (s : Stamp) : Start where
  day := s.day
  second := .ofNat _ (s.micro.val / 1000000)
  zone := s.zone

def instant (start : Start) : Instant := start.day.midnight + start.second.val

def hour (start : Start) : Int := start.second.val / 3600

def minute (start : Start) : Int := start.second.val / 60 % 60

def secondOfMinute (start : Start) : Int := start.second.val % 60

/-- An instant by the clock of a rule's start. -/
def pointOf (start : Start) (t : Instant) : Point := ⟨t * microsPerSecond, start.zone⟩

end Start

structure Rule where
  frequency : Frequency
  interval : Int := 1
  count : Option Int := none
  lastInstant : Option Stamp := none
  weekStart : Nat := 0
  setPositions : List Int := []
  months : List Int := []
  monthDays : List Int := []
  yearDays : List Int := []
  easterOffsets : List Int := []
  weeks : List Int := []
  weekdays : List WeekdaySpec := []
  hours : List Int := []
  minutes : List Int := []
  seconds : List Int := []
  deriving DecidableEq, Repr

/-- The values of a list in rising order, each once. -/
def risingOnce (values : List Int) : List Int := (IndexSet.ofList values).toList

/-- Whether a number is too large to be tried as a part of a time. -/
def isOversized (n : Int) : Bool := decide (n < -2147483648 ∨ 2147483647 < n)

/-- The second of the day of a time; the first part out of its range is the fault. -/
def secondOfDay (hour minute second : Int) : Except Fault Int :=
  if isOversized hour || isOversized minute || isOversized second then .error .outOfRange
  else if hour < 0 ∨ 23 < hour then .error .hourRange
  else if minute < 0 ∨ 59 < minute then .error .minuteRange
  else if second < 0 ∨ 59 < second then .error .secondRange
  else .ok (hour * 3600 + minute * 60 + second)

/-- The times of day that some hours, minutes and seconds make, in rising order. -/
def timesOfDay (hours minutes seconds : List Int) : Except Fault (List Int) :=
  (hours.flatMap fun h => minutes.flatMap fun m => seconds.map fun s => (h, m, s)).mapM
    fun (h, m, s) => secondOfDay h m s

namespace Rule

/-- The values of a part of the time, that of the start where the rule leaves it open. -/
def valuesOr (values : List Int) (own : Int) : List Int :=
  if values.isEmpty then [own] else risingOnce values

def dayTimes (rule : Rule) (start : Start) : Except Fault (List Int) :=
  timesOfDay (valuesOr rule.hours start.hour) (valuesOr rule.minutes start.minute)
    (valuesOr rule.seconds start.secondOfMinute)

/-- Whether the rule leaves open which days of a period it means. -/
def leavesDayOpen (rule : Rule) : Bool :=
  rule.weeks.isEmpty && rule.yearDays.isEmpty && rule.monthDays.isEmpty &&
    rule.weekdays.isEmpty && rule.easterOffsets.isEmpty

/-- Fills an open day in from the anchor: its date for years and months, its weekday for
weeks. -/
def anchoredAt (rule : Rule) (anchor : Day) : Rule :=
  if !rule.leavesDayOpen then rule
  else
    match rule.frequency with
    | .yearly =>
        { rule with
          months := if rule.months.isEmpty then [anchor.civil.month] else rule.months
          monthDays := [anchor.civil.day] }
    | .monthly => { rule with monthDays := [anchor.civil.day] }
    | .weekly => { rule with weekdays := [⟨anchor.weekday, none⟩] }
    | _ => rule

/-- The weekdays that a day may have, whatever its place in the period. -/
def plainWeekdays (rule : Rule) : List Nat :=
  if rule.frequency.hasOrdinals then
    (rule.weekdays.filter fun spec => spec.ordinal.isNone).map WeekdaySpec.weekday
  else rule.weekdays.map WeekdaySpec.weekday

def countedWeekdays (rule : Rule) : List (Nat × Int) :=
  if rule.frequency.hasOrdinals then
    rule.weekdays.filterMap fun spec => spec.ordinal.map fun n => (spec.weekday, n)
  else []

end Rule

end Rostering
