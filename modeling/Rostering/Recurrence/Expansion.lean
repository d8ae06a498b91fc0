import Rostering.Recurrence.Timeline
import Rostering.Recurrence.YearDay

namespace Rostering

open Calendar

/-! The hits of a rule from a start on. The rule steps from period to period; each period
offers days of a year and times of day, the rule's conditions thin them out, and what is left
comes in rising order. -/

/-- The days and times among which a rule chooses at one step. -/
structure Period where
  /-- The year whose tables hold. -/
  year : Int
  offsets : List Nat
  times : List Int
  deriving Repr

/-- Where a step leads. -/
inductive Step where
  | past
  /-- To the same period again. -/
  | standing
  | fault (cause : Fault)
  | period (p : Period)

namespace Rule

open YearDay

/-- The spans in which weekdays are counted. -/
def spans (rule : Rule) (p : Period) : Except Fault (List Span) :=
  match rule.frequency with
  | .yearly =>
      if rule.months.isEmpty then .ok [(0, yearLength p.year)]
      else (risingOnce rule.months).mapM (monthSpan p.year)
  | _ =>
      match p.offsets.head? with
      | some offset => return [← monthSpan p.year (monthAndDay p.year offset).1]
      | none => .ok []

def countedIn (rule : Rule) (p : Period) : Except Fault (Option (List Int)) := do
  let specs := rule.countedWeekdays
  if specs.isEmpty then return none
  let days ← (← rule.spans p).mapM fun span => countedDays p.year span specs
  return some days.flatten

def easterIn (rule : Rule) (p : Period) : Except Fault (Option (List Int)) := do
  if rule.easterOffsets.isEmpty then return none
  return some (← easterDays p.year rule.easterOffsets)

/-- Whether weeks that reach over from the year before cannot be counted, as in year 1. -/
def lacksYearBefore (rule : Rule) (year : Int) : Bool :=
  !rule.weeks.isEmpty && !rule.weeks.contains (-1) && year == 1 &&
    decide (0 < firstWeekOffset rule.weekStart year) && !startsWithPart rule.weekStart year

/-- Whether a day meets the conditions that need no count within the period. -/
def allowsDay (rule : Rule) (year : Int) (offset : Nat) : Bool :=
  let (month, day) := monthAndDay year offset
  let monthDays := rule.monthDays.filter (· ≠ 0)
  (rule.months.isEmpty || rule.months.contains (month : Int)) &&
    (rule.weeks.isEmpty || isInWeeks rule.weekStart year offset rule.weeks) &&
    (rule.plainWeekdays.isEmpty || rule.plainWeekdays.contains (weekdayAt year offset)) &&
    (monthDays.isEmpty || monthDays.contains (day : Int) ||
      monthDays.contains (dayFromEnd year offset)) &&
    (rule.yearDays.isEmpty || isYearDay year offset rule.yearDays)

def daysIn (rule : Rule) (p : Period) : Except Fault (List Nat) := do
  if rule.lacksYearBefore p.year then throw (.yearRange (p.year - 1))
  let counted ← rule.countedIn p
  let aroundEaster ← rule.easterIn p
  return p.offsets.filter fun offset =>
    rule.allowsDay p.year offset && counted.all (·.contains (offset : Int)) &&
      aroundEaster.all (·.contains (offset : Int))

/-- The instant of a day and a time; there is none after the last day of the calendar. -/
def instantOf (year : Int) (offset : Nat) (time : Int) : Except Fault Instant :=
  let number := firstDay year + offset
  if (lastDayNumber : Int) < number then .error (.yearRange (year + 1))
  else .ok (number * secondsPerDay + time)

/-- The day and time at a position of the period's list of all its days and times. -/
def atPosition? (days : List Nat) (times : List Int) (position : Int) : Option (Nat × Int) :=
  let place := if position < 0 then position else position - 1
  let count : Int := times.length
  match itemAt? days (Int.fdiv place count), itemAt? times (Int.fmod place count) with
  | some day, some time => some (day, time)
  | _, _ => none

/-- The instants of a period, up to the first that the calendar lacks. -/
def instantsOf (rule : Rule) (p : Period) (days : List Nat) : List (Except Fault Instant) :=
  if rule.setPositions.isEmpty || p.times.isEmpty then
    days.flatMap fun day => p.times.map (instantOf p.year day)
  else
    let chosen := rule.setPositions.filterMap (atPosition? days p.times)
    match chosen.mapM fun (day, time) => instantOf p.year day time with
    | .ok instants => (risingOnce instants).map .ok
    | .error cause => [.error cause]

def yearlyPeriod (rule : Rule) (anchor : Day) (times : List Int) (k : Int) : Step :=
  let start := anchor.civil.year
  let year := start + rule.interval * k
  if 9999 < year then .past
  else if year < 1 then
    .fault (.yearRange ((start - 1) % rule.interval + 1 + rule.interval))
  else .period ⟨year, List.range (yearLength year), times⟩

def monthlyPeriod (rule : Rule) (anchor : Day) (times : List Int) (k : Int) : Step :=
  let civil := anchor.civil
  let months : Int := 12 * civil.year + civil.month - 1 + rule.interval * k
  let year := months / 12
  if 9999 < year then .past
  else if year < civil.year then .fault (.monthSpan 0)
  else
    let month := (months % 12).toNat + 1
    let first := daysBeforeMonth year month
    .period ⟨year, (List.range (monthLength year month)).map (first + ·), times⟩

/-- A period of days in a row within the tables of its first day's year. -/
def daysFrom (number : Int) (count : Nat) (times : List Int) : Step :=
  if (lastDayNumber : Int) < number then .past
  else
    let year := yearOf number
    let first := (number - firstDay year).toNat
    .period ⟨year, (List.range count).map (first + ·), times⟩

/-- The first week counts from the anchor only; later ones are whole. -/
def weeklyPeriod (rule : Rule) (anchor : Day) (times : List Int) (k : Int) : Step :=
  let into := (anchor.weekday + 7 - rule.weekStart) % 7
  if k = 0 then daysFrom anchor.number (7 - into) times
  else if rule.interval < 0 then .fault .dayRange
  else daysFrom (anchor.number - into + 7 * rule.interval * k) 7 times

def dailyPeriod (rule : Rule) (anchor : Day) (times : List Int) (k : Int) : Step :=
  if rule.interval * k < 0 then .fault .dayRange
  else daysFrom (anchor.number + rule.interval * k) 1 times

/-- Whether a time of day is one that a step within the day stops at. -/
def stopsAt (rule : Rule) (second : Int) : Bool :=
  let meets (values : List Int) (value : Int) : Bool := values.isEmpty || values.contains value
  meets rule.hours (second / 3600) &&
    (rule.frequency == .hourly || meets rule.minutes (second / 60 % 60)) &&
    (rule.frequency != .secondly || meets rule.seconds (second % 60))

/-- The times of a step within the day: those of its hour or minute, or its own. -/
def stepTimes (rule : Rule) (start : Start) (second : Int) : Except Fault (List Int) :=
  let seconds := valuesOr rule.seconds start.secondOfMinute
  if !rule.stopsAt second then .ok []
  else
    match rule.frequency with
    | .hourly => timesOfDay [second / 3600] (valuesOr rule.minutes start.minute) seconds
    | .minutely => timesOfDay [second / 3600] [second / 60 % 60] seconds
    | _ => .ok [second]

/-- Whether some step within the cycle that the steps run through satisfies a test. -/
def someStep (rule : Rule) (start : Start) (unit : Int) (test : Int → Bool) : Bool :=
  let cycle := (secondsPerDay / unit).toNat
  (List.range (cycle / Int.gcd rule.interval cycle)).any fun k =>
    test ((start.second.val + k * rule.interval * unit) % secondsPerDay)

/-- Whether values are given and no minute or second has one of them. -/
def isUnreachable (values : List Int) : Bool :=
  !values.isEmpty && values.all fun v => v < 0 || 59 < v

/-- Why no step within the day ever stops, if none does. -/
def neverStops? (rule : Rule) (start : Start) (unit : Int) : Option Fault :=
  if rule.someStep start unit rule.stopsAt then none
  else
    match rule.frequency with
    | .hourly => some .wrongKind
    | .minutely =>
        if isUnreachable rule.minutes then some .wrongKind else some .unreachableHour
    | _ =>
        if isUnreachable rule.seconds then some .wrongKind else some .unreachableMinute

/-- The seconds from the midnight before the start to the k-th step within the day. -/
def stepSecond (rule : Rule) (start : Start) (unit : Int) (k : Int) : Int :=
  start.second.val + rule.interval * k * unit

def withinDayPeriod (rule : Rule) (start : Start) (unit : Int) (k : Int) : Step :=
  let second := rule.stepSecond start unit k
  if second < 0 then .fault .dayRange
  else
    match rule.stepTimes start (second % secondsPerDay) with
    | .error cause => .fault cause
    | .ok times => daysFrom (start.day.number + second / secondsPerDay) 1 times

/-- A step of no length. A week's goes back to its first day, which must be one of the month. -/
def standingStep (rule : Rule) (anchor : Day) : Step :=
  if rule.frequency = .weekly ∧ anchor.civil.day ≤ (anchor.weekday + 7 - rule.weekStart) % 7 then
    .fault .dayRange
  else .standing

end Rule

/-- A rule set out from a start. -/
structure Expansion where
  rule : Rule
  start : Start
  /-- The times of day of a rule that does not step within the day. -/
  times : List Int
  /-- Why the steps within the day after the first never stop. -/
  deadEnd : Option Fault := none

namespace Rule

def expandFrom (rule : Rule) (start : Start) : Expansion where
  rule := rule.anchoredAt start.day
  start
  times := (rule.dayTimes start).toOption.getD []
  deadEnd := rule.frequency.unit?.bind (rule.neverStops? start)

end Rule

namespace Expansion

/-- The k-th period from the start. -/
def periodAt (e : Expansion) (k : Nat) : Step :=
  if k ≠ 0 ∧ e.rule.interval = 0 then e.rule.standingStep e.start.day
  else
    match e.rule.frequency with
    | .yearly => e.rule.yearlyPeriod e.start.day e.times k
    | .monthly => e.rule.monthlyPeriod e.start.day e.times k
    | .weekly => e.rule.weeklyPeriod e.start.day e.times k
    | .daily => e.rule.dailyPeriod e.start.day e.times k
    | .hourly => e.rule.withinDayPeriod e.start 3600 k
    | .minutely => e.rule.withinDayPeriod e.start 60 k
    | .secondly => e.rule.withinDayPeriod e.start 1 k

/-- How many steps within the day are left out with the rest of a day that does not count. -/
def stepsToDayEnd (e : Expansion) (unit : Int) (k : Nat) : Except Fault Nat :=
  let place := e.rule.stepSecond e.start unit k % secondsPerDay / unit
  let steps := Int.fdiv (secondsPerDay / unit - 1 - place) e.rule.interval
  if steps < 0 then .error .standstill else .ok steps.toNat

/-- The step after the k-th, from which some days counted. -/
def stepAfter (e : Expansion) (k : Nat) (days : List Nat) : Except Fault Nat :=
  match e.rule.frequency.unit? with
  | none => .ok (k + 1)
  | some unit =>
      if days.isEmpty && e.rule.interval == 0 then .error .zeroDivisor
      else
        match e.deadEnd with
        | some cause => .error cause
        | none =>
            if days.isEmpty then (k + · + 1) <$> e.stepsToDayEnd unit k else .ok (k + 1)

/-- Whether the rule's own end lies before an instant. -/
def isOver (e : Expansion) (t : Instant) : Except Fault Bool :=
  match e.rule.lastInstant with
  | none => .ok false
  | some last => last.point.lt (e.start.pointOf t)

/-- Takes hits from the start on, as long as the rule's own end and count allow, and goes on with
the count that is left. -/
def takeHits (e : Expansion) (next : Option Int → Timeline Instant) :
    Option Int → List (Except Fault Instant) → Timeline Instant
  | count, [] => next count
  | _, .error cause :: _ => .broken cause
  | count, .ok t :: rest =>
      match e.isOver t with
      | .error cause => .broken cause
      | .ok true => .ended
      | .ok false =>
          if t < e.start.instant then takeHits e next count rest
          else if count.any (· ≤ 0) then .ended
          else .hit t fun _ => takeHits e next (count.map (· - 1)) rest

/-- The hits in the periods from the k-th on. A rule that stands hits the same again, until its
count is used up or, without hits or without a count, for ever. -/
def walk (e : Expansion) : Nat → Nat → Option Int → Timeline Instant
  | 0, _, _ => .broken .standstill
  | fuel + 1, k, count =>
      match e.periodAt k with
      | .past => .ended
      | .standing => if count = e.rule.count then .broken .standstill else .ended
      | .fault cause => .broken cause
      | .period p =>
          match e.rule.daysIn p with
          | .error cause => .broken cause
          | .ok days =>
              let next (count : Option Int) : Timeline Instant :=
                match e.stepAfter k days with
                | .error cause => .broken cause
                | .ok later => walk e fuel later count
              takeHits e next count (e.rule.instantsOf p days)

/-- The calendar has no more seconds, so no more steps, than this. -/
def maxSteps : Nat := (lastDayNumber + 1) * 86400

def timeline (e : Expansion) : Timeline Instant := e.walk maxSteps 0 e.rule.count

end Expansion

end Rostering
