import Rostering.Recurrence.Text
import Rostering.Value.Convert

namespace Rostering

open Text

/-! Overrides: on the days that a schedule of recurrence rules hits, shifts have another size, people
fixed beforehand, or are closed. -/

structure Override where
  /-- The rule as it was written, less its mark. -/
  ruleText : String
  /-- What the text states. -/
  schedule : Schedule
  size : Option Int := none
  preallocated : List String := []
  closed : Bool := false
  deriving DecidableEq, Repr

namespace Override

/-- A rule's text without the blanks around it and without one mark before it. -/
def normalized (text : String) : String :=
  let rule := trim text
  if (upper rule).startsWith (Rule.mark ++ ":") then
    String.ofList (rule.toList.drop (Rule.mark.length + 1))
  else rule

def make [DateReader] (text : String) (size : Option Int := none) (preallocated : List String := [])
    (closed : Bool := false) : Except Fault Override :=
  let ruleText := normalized text
  if ruleText.isEmpty then .error .ruleRequired
  else
    match Schedule.ofText ruleText with
    | .error .invalid => .error (.invalidRule text)
    | .error (.failed cause) => .error cause
    | .ok schedule =>
        match size with
        | some n =>
            if n < 1 then .error (.overrideSize n)
            else .ok ⟨ruleText, schedule, some n, preallocated, closed⟩
        | none => .ok ⟨ruleText, schedule, none, preallocated, closed⟩

/-- The field under either of two names, the first one first. -/
def eitherField (fields : Fields) (name other : String) : Value :=
  Fields.getD fields name (Fields.getD fields other .null)

def ofValue [DateReader] (v : Value) : Except Fault Override := do
  let fields ← v.toFields
  let text := (Fields.getD fields "rrule" .null).textOrEmpty
  let size ←
    match eitherField fields "shift_size" "shiftSize" with
    | .null => pure none
    | v => some <$> v.toInteger
  let people ← ((eitherField fields "preallocations" "prefilledAllocations").orElse
    (.list [])).items
  make text size (people.map Value.toText) (Fields.getD fields "closed" (.bool false)).isTrue

/-- How many days before the first shift a rule is set out, so that a hit on it counts. -/
def leadDays : Int := 7

/-- The days that a list of readings falls on, each once. -/
def daysOf (readings : List Int) : List Day :=
  (risingOnce (readings.map (· / microsPerDay))).filterMap Day.ofNumber?

/-- What an override hits between two midnights, when it is set out from the first. -/
def readings (o : Override) (anchor stop : Day) : Except Fault (List Int) :=
  (o.schedule.timeline anchor).within (anchor.number * microsPerDay) (stop.number * microsPerDay) []

/-- The days that an override hits, from a week before the first shift to a week after the
last. -/
def occurrences (o : Override) (first last : Day) : Except Fault (List Day) := do
  let anchor ← first.plus (-leadDays)
  let stop ← last.plus leadDays
  return daysOf (← o.readings anchor stop)

/-- Whether an override hits a day in a rotation from a first to a last shift. -/
def appliesTo (o : Override) (day first : Day) (last : Option Day := none) :
    Except Fault Bool :=
  return (← o.occurrences first (last.getD day)).contains day

end Override

end Rostering
