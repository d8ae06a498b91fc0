import Rostering.Number.Numeral
import Rostering.Recurrence.Schedule

namespace Rostering

open Text

/-! Reading recurrence rules, and schedules of a property on each line. A text that states none, or
a rule that no time can satisfy in form, is refused as a whole. -/

variable [DateReader]

namespace Rule

/-- What a rule may state, by name; a later statement replaces an earlier one. -/
abbrev Parts := List (String × String)

def weekdayNames : List String := ["MO", "TU", "WE", "TH", "FR", "SA", "SU"]

def weekdayOfName? (name : String) : Option Nat := weekdayNames.findIdx? (· == name)

def pieces (mark : Char) (s : String) : List String :=
  (splitOnChar mark s.toList).map String.ofList

def integers? (s : String) : Option (List Int) := (pieces ',' s).mapM integerOfText?

def isOrdinalChar (c : Char) : Bool := c == '+' || c == '-' || (asciiDigit? c).isSome

/-- A weekday with its ordinal before it, as in `+1MO`. -/
def leadingOrdinal? (cs : List Char) : Option WeekdaySpec := do
  let weekday ← weekdayOfName? (String.ofList (cs.dropWhile isOrdinalChar))
  match cs.takeWhile isOrdinalChar with
  | [] => return ⟨weekday, none⟩
  | digits => return ⟨weekday, ← (integerOfText? (String.ofList digits)).filter (· ≠ 0)⟩

/-- A weekday with its ordinal in brackets, as in `MO(2)`. -/
def bracketedOrdinal? (name ordinal : List Char) : Option WeekdaySpec := do
  let n ← integerOfText? (String.ofList ordinal.dropLast)
  return ⟨← weekdayOfName? (String.ofList name), ← (some n).filter (· ≠ 0)⟩

def weekdaySpec? (s : String) : Option WeekdaySpec :=
  match splitOnChar '(' s.toList with
  | name :: ordinal :: _ => bracketedOrdinal? name ordinal
  | _ => leadingOrdinal? s.toList

def partNames : List String :=
  ["FREQ", "INTERVAL", "COUNT", "UNTIL", "WKST", "BYSETPOS", "BYMONTH", "BYMONTHDAY",
    "BYYEARDAY", "BYEASTER", "BYWEEKNO", "BYDAY", "BYWEEKDAY", "BYHOUR", "BYMINUTE", "BYSECOND"]

def requireSome {α : Type} : Option α → Except Unread Unit
  | some _ => .ok ()
  | none => .error .invalid

/-- Reads a single part by itself, for whether it can be read. -/
def checkPart (name value : String) : Except Unread Unit :=
  match name with
  | "FREQ" => requireSome (Frequency.all.find? fun f => f.name == value)
  | "INTERVAL" | "COUNT" => requireSome (integerOfText? value)
  | "UNTIL" => (fun _ => ()) <$> DateReader.read value
  | "WKST" => requireSome (weekdayOfName? value)
  | "BYDAY" | "BYWEEKDAY" => requireSome ((pieces ',' value).mapM weekdaySpec?)
  | _ => if partNames.contains name then requireSome (integers? value) else .error .invalid

def readPart (part : String) : Except Unread (String × String) :=
  match pieces '=' part with
  | [name, value] => do
      checkPart name value
      return (name, value)
  | _ => .error .invalid

def parts (s : String) : Except Unread Parts := (pieces ';' s).mapM readPart

/-- The value of a part that is stated last under one of some names. -/
def Parts.last? (parts : Parts) (names : List String) : Option String :=
  (parts.reverse.find? fun part => names.contains part.1).map (·.2)

def Parts.integers (parts : Parts) (name : String) : List Int :=
  ((parts.last? [name]).bind integers?).getD []

def Parts.integer? (parts : Parts) (name : String) : Option Int :=
  (parts.last? [name]).bind integerOfText?

/-- The values that steps of an interval reach within a cycle, counted from a start in it. -/
def reachable (interval : Int) (cycle : Nat) (start : Int) (values : List Int) : List Int :=
  values.filter fun v => (v - start) % (Int.gcd interval cycle : Int) == 0

/-- Keeps of the part of the time that the rule steps through the values that it reaches. -/
def restrictTimes (rule : Rule) (start : Start) : Rule :=
  match rule.frequency with
  | .hourly => { rule with hours := reachable rule.interval 24 start.hour rule.hours }
  | .minutely => { rule with minutes := reachable rule.interval 60 start.minute rule.minutes }
  | .secondly =>
      { rule with seconds := reachable rule.interval 60 start.secondOfMinute rule.seconds }
  | _ => rule

def emptied (rule : Rule) (start : Start) : Bool :=
  let restricted := rule.restrictTimes start
  (restricted.hours.isEmpty && !rule.hours.isEmpty) ||
    (restricted.minutes.isEmpty && !rule.minutes.isEmpty) ||
    (restricted.seconds.isEmpty && !rule.seconds.isEmpty)

def isSetPosition (n : Int) : Bool := n ≠ 0 && decide (n.natAbs ≤ 366)

/-- Whether the rule's end and its start are both by the clock of a place or both by none. -/
def endsLike (rule : Rule) (start : Start) : Bool :=
  rule.lastInstant.all fun last => last.zone.isSome == start.zone.isSome

def lastOfParts (parts : Parts) : Option Stamp :=
  (parts.last? ["UNTIL"]).bind fun value => (DateReader.read value).toOption

def rawOfParts? (parts : Parts) : Option Rule := do
  let frequency ← (parts.last? ["FREQ"]).bind fun v => Frequency.all.find? fun f => f.name == v
  return {
    frequency
    interval := (parts.integer? "INTERVAL").getD 1
    count := parts.integer? "COUNT"
    lastInstant := lastOfParts parts
    weekStart := ((parts.last? ["WKST"]).bind weekdayOfName?).getD 0
    setPositions := parts.integers "BYSETPOS"
    months := parts.integers "BYMONTH"
    monthDays := parts.integers "BYMONTHDAY"
    yearDays := parts.integers "BYYEARDAY"
    easterOffsets := parts.integers "BYEASTER"
    weeks := parts.integers "BYWEEKNO"
    weekdays := ((parts.last? ["BYDAY", "BYWEEKDAY"]).bind fun v =>
      (pieces ',' v).mapM weekdaySpec?).getD []
    hours := parts.integers "BYHOUR"
    minutes := parts.integers "BYMINUTE"
    seconds := parts.integers "BYSECOND" }

/-- Fits a rule to its start, where its parts allow that. -/
def fit (rule : Rule) (start : Start) : Except Unread Rule :=
  if !rule.setPositions.all isSetPosition || rule.emptied start || !rule.endsLike start then
    .error .invalid
  else if rule.frequency.unit?.isSome then .ok (rule.restrictTimes start)
  else
    match rule.dayTimes start with
    | .ok _ => .ok (rule.restrictTimes start)
    | .error .outOfRange => .error (.failed .outOfRange)
    | .error _ => .error .invalid

def ofParts (start : Start) (parts : Parts) : Except Unread Rule :=
  match rawOfParts? parts with
  | some rule => rule.fit start
  | none => .error .invalid

/-- The mark that may stand before the parts of a rule. -/
def mark : String := "RRULE"

def body (line : String) : Except Unread String :=
  match pieces ':' line with
  | [body] => .ok body
  | [name, body] => if name == mark then .ok body else .error .invalid
  | _ => .error .invalid

/-- Reads one rule, with or without its mark. -/
def ofLine (start : Start) (line : String) : Except Unread Rule := do
  ofParts start (← parts (← body line))

end Rule

namespace Schedule

/-- What a line states: the text of a rule or of dates, still to be read, or dates that are read
with their zones. -/
inductive Entry where
  | rule (text : String)
  | dates (text : String)
  | exRule (text : String)
  | exDates (stamps : List Stamp)
  | start (stamp : Stamp)

def zoneMark : List Char := "TZID=".toList

/-- What follows the first mark of a zone, unless nothing does. -/
def afterZoneMark? : List Char → Option (List Char)
  | [] => none
  | c :: rest =>
      if zoneMark.isPrefixOf (c :: rest) then
        let name := (c :: rest).drop zoneMark.length
        if name.isEmpty then none else some name
      else afterZoneMark? rest

/-- What follows the last mark of a zone. -/
def afterLastZoneMark? : List Char → Option (List Char)
  | [] => none
  | c :: rest =>
      match afterLastZoneMark? rest with
      | some name => some name
      | none =>
          if zoneMark.isPrefixOf (c :: rest) then some ((c :: rest).drop zoneMark.length) else none

/-- The names of zones that stand before colons, as they are spelled, by their capitals. The last
spelling comes first. -/
def zoneNames (text : String) : List (String × String) :=
  let names := (splitOnChar ':' text.toList).dropLast.filterMap afterZoneMark?
  (names.map fun name => (upper (String.ofList name), String.ofList name)).reverse

/-- Follows a parameter of dates: their zone, unless its name is not known from the text, or that
they are dates at all, which is said once. -/
def followParameter (zones : List (String × String)) (found : Option Zone × Bool)
    (parameter : String) : Except Unread (Option Zone × Bool) :=
  match zoneMark.isPrefixOf parameter.toList, afterLastZoneMark? parameter.toList with
  | true, some name =>
      match zones.lookup (String.ofList name) with
      | some spelled => .ok (DateReader.zone? spelled, found.2)
      | none => .ok found
  | _, _ =>
      if found.2 || !(["VALUE=DATE-TIME", "VALUE=DATE"].contains parameter) then .error .invalid
      else .ok (found.1, true)

/-- Reads a date, which has a zone from the parameters or of its own but not both. -/
def stampIn (zone : Option Zone) (text : String) : Except Unread Stamp := do
  let stamp ← DateReader.read text
  match zone, stamp.zone with
  | none, _ => return stamp
  | some zone, none => return { stamp with zone := some zone }
  | some _, some _ => throw .invalid

def stamps (zones : List (String × String)) (parameters : List String) (value : String) :
    Except Unread (List Stamp) := do
  let (zone, _) ← parameters.foldlM (followParameter zones) (none, false)
  (Rule.pieces ',' value).mapM (stampIn zone)

/-- The property of a line and its value, which is a rule's where the line names none. -/
def property (line : String) : String × String :=
  match line.toList.dropWhile (· ≠ ':') with
  | [] => (Rule.mark, line)
  | _ :: value => (String.ofList (line.toList.takeWhile (· ≠ ':')), String.ofList value)

def entryOf (zones : List (String × String)) (name : String) (parameters : List String)
    (value : String) : Except Unread Entry :=
  match name with
  | "RRULE" => if parameters.isEmpty then .ok (.rule value) else .error .invalid
  | "EXRULE" => if parameters.isEmpty then .ok (.exRule value) else .error .invalid
  | "RDATE" =>
      if parameters.all (· == "VALUE=DATE-TIME") then .ok (.dates value) else .error .invalid
  | "EXDATE" => Entry.exDates <$> stamps zones parameters value
  | "DTSTART" => do
      match ← stamps zones parameters value with
      | [stamp] => return .start stamp
      | _ => throw .invalid
  | _ => .error .invalid

def entry (zones : List (String × String)) (line : String) : Except Unread Entry :=
  let (name, value) := property line
  match Rule.pieces ';' name with
  | [] => .error .invalid
  | name :: parameters => entryOf zones name parameters value

/-- The entries of a schedule by what they are. -/
structure Draft where
  start : Option Start := none
  rules : List String := []
  dates : List String := []
  exRules : List String := []
  exDates : List Stamp := []

/-- Puts an entry before a draft, whose own start counts. -/
def Draft.add (entry : Entry) (draft : Draft) : Draft :=
  match entry with
  | .rule text => { draft with rules := text :: draft.rules }
  | .dates text => { draft with dates := text :: draft.dates }
  | .exRule text => { draft with exRules := text :: draft.exRules }
  | .exDates stamps => { draft with exDates := stamps ++ draft.exDates }
  | .start stamp => { draft with start := draft.start.or (some (.ofStamp stamp)) }

def Draft.isEmpty (draft : Draft) : Bool :=
  draft.rules.isEmpty && draft.dates.isEmpty && draft.exRules.isEmpty && draft.exDates.isEmpty

/-- The start that rules are read for where no other is stated: a midnight by no particular clock. -/
def plainStart : Start := { day := default }

/-- Reads what a draft leaves to be read. A start alone has no first rule. -/
def ofDraft (draft : Draft) : Except Unread Schedule := do
  if draft.isEmpty then throw (.failed .noSuchPosition)
  let start := draft.start.getD plainStart
  let rules ← draft.rules.mapM (Rule.ofLine start)
  let dates ← (draft.dates.flatMap (Rule.pieces ',')).mapM DateReader.read
  let exRules ← draft.exRules.mapM (Rule.ofLine start)
  return { start := draft.start, rules, dates, exRules, exDates := draft.exDates }

def ofLines (zones : List (String × String)) (lines : List String) : Except Unread Schedule := do
  ofDraft ((← lines.mapM (entry zones)).foldr Draft.add {})

/-- Reads a text of a rule, or of lines that are separated by blanks. -/
def ofText (text : String) : Except Unread Schedule :=
  let capitals := upper text
  match (words capitals.toList).map String.ofList with
  | [] => .error .invalid
  | [line] =>
      if !capitals.contains ':' || capitals.startsWith (Rule.mark ++ ":") then
        (fun rule => { rules := [rule] }) <$> Rule.ofLine plainStart line
      else ofLines (zoneNames text) [line]
  | lines => ofLines (zoneNames text) lines

end Schedule

end Rostering
