import Rostering.Text.Quoted

namespace Rostering

open Text

/-! Every way in which a request can be refused or a value cannot be read, as a cause. The
wording is in `Fault.message`. -/

/-- Why a group cannot take a place on a shift. -/
inductive Refusal where
  | noCapacity (group : String)
  | notAvailable (group : String) (shift : Int)
  | alreadyHolds (group : String) (shift : Int)
  | alreadyOn (group : String) (shift : Int)
  | doesNotFit (group : String) (headcount : Nat) (shift : Int) (current : Nat) (size : Int)
  | leadTaken (shift : Int) (lead : String)
  deriving DecidableEq, Repr

/-- Why a rota cannot be generated from a request at all. -/
inductive Unrunnable where
  | noDates
  | noVolunteers
  | negativeSize (size : Int)
  | negativeCap (cap : Int)
  | badFrequency (shown : String)
  deriving DecidableEq, Repr

inductive Fault where
  /-- A value of the wrong kind for what is done with it. -/
  | wrongKind
  /-- A look-up by name in something that is no record. -/
  | notARecord
  /-- A number, a day or a count outside its range. -/
  | outOfRange
  | zeroDivisor
  /-- A position outside a sequence. -/
  | noSuchPosition
  /-- A spread of numbers that are not all finite. -/
  | spreadNotFinite
  | missingKey (key : String)
  | malformedJson
  | malformedUtf8
  | isDirectory
  /-- A file whose ending is not that of a workbook. -/
  | notAWorkbook
  | brokenWorkbook
  | noHome
  | integerText (text : String)
  | realText (text : String)
  | integerOfNotANumber
  | dateText (text : String)
  | yearRange (year : Int)
  | monthRange
  | dayRange
  | hourRange
  | minuteRange
  | secondRange
  | frequencyRange (shown : String)
  | unknownGender (text : String)
  | unknownRole (text : String)
  | unknownTieBreak (shown : String) (choices : List String)
  | unknownCriterion (name : String) (choices : List String)
  | unknownLogLevel (name : String)
  | ruleRequired
  | invalidRule (text : String)
  | overrideSize (size : Int)
  | unreachableHour
  | unreachableMinute
  | monthSpan (count : Nat)
  /-- Steps that never get anywhere, for want of an end. -/
  | standstill
  | shiftCount (count : Int)
  | defaultSize (size : Int)
  | missingColumns (source : String) (columns : List String)
  | missingStart
  | noInputDirectory
  | missingFile (path : String)
  | noWorksheet (title : String)
  | unknownGroup (key : String)
  | unknownProfile (name : String) (available : List String)
  | profileSize (name : String) (size : Int)
  | profileCap (name : String) (cap : Int)
  | profileFrequency (name : String) (cause : String)
  | refused (refusal : Refusal)
  | unrunnable (cause : Unrunnable)
  | nobodyEligible
  deriving DecidableEq, Repr

def Refusal.message : Refusal → String
  | noCapacity g => s!"group {quoted g} has no remaining capacity"
  | notAvailable g i => s!"group {quoted g} is not available for shift {i}"
  | alreadyHolds g i => s!"group {quoted g} already allocated to shift {i}"
  | alreadyOn g i => s!"group {quoted g} already on shift {i}"
  | doesNotFit g n i current size =>
      s!"group {quoted g} ({n}) does not fit shift {i} ({current}/{size})"
  | leadTaken i lead => s!"shift {i} already has team lead {lead}"

def frequencyRangeText (shown : String) : String :=
  s!"target frequency must be in (0, 1], got {shown}"

def Unrunnable.message : Unrunnable → String
  | noDates => "no shift dates provided"
  | noVolunteers => "no volunteers provided"
  | negativeSize n => s!"default shift size must be non-negative, got {n}"
  | negativeCap n => s!"max allocation frequency must be non-negative, got {n}"
  | badFrequency shown => frequencyRangeText shown

def Fault.message : Fault → String
  | wrongKind => "value of the wrong kind"
  | notARecord => "not a record"
  | outOfRange => "out of range"
  | zeroDivisor => "division by zero"
  | noSuchPosition => "no such position"
  | spreadNotFinite => "spread of numbers that are not finite"
  | missingKey key => key
  | malformedJson => "malformed JSON"
  | malformedUtf8 => "malformed UTF-8"
  | isDirectory => "is a directory"
  | notAWorkbook => "not a workbook"
  | brokenWorkbook => "broken workbook"
  | noHome => "no home directory"
  | integerText t => s!"invalid literal for int() with base 10: {quoted t}"
  | realText t => s!"could not convert string to float: {quoted t}"
  | integerOfNotANumber => "cannot convert float NaN to integer"
  | dateText t => s!"Invalid isoformat string: {quoted t}"
  | yearRange y => s!"year {y} is out of range"
  | monthRange => "month must be in 1..12"
  | dayRange => "day is out of range for month"
  | hourRange => "hour must be in 0..23"
  | minuteRange => "minute must be in 0..59"
  | secondRange => "second must be in 0..59"
  | frequencyRange shown => frequencyRangeText shown
  | unknownGender t => s!"{quoted t} is not a valid Gender"
  | unknownRole t => s!"{quoted t} is not a valid Role"
  | unknownTieBreak shown choices =>
      s!"Unknown tie_break: {shown}. Choose from {quotedList choices}"
  | unknownCriterion name choices =>
      s!"Unknown criterion: {quoted name}. Choose from {quotedList choices}"
  | unknownLogLevel name => s!"Unknown level: {quoted name}"
  | ruleRequired => "override rrule is required"
  | invalidRule t => s!"invalid rrule {quoted t}"
  | overrideSize n => s!"override shift_size must be at least 1, got {n}"
  | unreachableHour => "Invalid combination of interval and byhour resulting in empty rule."
  | unreachableMinute =>
      "Invalid combination of interval, byhour and byminute resulting in empty rule."
  | monthSpan n => s!"not enough values to unpack (expected 2, got {n})"
  | standstill => "steps without end"
  | shiftCount n => s!"shift count must be non-negative, got {n}"
  | defaultSize n => s!"default shift size must be non-negative, got {n}"
  | missingColumns source columns =>
      s!"{source} is missing column(s): " ++ ", ".intercalate columns
  | missingStart => "rota metadata is missing 'start'"
  | noInputDirectory => "input_dir not given and DROPIN_ROTA_INPUT_DIR is not set"
  | missingFile path => s!"Required file not found: {path}"
  | noWorksheet title => s!"worksheet not found: {title}"
  | unknownGroup key => s!"group_key not found: {key}"
  | unknownProfile name available =>
      s!"Profile '{name}' not found. Available: {quotedList available}"
  | profileSize name n =>
      s!"Profile '{name}': default_shift_size must be non-negative, got {n}"
  | profileCap name n =>
      s!"Profile '{name}': max_allocation_frequency must be non-negative, got {n}"
  | profileFrequency name cause => s!"Profile '{name}': {cause}"
  | refused refusal => refusal.message
  | unrunnable cause => cause.message
  | nobodyEligible => "no valid volunteer groups after availability resolution"

end Rostering
