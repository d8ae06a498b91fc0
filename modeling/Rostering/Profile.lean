import Rostering.Generation
import Rostering.Intake

namespace Rostering

/-! Profiles: named settings for generating rotas, and the collections that they are found in. -/

structure Profile where
  name : String := "default"
  description : String := ""
  defaultSize : Int := 5
  target : Binary64 := .ofRatio 1 2
  cap : Int := 1
  policy : Policy := {}
  overrides : List Override := []

namespace Profile

def defaultName : String := "default"

/-- A target frequency that cannot be used, as a fault of its profile. -/
def blame (name : String) : Fault → Fault
  | .outOfRange => .outOfRange
  | .wrongKind => .wrongKind
  | cause => .profileFrequency name cause.message

/-- The profile that a record describes; what it leaves out has its default. -/
def ofValue [DateReader] (name : String) (v : Value) : Except Fault Profile := do
  let fields ← v.toFields
  let get := Fields.getD fields
  let size ← (get "default_shift_size" 5).toInteger
  if size < 0 then throw (.profileSize name size)
  let cap ← (get "max_allocation_frequency" 1).toInteger
  if cap < 0 then throw (.profileCap name cap)
  let target ← ((get "target_frequency" (.number defaultTarget)).toReal.bind
    Fairness.checkFrequency).mapError (blame name)
  let tieBreak ← TieBreak.ofValue (get "tie_break" .null)
  let criteria ← Criterion.ofConfig (get "criteria" .null)
  let overrides ← (← (get "overrides" (.list [])).items).mapM Override.ofValue
  return {
    name, cap, target, overrides
    description := (get "description" "").toText
    defaultSize := size
    policy := { criteria, tieBreak } }

def summary (p : Profile) : Value := .record [
  ("description", p.description),
  ("default_shift_size", p.defaultSize),
  ("target_frequency", .number (.real p.target)),
  ("max_allocation_frequency", p.cap),
  ("tie_break", p.policy.tieBreak.name),
  ("criteria", .texts (p.policy.criteria.map fun c => c.kind.name)),
  ("override_count", p.overrides.length)]

def occursIn (part whole : List Char) : Bool :=
  (List.range (whole.length + 1)).any fun i => part.isPrefixOf (whole.drop i)

/-- Whether a collection holds a name: among its names, its items or within its text. -/
def isIn (name : String) (profiles : Value) : Except Fault Bool :=
  match profiles with
  | .record fields => .ok (Fields.has fields name)
  | .list items => .ok (items.any fun v => v.toText? == some name)
  | .text s => .ok (occursIn name.toList s.toList)
  | _ => .error .wrongKind

def notFound (name : String) (profiles : Value) : Fault :=
  match profiles with
  | .record fields => .unknownProfile name (Fields.names fields)
  | _ => .notARecord

def raw (profiles : Value) (name : String) : Except Fault Value := do
  if ← isIn name profiles then profiles.field name else throw (notFound name profiles)

/-- The profile with a name. The default one need not be in the collection. -/
def find [DateReader] (profiles : Value) (name : Option String) : Except Fault Profile := do
  let name := name.getD defaultName
  if name == defaultName && !(← isIn name profiles) then return {}
  ofValue name (← raw profiles name)

def summaries [DateReader] (profiles : Value) : Except Fault Value := do
  let entries ← (← profiles.items).mapM fun v => do
    let name :=
      match v with
      | .null => none
      | v => some v.toText
    return (name.getD "null", (← find profiles name).summary)
  return .record entries

def weights (criteria : List (String × Binary64)) : Value :=
  .record (criteria.map fun (name, weight) =>
    (name, .record [("weight", .number (.real weight))]))

def half : Binary64 := .ofRatio 1 2

def standard : Value := .record [
  ("default", .record [
    ("description",
      "Weekly drop-in, five volunteers per shift, one shift per volunteer per rotation."),
    ("default_shift_size", 5),
    ("target_frequency", .number (.real half)),
    ("max_allocation_frequency", 1),
    ("tie_break", "largest_first"),
    ("criteria", weights [("male_balance", .one), ("no_double_shifts", .one)]),
    ("overrides", .list [])]),
  ("christmas", .record [
    ("description",
      "Default rota with the Christmas-week session closed and a larger New Year session."),
    ("default_shift_size", 5),
    ("target_frequency", .number (.real half)),
    ("max_allocation_frequency", 1),
    ("tie_break", "largest_first"),
    ("criteria", weights [
      ("current_rota_urgency", .one), ("promote_groups", .one), ("male_balance", half),
      ("no_double_shifts", .one)]),
    ("overrides", .list [
      .record [
        ("rrule", "RRULE:FREQ=YEARLY;BYMONTH=12;BYMONTHDAY=22,23,24,25,26,27,28"),
        ("closed", true)],
      .record [
        ("rrule", "RRULE:FREQ=YEARLY;BYMONTH=1;BYMONTHDAY=1,2,3,4,5,6,7"),
        ("shift_size", 7)]])]),
  ("small_team", .record [
    ("description",
      "Fewer volunteers: smaller shifts, two shifts per rotation allowed, spread apart."),
    ("default_shift_size", 3),
    ("target_frequency", .number (.real (.ofRatio 3 4))),
    ("max_allocation_frequency", 2),
    ("tie_break", "smallest_first"),
    ("criteria", weights [("no_double_shifts", .one), ("shift_spread", .one)]),
    ("overrides", .list [])])]

/-- The request that a rotation makes under a profile. Its metadata may set its own size,
target and cap, and add overrides. -/
def request [DateReader] (p : Profile) (intake : Intake) : Except Fault Request := do
  let get := Fields.getD intake.settings
  let more ← (← ((get "overrides" (.list [])).orElse (.list [])).items).mapM Override.ofValue
  return {
    volunteers := intake.volunteers
    responses := intake.responses
    dates := intake.dates
    defaultSize := ← (get "default_shift_size" p.defaultSize).toInteger
    target := .real (← (get "target_frequency" (.number (.real p.target))).toReal)
    cap := ← (get "max_allocation_frequency" p.cap).toInteger
    history := intake.history
    overrides := p.overrides ++ more
    policy := p.policy }

end Profile

end Rostering
