import Rostering.Rotation
import Rostering.Table.Cell
import Rostering.Table.Csv
import Rostering.Table.Sheet
import Rostering.Rota.Shift

namespace Rostering

open Text

/-! Taking in a rotation: its metadata and the rows of its tables. -/

structure Intake where
  volunteers : List Volunteer
  responses : List Response
  history : List Shift
  dates : List Day
  settings : Fields := []

namespace Intake

def cell (row : Value) (column : String) : Except Fault String :=
  return (Fields.getD (← row.toFields) column .null).cellText

def activeStatus : String := "active"

/-- The volunteer of a row, if it has one who is active. -/
def volunteerOfRow (row : Value) : Except Fault (Option Volunteer) := do
  let id ← cell row "volunteer_id"
  let status ← cell row "status"
  if id.isEmpty || !(status.isEmpty || lower status == activeStatus) then return none
  return some {
    id
    firstName := ← cell row "first_name"
    lastName := ← cell row "last_name"
    gender := .ofText (← cell row "gender")
    role := .ofText (← cell row "role")
    groupKey := ← cell row "group_key" }

def volunteersOfRows (rows : List Value) : Except Fault (List Volunteer) :=
  return (← rows.mapM volunteerOfRow).filterMap id

/-- The answer of a row. Shifts count only with an answer. -/
def responseOfRow (row : Value) : Except Fault (Option Response) := do
  let volunteerId ← cell row "volunteer_id"
  if volunteerId.isEmpty then return none
  let responded := Cell.isYes (.text (← cell row "responded"))
  let unavailable ←
    if responded then Cell.indices (.text (← cell row "unavailable_shifts")) else pure .empty
  return some { volunteerId, responded, unavailable }

def responsesOfRows (rows : List Value) : Except Fault (List Response) :=
  return (← rows.mapM responseOfRow).filterMap id

/-- One volunteer's place on one shift of the history. -/
structure HistoryEntry where
  date : String
  groupKey : String
  volunteerId : String
  isTeamLead : Bool
  deriving DecidableEq, Repr

/-- The entry of a row, if it names a date and a volunteer. Without a group the volunteer stands
alone. -/
def entryOfRow (row : Value) : Except Fault (Option HistoryEntry) := do
  let date ← cell row "date"
  let volunteerId ← cell row "volunteer_id"
  if date.isEmpty || volunteerId.isEmpty then return none
  let key ← cell row "group_key"
  return some {
    date, volunteerId
    groupKey := if key.isEmpty then individualMark ++ volunteerId else key
    isTeamLead := Role.ofText (← cell row "role") == .teamLead }

def distinct (texts : List String) : List String :=
  texts.eraseDups.mergeSort fun a b => decide (a ≤ b)

def placementOf (key : String) (members : List HistoryEntry) : Placement where
  groupKey := key
  memberIds := members.map HistoryEntry.volunteerId
  teamLeadId := (members.find? HistoryEntry.isTeamLead).map HistoryEntry.volunteerId

def placementsOf (entries : List HistoryEntry) : List Placement :=
  (distinct (entries.map HistoryEntry.groupKey)).map fun key =>
    placementOf key (entries.filter fun e => e.groupKey == key)

/-- The shifts that were worked, one for each date text, in the order of the texts. -/
def historyOfRows (rows : List Value) : Except Fault (List Shift) := do
  let entries := (← rows.mapM entryOfRow).filterMap id
  (distinct (entries.map HistoryEntry.date)).zipIdx.mapM fun (date, i) => do
    let day ← Day.ofIsoText date
    return .historical day i (placementsOf (entries.filter fun e => e.date == date))

/-- The text and the numbers that set the dates of a rotation. -/
def datesOf (settings : Fields) : Except Fault (List Day) := do
  let setting (name : String) : Value := .text (Fields.getD settings name .null).cellText
  let count ← Cell.integerOr (setting "shift_count")
  let interval ← Cell.integerOr (setting "interval_days") 7
  shiftDates (← Day.ofIsoText (Fields.getD settings "start" .null).cellText) count interval

def ofRows (metadata : Value) (volunteers availability history : List Value) :
    Except Fault Intake := do
  let settings ← metadata.toFields
  if !(Fields.getD settings "start" .null).isTrue then throw .missingStart
  let dates ← datesOf settings
  return {
    dates, settings
    volunteers := ← volunteersOfRows volunteers
    responses := ← responsesOfRows availability
    history := ← historyOfRows history }

/-- Takes in a workbook with a sheet of settings, two tables and perhaps one of the history. -/
def ofWorkbook (workbook : Workbook) : Except Fault Intake := do
  let required (title : String) : Except Fault Sheet :=
    match workbook.sheet? title with
    | some sheet => .ok sheet
    | none => .error (.noWorksheet title)
  let settings ← required "Rota"
  let volunteers ← required "Volunteers"
  let availability ← required "Availability"
  let volunteers ← volunteers.table Columns.volunteers
  let availability ← availability.table Columns.availability
  let history ←
    match workbook.sheet? "History" with
    | some sheet => sheet.table Columns.history
    | none => pure []
  ofRows (.record settings.settings) volunteers availability history

def profileName (intake : Intake) : String :=
  ((Fields.getD intake.settings "profile" .null).orElse "default").toText

end Intake

end Rostering
