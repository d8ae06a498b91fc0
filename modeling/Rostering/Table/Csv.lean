import Rostering.Table.Columns

namespace Rostering

/-! Tables as comma-separated text. A field that starts with a quote runs to the closing one and
may hold commas, line ends and doubled quotes; elsewhere a quote is a plain character. -/

namespace Csv

inductive State where
  | startOfRecord
  | startOfField
  | inField
  | inQuotes
  /-- After a quote within a quoted field. -/
  | afterQuote
  deriving DecidableEq, Repr

/-- What was read: the records and the fields and characters before the current place, each last
first. -/
structure Reader where
  state : State := .startOfRecord
  field : List Char := []
  fields : List String := []
  records : List (List String) := []

namespace Reader

def endField (r : Reader) : Reader :=
  { r with
    field := []
    fields := String.ofList r.field.reverse :: r.fields
    state := .startOfField }

def endRecord (r : Reader) : Reader :=
  { r with
    fields := []
    records := r.fields.reverse :: r.records
    state := .startOfRecord }

def add (r : Reader) (c : Char) (state : State) : Reader :=
  { r with field := c :: r.field, state }

/-- A character other than a line end. -/
def step (r : Reader) (c : Char) : Reader :=
  match r.state with
  | .startOfRecord | .startOfField =>
      if c = '"' then { r with state := .inQuotes }
      else if c = ',' then r.endField
      else r.add c .inField
  | .inField => if c = ',' then r.endField else r.add c .inField
  | .inQuotes => if c = '"' then { r with state := .afterQuote } else r.add c .inQuotes
  | .afterQuote =>
      if c = '"' then r.add c .inQuotes
      else if c = ',' then r.endField
      else r.add c .inField

/-- The end of a line, which a quoted field takes in. -/
def lineEnd (r : Reader) (mark : List Char) : Reader :=
  match r.state with
  | .startOfRecord => r.endRecord
  | .inQuotes => { r with field := mark.reverse ++ r.field }
  | _ => r.endField.endRecord

/-- The end of the text ends a record that was started. -/
def close (r : Reader) : Reader :=
  match r.state with
  | .startOfRecord => r
  | _ => r.endField.endRecord

def run (r : Reader) : List Char → Reader
  | [] => r.close
  | '\r' :: '\n' :: rest => run (r.lineEnd ['\r', '\n']) rest
  | '\r' :: rest => run (r.lineEnd ['\r']) rest
  | '\n' :: rest => run (r.lineEnd ['\n']) rest
  | c :: rest => run (r.step c) rest

end Reader

/-- The records of a text, blank lines as empty ones. -/
def records (text : String) : List (List String) :=
  (Reader.run {} text.toList).records.reverse

/-- A record by the names of its header. Of equal names the last counts; a name beyond the
record's end has nothing. -/
def rowOf (header record : List String) : Value :=
  let cells := (header.zip record).map fun (name, cell) => (name, Value.text cell)
  let absent := (header.drop record.length).map fun name => (name, Value.null)
  .record (Fields.ofPairs (cells ++ absent))

/-- The rows of a table with a header that has the expected columns. -/
def rows (text source : String) (expected : List String) : Except Fault (List Value) := do
  match records text with
  | [] =>
      Columns.check [] expected source
      return []
  | header :: rest =>
      Columns.check (header.map .text) expected source
      return (rest.filter (!·.isEmpty)).map (rowOf header)

end Csv

end Rostering
