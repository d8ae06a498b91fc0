import Rostering.Value.Convert

namespace Rostering

open Text

/-! The columns of the tables. -/

namespace Columns

def volunteers : List String :=
  ["volunteer_id", "first_name", "last_name", "gender", "role", "group_key", "status"]

def availability : List String := ["volunteer_id", "responded", "unavailable_shifts"]

def history : List String := ["date", "group_key", "volunteer_id", "role"]

/-- Columns that count as blank when they are absent. -/
def optional : List String := ["status", "group_key"]

/-- The names that a header holds; empty cells hold none. -/
def present (header : List Value) : List String :=
  header.filterMap fun cell =>
    match cell with
    | .null => none
    | v => some (trim v.toText)

def missing (header : List Value) (expected : List String) : List String :=
  expected.filter fun column =>
    !(present header).contains column && !optional.contains column

def check (header : List Value) (expected : List String) (source : String) :
    Except Fault Unit :=
  match missing header expected with
  | [] => .ok ()
  | columns => .error (.missingColumns source columns)

end Columns

end Rostering
