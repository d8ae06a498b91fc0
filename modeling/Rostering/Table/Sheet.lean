import Rostering.Table.Cell
import Rostering.Table.Columns

namespace Rostering

open Text

/-! Tables as sheets of a workbook. -/

structure Sheet where
  title : String
  /-- The cells as they were put in, from the first cell on. -/
  rows : List (List Value)

abbrev Workbook := List Sheet

namespace Sheet

def width (s : Sheet) : Nat := (s.rows.map List.length).foldl max 0

def pad (width : Nat) (row : List Value) : List Value :=
  row ++ List.replicate (width - row.length) .null

/-- The cells as they read back: rows of one width, down to the last that has cells. -/
def cells (s : Sheet) : List (List Value) :=
  ((s.rows.reverse.dropWhile List.isEmpty).reverse.map fun row => row.map Cell.stored).map
    (pad s.width)

/-- The name that a header cell stands for: in lower case, with underscores for spaces. -/
def headerName (v : Value) : String :=
  String.ofList ((lower (trim v.textOrEmpty)).toList.map fun c => if c = ' ' then '_' else c)

/-- A row by the names of its header. Of equal names the last counts; cells under none are left
out. -/
def rowOf (header : List String) (row : List Value) : Value :=
  .record (Fields.ofPairs ((header.zip row).filter fun cell => !cell.1.isEmpty))

/-- The rows below a header that has the expected columns, without blank ones. No cells at all
make no rows. -/
def tableOf (title : String) (cells : List (List Value)) (expected : List String) :
    Except Fault (List Value) := do
  match cells with
  | [] => return []
  | first :: rest =>
      let header := first.map headerName
      Columns.check (header.map .text) expected ("worksheet " ++ quoted title)
      return (rest.filter fun row => !row.all Cell.isBlank).map (rowOf header)

def table (s : Sheet) (expected : List String) : Except Fault (List Value) :=
  tableOf s.title s.cells expected

/-- The names that head a column of settings and are none themselves. -/
def settingTitles : List String := ["key", "setting"]

/-- The settings of a sheet, a name and a value in each row. -/
def settings (s : Sheet) : Fields :=
  Fields.ofPairs (s.cells.filterMap fun row =>
    match row with
    | [] => none
    | .null :: _ => none
    | name :: rest =>
        let name := headerName name
        if settingTitles.contains name then none else some (name, rest.headD .null))

end Sheet

def Workbook.sheet? (workbook : Workbook) (title : String) : Option Sheet :=
  workbook.find? fun s => s.title == title

end Rostering
