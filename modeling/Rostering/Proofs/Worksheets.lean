import Rostering.Proofs.Columns
import Rostering.Proofs.Quoting
import Rostering.Proofs.Texts

namespace Rostering

open Text

/-! A table in a workbook and the same table as quoted text. The two are read by different rules for
blank rows and headers, but what is taken from their rows is the same. -/

theorem isDigit_of_mem_padded {width n : Nat} {c : Char} (h : c ∈ (padded width n).toList) :
    c.isDigit = true := by
  rw [padded, String.toList_append, List.mem_append, String.toList_ofList] at h
  rcases h with h | h
  · rw [List.eq_of_mem_replicate h]
    rfl
  · exact isDigit_of_mem_toString h

theorem Day.isoText_not_blank (d : Day) : ∀ c ∈ d.isoText.toList, isBlank c = false := by
  intro c hc
  simp only [isoText, String.toList_append, List.mem_append] at hc
  rcases hc with (((hc | hc) | hc) | hc) | hc
  · exact isBlank_eq_false_of_isDigit (isDigit_of_mem_padded hc)
  · obtain rfl := List.mem_singleton.mp hc
    decide
  · exact isBlank_eq_false_of_isDigit (isDigit_of_mem_padded hc)
  · obtain rfl := List.mem_singleton.mp hc
    decide
  · exact isBlank_eq_false_of_isDigit (isDigit_of_mem_padded hc)

theorem Day.dash_mem_isoText (d : Day) : '-' ∈ d.isoText.toList := by
  simp [isoText]

namespace Cell

/-- A cell as it is written in a text: nothing as an empty one, a day in its dashed form, also where
a workbook holds it as a moment. -/
def written : Value → String
  | .null => ""
  | .day d => d.isoText
  | .moment m => m.day.isoText
  | v => v.toText

theorem cellText_written (v : Value) : (Value.text (written v)).cellText = v.cellText := by
  cases v with
  | day d => exact trim_eq_self d.isoText_not_blank
  | moment m => exact trim_eq_self m.day.isoText_not_blank
  | null => rfl
  | _ => rfl

theorem cellText_of_isBlank {v : Value} (h : isBlank v = true) : v.cellText = "" := by
  cases v with
  | null => rfl
  | day d => exact absurd (isBlank_of_trim_isEmpty h '-' d.dash_mem_isoText) (by decide)
  | moment m =>
      refine absurd (isBlank_of_trim_isEmpty h '-' ?_) (by decide)
      simp [Value.toText, Moment.textWith, m.day.dash_mem_isoText]
  | _ => exact String.isEmpty_iff.mp h

end Cell

namespace Sheet

variable {header : List String} {row : List Value} {column : String}

theorem under_rowOf_last {before after : List String} {left right : List Value} {v : Value}
    (hname : column ≠ "") (hlast : column ∉ after) (hlength : before.length = left.length) :
    (rowOf (before ++ column :: after) (left ++ v :: right)).under column = v := by
  have hkept : (!column.isEmpty) = true := by simpa using hname
  rw [rowOf, List.zip_append hlength, List.zip_cons_cons, List.filter_append,
    List.filter_cons, if_pos hkept, Value.under_record, Fields.getD, Fields.get?_ofPairs_of_last,
    Option.getD_some]
  rintro ⟨name, cell⟩ hpair rfl
  exact hlast (List.of_mem_zip (List.mem_of_mem_filter hpair)).1

theorem under_rowOf_absent (habsent : column ∉ header) :
    (rowOf header row).under column = .null := by
  rw [rowOf, Value.under_record, Fields.getD, Fields.get?_ofPairs_of_absent, Option.getD_none]
  rintro ⟨name, cell⟩ hpair rfl
  exact habsent (List.of_mem_zip (List.mem_of_mem_filter hpair)).1

/-- A row of the header's width has the same text under a name in the sheet and in the record that
is written of it. -/
theorem cell_rowOf_eq (hwidth : row.length = header.length) (hname : column ≠ "") :
    Intake.cell (rowOf header row) column =
      Intake.cell (Csv.rowOf header (row.map Cell.written)) column := by
  refine congrArg Except.ok ?_
  change ((rowOf header row).under column).cellText =
    ((Csv.rowOf header (row.map Cell.written)).under column).cellText
  by_cases hmem : column ∈ header
  · obtain ⟨before, after, rfl, hlast⟩ := Csv.exists_last hmem
    obtain ⟨left, v, right, rfl, hlength⟩ :
        ∃ left v right, row = left ++ v :: right ∧ left.length = before.length := by
      have hlt : before.length < row.length := by simp [hwidth]
      refine ⟨row.take before.length, row[before.length], row.drop (before.length + 1), ?_, ?_⟩
      · rw [← List.drop_eq_getElem_cons hlt, List.take_append_drop]
      · exact List.length_take_of_le hlt.le
    rw [under_rowOf_last hname hlast hlength.symm, Csv.under_rowOf_last hlast, ← hlength,
      ← Cell.cellText_written]
    simp [Csv.cellAt]
  · rw [under_rowOf_absent hmem, Csv.under_rowOf_absent hmem]

theorem under_rowOf_mem_or (header : List String) (row : List Value) (column : String) :
    (rowOf header row).under column = .null ∨ (rowOf header row).under column ∈ row := by
  rw [rowOf, Value.under_record, Fields.getD, Fields.get?_ofPairs, Fields.get?]
  cases hfound : ((header.zip row).filter fun cell => !cell.1.isEmpty).reverse.find?
      (fun field => field.1 == column) with
  | none => exact .inl rfl
  | some pair =>
      have hpair := List.mem_reverse.mp (List.mem_of_find?_eq_some hfound)
      exact .inr (List.of_mem_zip (List.mem_of_mem_filter hpair)).2

theorem cellText_under_of_blank (hblank : row.all Cell.isBlank = true) :
    ((rowOf header row).under column).cellText = "" := by
  rcases under_rowOf_mem_or header row column with hnull | hmem
  · rw [hnull]
    rfl
  · exact Cell.cellText_of_isBlank (List.all_eq_true.mp hblank _ hmem)

theorem headerName_null : headerName .null = "" := by decide +kernel

end Sheet

/-- A name as the columns bear theirs: in lower case, with no blank around it and no space. -/
structure IsColumnName (name : String) : Prop where
  trimmed : trim name = name
  lowered : lower name = name
  unspaced : ' ' ∉ name.toList

instance (name : String) : Decidable (IsColumnName name) :=
  decidable_of_iff (trim name = name ∧ lower name = name ∧ ' ' ∉ name.toList)
    ⟨fun ⟨htrimmed, hlowered, hunspaced⟩ => ⟨htrimmed, hlowered, hunspaced⟩,
      fun h => ⟨h.trimmed, h.lowered, h.unspaced⟩⟩

theorem IsColumnName.headerName_eq {name : String} (h : IsColumnName name) :
    Sheet.headerName (.text name) = name := by
  have htext : (Value.text name).textOrEmpty = name := by
    rw [Value.textOrEmpty, Value.isTrue]
    cases hempty : name.isEmpty with
    | true => exact (String.isEmpty_iff.mp hempty).symm
    | false => rfl
  have hsame : ∀ c ∈ name.toList, (if c = ' ' then '_' else c) = c := by
    intro c hc
    have hc' : c ≠ ' ' := fun heq => h.unspaced (heq ▸ hc)
    exact if_neg hc'
  rw [Sheet.headerName, htext, h.trimmed, h.lowered, List.map_congr_left hsame, List.map_id',
    String.ofList_toList]

/-- A table: rows of cells, as wide as a header of column names or empty cells. -/
structure Grid where
  header : List Value
  rows : List (List Value)
  named : ∀ v ∈ header, v = .null ∨ ∃ name, v = .text name ∧ IsColumnName name
  rectangular : ∀ row ∈ rows, row.length = header.length

namespace Grid

variable {g : Grid}

def cells (g : Grid) : List (List Value) := g.header :: g.rows

def text (g : Grid) : String := Csv.quotedText (g.cells.map fun row => row.map Cell.written)

def names (g : Grid) : List String := g.header.map Cell.written

theorem headerNames_eq (g : Grid) : g.header.map Sheet.headerName = g.names := by
  refine List.map_congr_left fun v hv => ?_
  rcases g.named v hv with rfl | ⟨name, rfl, hname⟩
  · exact Sheet.headerName_null
  · exact hname.headerName_eq

theorem records_text (g : Grid) :
    Csv.records g.text = g.names :: g.rows.map fun row => row.map Cell.written :=
  Csv.records_quotedText _

theorem tableOf_cells (title : String) (expected : List String) :
    Sheet.tableOf title g.cells expected = (do
      Columns.check (g.names.map .text) expected ("worksheet " ++ quoted title)
      return (g.rows.filter fun row => !row.all Cell.isBlank).map (Sheet.rowOf g.names)) := by
  rw [← headerNames_eq]
  rfl

theorem rows_text (source : String) (expected : List String) :
    Csv.rows g.text source expected = (do
      Columns.check (g.names.map .text) expected source
      return ((g.rows.map fun row => row.map Cell.written).filter fun record =>
        !record.isEmpty).map (Csv.rowOf g.names)) := by
  rw [Csv.rows, records_text]

/-- What is taken from the rows of the table is the same from the sheet and from the text, for
whatever reads only named cells and takes nothing from a row without a volunteer. -/
theorem gather_rows_eq {f : Value → Except Fault (Option α)}
    (hcells : ∀ row row' : Value,
      (∀ column ≠ "", Intake.cell row column = Intake.cell row' column) → f row = f row')
    (hnobody : ∀ fields : Fields,
      ((Value.record fields).under "volunteer_id").cellText = "" → f (.record fields) = .ok none) :
    Intake.gather f ((g.rows.filter fun row => !row.all Cell.isBlank).map (Sheet.rowOf g.names)) =
      Intake.gather f (((g.rows.map fun row => row.map Cell.written).filter fun record =>
        !record.isEmpty).map (Csv.rowOf g.names)) := by
  -- A sheet drops its blank rows and a text its empty records; there is no volunteer in either.
  have hblank : ∀ row ∈ g.rows, (!row.all Cell.isBlank) = false →
      f (Sheet.rowOf g.names row) = .ok none := by
    intro row _ hblank
    exact hnobody _ (Sheet.cellText_under_of_blank (by simpa using hblank))
  have hempty : ∀ record ∈ g.rows.map (fun row => row.map Cell.written),
      (!record.isEmpty) = false → f (Csv.rowOf g.names record) = .ok none := by
    intro record hrecord hempty
    obtain ⟨row, hrow, rfl⟩ := List.mem_map.mp hrecord
    have hwidth := g.rectangular row hrow
    obtain rfl : row = [] := by simpa using hempty
    have hnames : "volunteer_id" ∉ g.names := by
      rw [names, List.eq_nil_of_length_eq_zero hwidth.symm]
      exact List.not_mem_nil
    exact hnobody _ (congrArg Value.cellText (Csv.under_rowOf_absent hnames _))
  rw [Intake.gather_map, Intake.gather_map, Intake.gather_filter hblank,
    Intake.gather_filter hempty, Intake.gather_map]
  refine Intake.gather_congr fun row hrow => hcells _ _ fun column hname => ?_
  exact Sheet.cell_rowOf_eq (by simp [names, g.rectangular row hrow]) hname

end Grid

namespace Intake

variable {row row' : Value}

section

variable (hcells : ∀ column ≠ "", cell row column = cell row' column)
include hcells

theorem volunteerOfRow_congr : volunteerOfRow row = volunteerOfRow row' := by
  simp only [volunteerOfRow, hcells "volunteer_id" (by decide), hcells "status" (by decide),
    hcells "first_name" (by decide), hcells "last_name" (by decide), hcells "gender" (by decide),
    hcells "role" (by decide), hcells "group_key" (by decide)]

theorem responseOfRow_congr : responseOfRow row = responseOfRow row' := by
  simp only [responseOfRow, hcells "volunteer_id" (by decide), hcells "responded" (by decide),
    hcells "unavailable_shifts" (by decide)]

theorem entryOfRow_congr : entryOfRow row = entryOfRow row' := by
  simp only [entryOfRow, hcells "date" (by decide), hcells "volunteer_id" (by decide),
    hcells "group_key" (by decide), hcells "role" (by decide)]

end

end Intake

open Intake in
/-- A table is taken in alike from a worksheet and from its text. Both are refused for the same
missing columns; else the volunteers, the answers and the history of their rows are the same, or
fail with the same fault. -/
theorem sheet_and_text_agree (g : Grid) (title source : String) (expected : List String) :
    (∃ columns,
      Sheet.tableOf title g.cells expected =
        .error (.missingColumns ("worksheet " ++ quoted title) columns) ∧
      Csv.rows g.text source expected = .error (.missingColumns source columns)) ∨
    ∃ sheetRows textRows,
      Sheet.tableOf title g.cells expected = .ok sheetRows ∧
      Csv.rows g.text source expected = .ok textRows ∧
      volunteersOfRows sheetRows = volunteersOfRows textRows ∧
      responsesOfRows sheetRows = responsesOfRows textRows ∧
      historyOfRows sheetRows = historyOfRows textRows := by
  rw [Grid.tableOf_cells, Grid.rows_text]
  cases hmissing : Columns.missing (g.names.map .text) expected with
  | cons column columns =>
      refine .inl ⟨column :: columns, ?_, ?_⟩ <;> (rw [Columns.check, hmissing]; rfl)
  | nil =>
      have hcheck : ∀ place, Columns.check (g.names.map .text) expected place = .ok () := by
        intro place
        rw [Columns.check, hmissing]
      refine .inr ⟨_, _, by rw [hcheck]; rfl, by rw [hcheck]; rfl, ?_, ?_, ?_⟩
      · exact g.gather_rows_eq (fun _ _ => volunteerOfRow_congr) fun _ hnobody =>
          (nothing_of_no_volunteer hnobody).1
      · exact g.gather_rows_eq (fun _ _ => responseOfRow_congr) fun _ hnobody =>
          (nothing_of_no_volunteer hnobody).2.1
      · rw [historyOfRows_eq, historyOfRows_eq, g.gather_rows_eq (fun _ _ => entryOfRow_congr)
          fun _ hnobody => (nothing_of_no_volunteer hnobody).2.2]

namespace Sample

def gridNames : List String :=
  ["volunteer_id", "first_name", "last_name", "gender", "role", "role"]

theorem gridNames_normal : ∀ name ∈ gridNames, IsColumnName name := by decide +kernel

def grid : Grid where
  header := .null :: gridNames.map .text
  rows := [
    [.null, "ada", "Ada \"A\"", "Lee, Jr", .null, "Volunteer", "Team Lead"],
    [.null, .null, " ", .null, .null, .null, .null],
    [true, 17, "Bo\r\n", .day (⟨738000, by decide, by decide⟩), "Male", .null, ""]]
  named := by
    intro v hv
    rcases List.mem_cons.mp hv with rfl | hv
    · exact .inl rfl
    · obtain ⟨name, hname, rfl⟩ := List.mem_map.mp hv
      exact .inr ⟨name, rfl, gridNames_normal name hname⟩
  rectangular := by decide

def gridVolunteers : List Volunteer := [
  { id := "ada", firstName := "Ada \"A\"", lastName := "Lee, Jr", role := .teamLead },
  { id := "17", firstName := "Bo", lastName := "2021-07-29", gender := .male }]

end Sample

open Sample Intake in
theorem sheet_and_text_agree_sample :
    Sheet.tableOf "Volunteers" grid.cells Columns.volunteers >>= volunteersOfRows =
      .ok gridVolunteers ∧
    Csv.rows grid.text "volunteers.csv" Columns.volunteers >>= volunteersOfRows =
      .ok gridVolunteers := by
  have hsheet : Sheet.tableOf "Volunteers" grid.cells Columns.volunteers >>= volunteersOfRows =
      .ok gridVolunteers := toOption_eq_some_iff.mp (by decide +kernel)
  refine ⟨hsheet, ?_⟩
  rcases sheet_and_text_agree grid "Volunteers" "volunteers.csv" Columns.volunteers with
    ⟨columns, hrefused, -⟩ | ⟨sheetRows, textRows, hsheetRows, htextRows, hsame, -⟩
  · rw [hrefused] at hsheet
    cases hsheet
  · rw [htextRows]
    rw [hsheetRows] at hsheet
    exact hsame.symm.trans hsheet

end Rostering
