import Rostering.Proofs.Basic
import Rostering.Intake
import Mathlib.Data.List.Induction

namespace Rostering

open Text

/-! Which cell of a record a row reads for a column. A header is checked by its trimmed names, but
its names are looked up as they stand: a column whose name is padded passes the check and then has
nothing in any row. -/

namespace Fields

theorem get?_cons (field : String × Value) (fields : Fields) (name : String) :
    get? (field :: fields) name = if field.1 = name then some field.2 else get? fields name := by
  by_cases h : field.1 = name <;> simp [get?, h]

theorem get?_put (name other : String) (value : Value) (fields : Fields) :
    get? (put name value fields) other =
      if name = other then some value else get? fields other := by
  induction fields with
  | nil => rw [put, get?_cons]
  | cons field rest ih =>
      rw [put]
      by_cases hfield : field.1 = name
      · rw [if_pos (beq_iff_eq.mpr hfield), get?_cons, get?_cons, hfield]
        split <;> rfl
      · rw [if_neg (beq_iff_eq.not.mpr hfield), get?_cons, get?_cons, ih]
        by_cases hother : field.1 = other
        · rw [if_pos hother, if_pos hother, if_neg fun h => hfield (hother.trans h.symm)]
        · rw [if_neg hother, if_neg hother]

theorem get?_ofPairs (pairs : List (String × Value)) (name : String) :
    get? (ofPairs pairs) name = get? pairs.reverse name := by
  induction pairs using List.reverseRecOn with
  | nil => rfl
  | append_singleton pairs pair ih =>
      rw [ofPairs, List.foldl_append, ← ofPairs, List.foldl_cons, List.foldl_nil, get?_put,
        List.reverse_concat, get?_cons, ih]

theorem get?_ofPairs_of_absent {pairs : List (String × Value)} {name : String}
    (habsent : ∀ pair ∈ pairs, pair.1 ≠ name) : get? (ofPairs pairs) name = none := by
  rw [get?_ofPairs]
  simpa [get?] using habsent

theorem get?_ofPairs_of_last {before after : List (String × Value)} {name : String} {value : Value}
    (hlast : ∀ pair ∈ after, pair.1 ≠ name) :
    get? (ofPairs (before ++ (name, value) :: after)) name = some value := by
  have hafter : after.reverse.find? (fun pair => pair.1 == name) = none := by
    simpa using hlast
  rw [get?_ofPairs, get?, List.reverse_append, List.reverse_cons, List.find?_append,
    List.find?_append, hafter]
  simp

end Fields

/-- What a row holds under a name; nothing if it is no record. -/
def Value.under (row : Value) (name : String) : Value :=
  Fields.getD (row.toFields.toOption.getD []) name .null

theorem Value.under_record (fields : Fields) (name : String) :
    (record fields).under name = Fields.getD fields name .null :=
  rfl

namespace Intake

theorem cell_record (fields : Fields) (column : String) :
    cell (.record fields) column = .ok ((Value.record fields).under column).cellText :=
  rfl

section

variable {f : β → Except Fault (Option α)} {rows : List β}

/-- What some rows hold, one after the other; a row may hold nothing. -/
def gather (f : β → Except Fault (Option α)) (rows : List β) : Except Fault (List α) :=
  return (← rows.mapM f).filterMap id

theorem gather_cons (row : β) (rows : List β) :
    gather f (row :: rows) =
      (do let found ← f row
          let more ← gather f rows
          return found.toList ++ more) := by
  rw [gather, List.mapM_cons]
  cases hrow : f row with
  | error fault => rfl
  | ok found =>
      rw [gather]
      cases hrows : rows.mapM f with
      | error fault => rfl
      | ok more => cases found <;> rfl

theorem gather_filter {keep : β → Bool}
    (hnone : ∀ row ∈ rows, keep row = false → f row = .ok none) :
    gather f (rows.filter keep) = gather f rows := by
  induction rows with
  | nil => rfl
  | cons row rest ih =>
      have hrest := ih fun other hother => hnone other (List.mem_cons_of_mem _ hother)
      rw [List.filter_cons]
      cases hkeep : keep row with
      | true => rw [if_pos rfl, gather_cons, gather_cons, hrest]
      | false =>
          rw [if_neg Bool.false_ne_true, gather_cons, hnone row List.mem_cons_self hkeep, hrest]
          exact (bind_pure (gather f rest)).symm

theorem gather_nothing (hnone : ∀ row ∈ rows, f row = .ok none) : gather f rows = .ok [] := by
  have hdropped : rows.filter (fun _ => false) = [] := by simp
  rw [← gather_filter fun row hrow _ => hnone row hrow, hdropped]
  rfl

theorem gather_map {g : γ → β} {rows : List γ} :
    gather f (rows.map g) = gather (fun row => f (g row)) rows := by
  rw [gather, gather, List.mapM_map]
  rfl

theorem gather_congr {f' : β → Except Fault (Option α)} (hsame : ∀ row ∈ rows, f row = f' row) :
    gather f rows = gather f' rows := by
  rw [gather, gather, mapM_congr hsame]

end

theorem historyOfRows_eq (rows : List Value) :
    historyOfRows rows = (do
      let entries ← gather entryOfRow rows
      (distinct (entries.map HistoryEntry.date)).zipIdx.mapM fun (date, i) => do
        let day ← Day.ofIsoText date
        return .historical day i (placementsOf (entries.filter fun e => e.date == date))) := by
  rw [historyOfRows, gather]
  cases rows.mapM entryOfRow <;> rfl

/-- Rows without a volunteer hold nothing, whatever they are rows of. -/
theorem nothing_of_no_volunteer {fields : Fields}
    (hblank : ((Value.record fields).under "volunteer_id").cellText = "") :
    volunteerOfRow (.record fields) = .ok none ∧ responseOfRow (.record fields) = .ok none ∧
      entryOfRow (.record fields) = .ok none := by
  simp only [volunteerOfRow, responseOfRow, entryOfRow, cell_record, hblank]
  refine ⟨rfl, rfl, ?_⟩
  simp [bind, Except.bind, pure, Except.pure]

end Intake

namespace Columns

theorem check_eq_ok_iff {header : List Value} {expected : List String} {source : String} :
    check header expected source = .ok () ↔
      ∀ c ∈ expected, c ∉ optional → c ∈ present header := by
  have hmissing : missing header expected = [] ↔
      ∀ c ∈ expected, c ∉ optional → c ∈ present header := by
    simp only [missing, List.filter_eq_nil_iff, Bool.and_eq_true, Bool.not_eq_true',
      List.contains_iff_mem, ← Bool.not_eq_true]
    exact forall₂_congr fun c _ => by tauto
  rw [← hmissing, check]
  split
  · next hnone => simp [hnone]
  · next hsome => exact iff_of_false (fun h => nomatch h) hsome

theorem present_texts (names : List String) : present (names.map .text) = names.map trim := by
  simp [present, List.filterMap_map, Value.toText]

end Columns

namespace Csv

/-- What stands in a record at a place: nothing where the record is too short. -/
def cellAt (record : List String) (i : Nat) : Value :=
  match record[i]? with
  | some cell => .text cell
  | none => .null

/-- A value is what a record has under a header cell that names a column once it is trimmed. -/
def Reads (header record : List String) (column : String) (value : Value) : Prop :=
  ∃ (i : Nat) (name : String),
    header[i]? = some name ∧ trim name = column ∧ value = cellAt record i

variable {header record : List String} {column : String}

theorem rowOf_eq (header record : List String) :
    rowOf header record =
      .record (Fields.ofPairs (header.zipIdx.map fun (name, i) => (name, cellAt record i))) := by
  rw [rowOf]
  refine congrArg (fun pairs => Value.record (Fields.ofPairs pairs)) ?_
  -- Name and cell go in step until one of them runs out; the names left over have nothing.
  induction header generalizing record with
  | nil => simp
  | cons name rest ih =>
      cases record with
      | nil =>
          rw [List.zip_nil_right, List.map_nil, List.nil_append, List.length_nil, List.drop_zero]
          conv_lhs => rw [← List.zipIdx_map_fst 0 (name :: rest), List.map_map]
          rfl
      | cons cell record =>
          rw [List.zip_cons_cons, List.map_cons, List.length_cons, List.drop_succ_cons,
            List.cons_append, ih, List.zipIdx_cons, List.map_cons, Nat.zero_add, List.zipIdx_succ,
            List.map_map]
          rfl

theorem under_rowOf_last {before after : List String} (hlast : column ∉ after)
    (record : List String) :
    (rowOf (before ++ column :: after) record).under column = cellAt record before.length := by
  rw [rowOf_eq, List.zipIdx_append, List.map_append, List.zipIdx_cons, List.map_cons, Nat.zero_add,
    Value.under_record, Fields.getD, Fields.get?_ofPairs_of_last, Option.getD_some]
  intro pair hpair
  obtain ⟨⟨name, i⟩, hname, rfl⟩ := List.mem_map.mp hpair
  exact fun heq => hlast (heq ▸ List.fst_mem_of_mem_zipIdx hname)

theorem under_rowOf_absent (habsent : column ∉ header) (record : List String) :
    (rowOf header record).under column = .null := by
  rw [rowOf_eq, Value.under_record, Fields.getD, Fields.get?_ofPairs_of_absent, Option.getD_none]
  intro pair hpair
  obtain ⟨⟨name, i⟩, hname, rfl⟩ := List.mem_map.mp hpair
  exact fun heq => habsent (heq ▸ List.fst_mem_of_mem_zipIdx hname)

theorem exists_last {name : String} {names : List String} (h : name ∈ names) :
    ∃ before after, names = before ++ name :: after ∧ name ∉ after := by
  obtain ⟨after, before, heq, hlast⟩ := List.eq_append_cons_of_mem (List.mem_reverse.mpr h)
  refine ⟨before.reverse, after.reverse, ?_, by simpa using hlast⟩
  rw [← List.reverse_reverse names, heq]
  simp

theorem under_rowOf_mem (hmem : column ∈ header) (record : List String) :
    ∃ before after, header = before ++ column :: after ∧ column ∉ after ∧
      (rowOf header record).under column = cellAt record before.length := by
  obtain ⟨before, after, rfl, hlast⟩ := exists_last hmem
  exact ⟨before, after, rfl, hlast, under_rowOf_last hlast record⟩

/-- A row reads a column as the header promises if the header has its very name, and else only where
the record ends too early to have anything there. -/
theorem reads_iff (htrimmed : trim column = column) :
    Reads header record column ((rowOf header record).under column) ↔
      column ∈ header ∨
        ∃ (i : Nat) (name : String),
          header[i]? = some name ∧ trim name = column ∧ record.length ≤ i := by
  by_cases hmem : column ∈ header
  · obtain ⟨before, after, rfl, -, hunder⟩ := under_rowOf_mem hmem record
    exact iff_of_true ⟨before.length, column, by simp, htrimmed, hunder⟩ (.inl hmem)
  · rw [under_rowOf_absent hmem, or_iff_right hmem]
    refine exists_congr fun i => exists_congr fun name =>
      and_congr_right fun _ => and_congr_right fun _ => ?_
    rw [cellAt, ← List.getElem?_eq_none_iff]
    cases record[i]? <;> simp

end Csv

theorem Csv.rows_ok {text source : String} {expected header : List String}
    {body : List (List String)} (htext : records text = header :: body) {rows : List Value}
    (h : Csv.rows text source expected = .ok rows) :
    rows = (body.filter fun record => !record.isEmpty).map (rowOf header) ∧
      ∀ c ∈ expected, c ∉ Columns.optional → ∃ name ∈ header, trim name = c := by
  simp only [Csv.rows, htext, bind_eq_ok, pure_eq_ok] at h
  obtain ⟨⟨⟩, hcheck, rfl⟩ := h
  rw [Columns.check_eq_ok_iff, Columns.present_texts] at hcheck
  exact ⟨rfl, fun c hc hrequired => List.mem_map.mp (hcheck c hc hrequired)⟩

open Intake in
/-- What stands in a table for a required column of an accepted header. A row reads the last header
cell that has the column's very name. Where that name only stands padded the row reads nothing, so
that it keeps what the header promised only if the record ends before a padded cell; without the
name of its volunteers a table holds nobody at all. -/
theorem required_column_reads {text source : String} {expected header : List String}
    {body : List (List String)} {rows : List Value} (h : Csv.rows text source expected = .ok rows)
    (htext : Csv.records text = header :: body) :
    rows = (body.filter fun record => !record.isEmpty).map (Csv.rowOf header) ∧
    (∀ c ∈ expected, c ∉ Columns.optional → trim c = c →
      (∃ name ∈ header, trim name = c) ∧
      ∀ record ∈ body,
        (c ∈ header → ∃ before after, header = before ++ c :: after ∧ c ∉ after ∧
          (Csv.rowOf header record).under c = Csv.cellAt record before.length) ∧
        (c ∉ header → (Csv.rowOf header record).under c = .null) ∧
        (Csv.Reads header record c ((Csv.rowOf header record).under c) ↔
          c ∈ header ∨ ∃ (i : Nat) (name : String),
            header[i]? = some name ∧ trim name = c ∧ record.length ≤ i)) ∧
    ("volunteer_id" ∉ header → volunteersOfRows rows = .ok [] ∧ responsesOfRows rows = .ok [] ∧
      historyOfRows rows = .ok []) := by
  obtain ⟨hrows, hpresent⟩ := Csv.rows_ok htext h
  refine ⟨hrows, fun c hc hrequired htrimmed => ⟨hpresent c hc hrequired, fun record _ => ?_⟩,
    fun habsent => ?_⟩
  · exact ⟨fun hmem => Csv.under_rowOf_mem hmem record,
      fun habsent => Csv.under_rowOf_absent habsent record, Csv.reads_iff htrimmed⟩
  · have hnothing : ∀ row ∈ rows, volunteerOfRow row = .ok none ∧ responseOfRow row = .ok none ∧
        entryOfRow row = .ok none := by
      intro row hrow
      rw [hrows] at hrow
      obtain ⟨record, -, rfl⟩ := List.mem_map.mp hrow
      have hunder := Csv.under_rowOf_absent habsent record
      rw [Csv.rowOf] at hunder ⊢
      exact nothing_of_no_volunteer (by rw [hunder]; rfl)
    refine ⟨gather_nothing fun row hrow => (hnothing row hrow).1,
      gather_nothing fun row hrow => (hnothing row hrow).2.1, ?_⟩
    rw [historyOfRows_eq, gather_nothing fun row hrow => (hnothing row hrow).2.2]
    simp [distinct, bind, Except.bind, pure, Except.pure]

namespace Sample

def paddedTable : String := " volunteer_id,first_name,last_name,gender,role\nada,Ada,,,\n"

def tightTable : String := "volunteer_id,first_name,last_name,gender,role\nada,Ada,,,\n"

def paddedHeader : List String :=
  [" volunteer_id", "first_name", "last_name", "gender", "role"]

def adaRecord : List String := ["ada", "Ada", "", "", ""]

theorem records_paddedTable : Csv.records paddedTable = [paddedHeader, adaRecord] := by
  decide +kernel

end Sample

open Sample in
theorem required_column_reads_sample :
    ∃ rows, Csv.rows paddedTable "volunteers.csv" Columns.volunteers = .ok rows ∧
      rows = [Csv.rowOf paddedHeader adaRecord] ∧
      (Csv.rowOf paddedHeader adaRecord).under "volunteer_id" = .null ∧
      Csv.Reads paddedHeader adaRecord "first_name"
        ((Csv.rowOf paddedHeader adaRecord).under "first_name") ∧
      Intake.volunteersOfRows rows = .ok [] := by
  have hlength : (Csv.rows paddedTable "volunteers.csv" Columns.volunteers).toOption.map
      List.length = some 1 := by
    decide +kernel
  obtain ⟨rows, h, -⟩ := exists_ok_of_toOption_map hlength
  obtain ⟨hrows, hcolumns, hnobody⟩ := required_column_reads h records_paddedTable
  obtain ⟨-, hid⟩ := hcolumns "volunteer_id" (by decide) (by decide) (by decide +kernel)
  obtain ⟨-, hname⟩ := hcolumns "first_name" (by decide) (by decide) (by decide +kernel)
  obtain ⟨-, habsent, -⟩ := hid adaRecord (by decide)
  obtain ⟨-, -, hreads⟩ := hname adaRecord (by decide)
  exact ⟨rows, h, hrows, habsent (by decide), hreads.mpr (.inl (by decide)),
    (hnobody (by decide)).1⟩

open Sample in
/-- A header with a padded name is accepted, yet its column reads as nothing: a volunteer who is
there under the same name without the blank is lost. -/
theorem padded_name_unread :
    Csv.rows paddedTable "volunteers.csv" Columns.volunteers >>= Intake.volunteersOfRows = .ok [] ∧
    Csv.rows tightTable "volunteers.csv" Columns.volunteers >>= Intake.volunteersOfRows =
      .ok [{ id := "ada", firstName := "Ada" }] ∧
    Csv.records paddedTable = [paddedHeader, adaRecord] ∧
    ¬ Csv.Reads paddedHeader adaRecord "volunteer_id"
      ((Csv.rowOf paddedHeader adaRecord).under "volunteer_id") := by
  refine ⟨toOption_eq_some_iff.mp (by decide +kernel), toOption_eq_some_iff.mp (by decide +kernel),
    records_paddedTable, fun hreads => ?_⟩
  rcases (Csv.reads_iff (by decide +kernel)).mp hreads with hmem | ⟨i, name, hname, -, hshort⟩
  · exact absurd hmem (by decide)
  · have hlength : paddedHeader.length ≤ i := hshort
    rw [List.getElem?_eq_none hlength] at hname
    cases hname

end Rostering
