import Rostering.Table.Csv

namespace Rostering

/-! Tables written as text with every cell in quotes. Such a text reads back as it was written,
whatever marks, quotes and line ends the cells hold. -/

namespace Csv

/-- A cell between quotes, with those within it doubled. -/
def quotedCell (cell : String) : List Char :=
  '"' :: (cell.toList.flatMap fun c => if c = '"' then ['"', '"'] else [c]) ++ ['"']

def quotedCells : List String → List Char
  | [] => []
  | [cell] => quotedCell cell
  | cell :: next :: rest => quotedCell cell ++ ',' :: quotedCells (next :: rest)

def quotedText (records : List (List String)) : String :=
  String.ofList (records.flatMap fun record => quotedCells record ++ ['\r', '\n'])

namespace Reader

variable {r : Reader} {c : Char} {rest : List Char}

theorem run_cons (hreturn : c ≠ '\r') (hline : c ≠ '\n') :
    run r (c :: rest) = run (r.step c) rest := by
  rw [run]
  · rintro _ rfl
    exact absurd rfl hreturn
  · rintro rfl
    exact absurd rfl hreturn
  · rintro rfl
    exact absurd rfl hline

theorem lineEnd_inQuotes (hstate : r.state = .inQuotes) (mark : List Char) :
    r.lineEnd mark = { r with field := mark.reverse ++ r.field } := by
  rw [lineEnd, hstate]

theorem add_inQuotes (hstate : r.state = .inQuotes) (c : Char) :
    r.add c .inQuotes = { r with field := c :: r.field } := by
  rw [add, ← hstate]

/-- Between quotes the marks of a line end count one by one, also where two of them are read as
one. -/
theorem run_inQuotes_cons (hstate : r.state = .inQuotes) (hquote : c ≠ '"') :
    run r (c :: rest) = run (r.add c .inQuotes) rest := by
  by_cases hreturn : c = '\r'
  · subst hreturn
    by_cases hpair : ∃ more, rest = '\n' :: more
    · obtain ⟨more, rfl⟩ := hpair
      have hnext : ({ r with field := '\r' :: r.field } : Reader).state = .inQuotes := hstate
      rw [add_inQuotes hstate, run, run, lineEnd_inQuotes hstate, lineEnd_inQuotes hnext]
      rfl
    · rw [add_inQuotes hstate, run, lineEnd_inQuotes hstate]
      · rfl
      · exact fun more heq => hpair ⟨more, heq⟩
  by_cases hline : c = '\n'
  · subst hline
    rw [add_inQuotes hstate, run, lineEnd_inQuotes hstate]
    rfl
  · rw [run_cons hreturn hline, step, hstate]
    exact congrArg (run · rest) (if_neg hquote)

theorem step_closing (hstate : r.state = .inQuotes) :
    r.step '"' = { r with state := .afterQuote } := by
  rw [step, hstate]
  rfl

theorem run_inQuotes {cs : List Char} (hstate : r.state = .inQuotes) :
    run r (cs.flatMap (fun c => if c = '"' then ['"', '"'] else [c]) ++ '"' :: rest) =
      run { r with state := .afterQuote, field := cs.reverse ++ r.field } rest := by
  induction cs generalizing r with
  | nil =>
      rw [List.flatMap_nil, List.nil_append, run_cons (by decide) (by decide), step_closing hstate]
      rfl
  | cons c cs ih =>
      rw [List.flatMap_cons, List.append_assoc, List.reverse_cons, List.append_assoc]
      by_cases hquote : c = '"'
      · subst hquote
        rw [if_pos rfl, List.cons_append, List.singleton_append, run_cons (by decide) (by decide),
          run_cons (by decide) (by decide), step_closing hstate]
        exact ih rfl
      · rw [if_neg hquote, List.singleton_append, run_inQuotes_cons hstate hquote]
        exact ih rfl

theorem run_quotedCell (cell : String)
    (hstate : r.state = .startOfRecord ∨ r.state = .startOfField) (hfield : r.field = []) :
    run r (quotedCell cell ++ rest) =
      run { r with state := .afterQuote, field := cell.toList.reverse } rest := by
  have hopen : r.step '"' = { r with state := .inQuotes } := by
    rcases hstate with h | h <;> (rw [step, h]; rfl)
  rw [quotedCell, List.append_assoc, List.cons_append, run_cons (by decide) (by decide), hopen,
    List.singleton_append, run_inQuotes rfl, hfield, List.append_nil]

theorem run_quotedCells {record : List String} (hcells : record ≠ [])
    (hstate : r.state = .startOfRecord ∨ r.state = .startOfField) (hfield : r.field = []) :
    run r (quotedCells record ++ '\r' :: '\n' :: rest) =
      run { records := (r.fields.reverse ++ record) :: r.records } rest := by
  induction record generalizing r with
  | nil => exact absurd rfl hcells
  | cons cell more ih =>
      cases more with
      | nil =>
          rw [quotedCells, run_quotedCell cell hstate hfield, run]
          simp [lineEnd, endField, endRecord]
      | cons next more =>
          rw [quotedCells, List.append_assoc, run_quotedCell cell hstate hfield, List.cons_append,
            run_cons (by decide) (by decide), step, ih (by simp) (.inr rfl) rfl]
          simp [endField]

theorem run_quotedText (records : List (List String)) (before : List (List String)) :
    run { records := before } (records.flatMap fun record => quotedCells record ++ ['\r', '\n']) =
      { records := records.reverse ++ before } := by
  induction records generalizing before with
  | nil => rfl
  | cons record rest ih =>
      rw [List.flatMap_cons, List.append_assoc, List.reverse_cons, List.append_assoc,
        List.singleton_append, ← ih]
      cases record with
      | nil =>
          rw [quotedCells, List.nil_append, List.cons_append, List.singleton_append, run]
          rfl
      | cons cell more => exact run_quotedCells (by simp) (.inl rfl) rfl

end Reader

theorem records_quotedText (records : List (List String)) :
    Csv.records (quotedText records) = records := by
  rw [Csv.records, quotedText, String.toList_ofList, Reader.run_quotedText, List.append_nil,
    List.reverse_reverse]

end Csv

end Rostering
