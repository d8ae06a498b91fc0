import Rostering.Proofs.Columns
import Rostering.Proofs.DecimalRange
import Rostering.Proofs.NumberTexts

namespace Rostering

open Text

/-! Numbers in cells lose their fraction, and what spells no number is passed over. A number beyond
all doubles is neither: it stops the reading of its cell, and of the table around it. -/

/-- A computation goes out of range exactly where `P` holds, and fails nowhere else. -/
structure OutOfRangeIff (P : Prop) (x : Except Fault α) : Prop where
  fails : P → x = .error .outOfRange
  returns : ¬ P → ∃ a, x = .ok a

namespace OutOfRangeIff

variable {P : Prop} {x : Except Fault α}

theorem bind_pure (h : OutOfRangeIff P x) (f : α → β) :
    OutOfRangeIff P (x >>= fun a => pure (f a)) where
  fails hP := by rw [h.fails hP]; rfl
  returns hnot := by
    obtain ⟨a, ha⟩ := h.returns hnot
    exact ⟨f a, by rw [ha]; rfl⟩

theorem mapM {f : β → Except Fault α} {P : β → Prop} {xs : List β}
    (h : ∀ x ∈ xs, OutOfRangeIff (P x) (f x)) :
    OutOfRangeIff (∃ x ∈ xs, P x) (xs.mapM f) := by
  induction xs with
  | nil => exact ⟨by simp, fun _ => ⟨[], rfl⟩⟩
  | cons x rest ih =>
      have hhead := h x List.mem_cons_self
      have htail := ih fun y hy => h y (List.mem_cons_of_mem _ hy)
      rw [List.mapM_cons]
      by_cases hx : P x
      · exact ⟨fun _ => by rw [hhead.fails hx]; rfl, fun hnone => (hnone ⟨x, by simp, hx⟩).elim⟩
      · obtain ⟨a, ha⟩ := hhead.returns hx
        rw [ha]
        constructor
        · intro hsome
          obtain ⟨y, hy, hP⟩ : ∃ y ∈ rest, P y := by simpa [hx] using hsome
          rw [htail.fails ⟨y, hy, hP⟩]
          rfl
        · intro hnone
          obtain ⟨more, hmore⟩ := htail.returns fun ⟨y, hy, hP⟩ => hnone ⟨y, by simp [hy], hP⟩
          exact ⟨a :: more, by rw [hmore]; rfl⟩

end OutOfRangeIff

/-- The whole part of the double nearest to the decimal that a text spells. -/
inductive Truncation (s : String) : Int → Prop
  | decimal {negative : Bool} {value : Decimal} {steps : Nat}
      (hspells : Spells s (.decimal negative value))
      (hnearest : value.toBinary64 negative = .finite negative steps) :
      Truncation s ((Binary64.signedSteps negative steps).tdiv Binary64.stepsPerUnit)

inductive Unbounded (s : String) : Prop
  | word {negative : Bool} (hspells : Spells s (.unbounded negative))
  | decimal {negative : Bool} {value : Decimal} (hspells : Spells s (.decimal negative value))
      (hlarge : Binary64.bound ≤ value.value)

theorem truncation_iff {s : String} {n : Int} :
    Truncation s n ↔ ∃ x, realOfText? s = some x ∧ x.truncate = .ok n := by
  simp only [realOfText?_eq_some_iff]
  constructor
  · rintro ⟨hspells, hnearest⟩
    exact ⟨_, ⟨_, hspells, hnearest⟩, rfl⟩
  · rintro ⟨_, ⟨spelling, hspells, rfl⟩, htruncate⟩
    cases spelling with
    | notANumber => cases htruncate
    | unbounded negative => cases htruncate
    | decimal negative value =>
        rw [Spelling.nearest] at htruncate
        rcases value.toBinary64_range negative with ⟨hnearest, -⟩ | ⟨steps, hnearest, -⟩
        · rw [hnearest] at htruncate
          cases htruncate
        · rw [hnearest] at htruncate
          obtain rfl := Except.ok.inj htruncate
          exact .decimal hspells hnearest

theorem unbounded_iff {s : String} :
    Unbounded s ↔ ∃ x, realOfText? s = some x ∧ x.truncate = .error .unbounded := by
  simp only [realOfText?_eq_some_iff]
  constructor
  · rintro (hspells | ⟨hspells, hlarge⟩)
    · exact ⟨_, ⟨_, hspells, rfl⟩, rfl⟩
    · refine ⟨_, ⟨_, hspells, rfl⟩, ?_⟩
      rw [Spelling.nearest]
      rcases Decimal.toBinary64_range _ _ with ⟨hnearest, -⟩ | ⟨_, -, hsmall⟩
      · rw [hnearest]
        rfl
      · exact absurd hlarge hsmall.not_ge
  · rintro ⟨_, ⟨spelling, hspells, rfl⟩, htruncate⟩
    cases spelling with
    | notANumber => cases htruncate
    | unbounded negative => exact .word hspells
    | decimal negative value =>
        rw [Spelling.nearest] at htruncate
        rcases value.toBinary64_range negative with ⟨-, hlarge⟩ | ⟨steps, hnearest, -⟩
        · exact .decimal hspells hlarge
        · rw [hnearest] at htruncate
          cases htruncate

namespace Cell

theorem entryIndex_eq_some_iff {entry : String} {n : Int} :
    entryIndex entry = .ok (some n) ↔ Truncation entry n := by
  rw [truncation_iff, entryIndex]
  cases realOfText? entry with
  | none => simp
  | some x =>
      simp only [Number.truncate, Number.integerPart, Option.some.injEq, exists_eq_left']
      rcases x.truncate with (_ | _) | _ <;> simp

theorem entryIndex_outOfRangeIff (entry : String) :
    OutOfRangeIff (Unbounded entry) (entryIndex entry) := by
  rw [unbounded_iff, entryIndex]
  cases realOfText? entry with
  | none => exact ⟨by simp, fun _ => ⟨none, rfl⟩⟩
  | some x =>
      simp only [Number.truncate, Number.integerPart, Option.some.injEq, exists_eq_left']
      constructor <;> rcases x.truncate with (_ | _) | _ <;> simp

theorem realOfText?_of_blank {s : String} (h : (trim s).isEmpty = true) :
    realOfText? s = none := by
  rw [String.isEmpty_iff, trim, String.ofList_eq_empty_iff] at h
  rw [realOfText?, h]
  decide

theorem integerOr_text (s : String) (fallback : Int) :
    integerOr (.text s) fallback = (do let n ← entryIndex s; return n.getD fallback) := by
  have hblank : isBlank (.text s) = (trim s).isEmpty := rfl
  rw [integerOr, hblank, entryIndex, Value.toReal]
  cases hempty : (trim s).isEmpty with
  | true =>
      rw [realOfText?_of_blank hempty]
      rfl
  | false =>
      cases hread : realOfText? s with
      | none => rfl
      | some x => cases x <;> rfl

theorem truncation_of_integerOr {s : String} {fallback n : Int}
    (h : integerOr (.text s) fallback = .ok n) :
    Truncation s n ∨ n = fallback ∧ ∀ m, ¬ Truncation s m := by
  simp only [integerOr_text, bind_eq_ok, pure_eq_ok] at h
  simp only [← entryIndex_eq_some_iff]
  obtain ⟨_ | m, hread, rfl⟩ := h
  · exact .inr ⟨rfl, by simp [hread]⟩
  · exact .inl hread

theorem mem_of_indices {v : Value} {found : IndexSet} (h : indices v = .ok found) {i : Int} :
    i ∈ found ↔ ∃ entry ∈ entries v, Truncation entry i := by
  simp only [indices, bind_eq_ok, pure_eq_ok] at h
  obtain ⟨read, hread, rfl⟩ := h
  simp only [IndexSet.mem_ofList, List.mem_filterMap, mem_of_mapM_eq_ok hread, id,
    ← entryIndex_eq_some_iff]
  constructor
  · rintro ⟨_, ⟨entry, hentry, hindex⟩, rfl⟩
    exact ⟨entry, hentry, hindex⟩
  · rintro ⟨entry, hentry, hindex⟩
    exact ⟨_, ⟨entry, hentry, hindex⟩, rfl⟩

theorem indices_outOfRangeIff (v : Value) :
    OutOfRangeIff (∃ entry ∈ entries v, Unbounded entry) (indices v) :=
  (OutOfRangeIff.mapM fun entry _ => entryIndex_outOfRangeIff entry).bind_pure _

end Cell

namespace Intake

def Answered (row : Fields) : Prop :=
  ((Value.record row).under "volunteer_id").cellText ≠ "" ∧
    Cell.isYes (.text ((Value.record row).under "responded").cellText) = true

def refusals (row : Fields) : Value :=
  .text ((Value.record row).under "unavailable_shifts").cellText

theorem responseOfRow_of_answered {row : Fields} (h : Answered row) :
    responseOfRow (.record row) = (do
      let unavailable ← Cell.indices (refusals row)
      return some {
        volunteerId := ((Value.record row).under "volunteer_id").cellText
        responded := true, unavailable }) := by
  obtain ⟨hnamed, hyes⟩ := h
  simp only [responseOfRow, cell_record, bind, Except.bind, String.isEmpty_iff, hnamed, hyes,
    if_true, if_false]
  rfl

theorem responseOfRow_of_not_answered {row : Fields} (h : ¬ Answered row) :
    ∃ response, responseOfRow (.record row) = .ok response := by
  by_cases hnamed : ((Value.record row).under "volunteer_id").cellText = ""
  · exact ⟨none, (nothing_of_no_volunteer hnamed).2.1⟩
  · have hno := Bool.eq_false_iff.mpr fun hyes => h ⟨hnamed, hyes⟩
    simp only [responseOfRow, cell_record, bind, Except.bind, String.isEmpty_iff, hnamed, hno,
      if_false, Bool.false_eq_true]
    exact ⟨_, rfl⟩

theorem responseOfRow_outOfRangeIff (row : Fields) :
    OutOfRangeIff (Answered row ∧ ∃ entry ∈ Cell.entries (refusals row), Unbounded entry)
      (responseOfRow (.record row)) := by
  by_cases h : Answered row
  · rw [responseOfRow_of_answered h, and_iff_right h]
    exact (Cell.indices_outOfRangeIff _).bind_pure _
  · exact ⟨fun hP => absurd hP.1 h, fun _ => responseOfRow_of_not_answered h⟩

theorem responsesOfRows_outOfRangeIff (rows : List Fields) :
    OutOfRangeIff
      (∃ row ∈ rows, Answered row ∧ ∃ entry ∈ Cell.entries (refusals row), Unbounded entry)
      (responsesOfRows (rows.map .record)) := by
  rw [responsesOfRows, List.mapM_map]
  exact (OutOfRangeIff.mapM fun row _ => responseOfRow_outOfRangeIff row).bind_pure _

end Intake

/-- Only a number beyond all doubles stops the reading of a cell, of a list of entries or of a table
of answers. Every other text is read as the whole part of its number, or passed over. -/
theorem only_unbounded_numbers_stop (s : String) (fallback : Int) (rows : List Fields) :
    (OutOfRangeIff (Unbounded s) (Cell.integerOr (.text s) fallback) ∧
      ∀ n, Cell.integerOr (.text s) fallback = .ok n →
        Truncation s n ∨ n = fallback ∧ ∀ m, ¬ Truncation s m) ∧
    (OutOfRangeIff (∃ entry ∈ Cell.entries (.text s), Unbounded entry) (Cell.indices (.text s)) ∧
      ∀ found, Cell.indices (.text s) = .ok found →
        ∀ i, i ∈ found ↔ ∃ entry ∈ Cell.entries (.text s), Truncation entry i) ∧
    OutOfRangeIff
      (∃ row ∈ rows, Intake.Answered row ∧
        ∃ entry ∈ Cell.entries (Intake.refusals row), Unbounded entry)
      (Intake.responsesOfRows (rows.map .record)) := by
  refine ⟨⟨?_, fun n => Cell.truncation_of_integerOr⟩,
    ⟨Cell.indices_outOfRangeIff _, fun found h i => Cell.mem_of_indices h⟩,
    Intake.responsesOfRows_outOfRangeIff rows⟩
  rw [Cell.integerOr_text]
  exact (Cell.entryIndex_outOfRangeIff s).bind_pure _

theorem only_unbounded_numbers_stop_sample :
    (Truncation " -2.5\t" (-2) ∨ (-2 : Int) = 7 ∧ ∀ m, ¬ Truncation " -2.5\t" m) ∧
      ∀ i, i ∈ IndexSet.ofList [1, 10] ↔
        ∃ entry ∈ Cell.entries (.text "1_0|x| nan|1.9|"), Truncation entry i := by
  constructor
  · exact (only_unbounded_numbers_stop _ 7 []).1.2 _ (by decide +kernel)
  · exact (only_unbounded_numbers_stop _ 0 []).2.1.2 _ (by decide +kernel)

theorem infinite_entries_stop :
    Cell.integerOr (.text "inf") 7 = .error .outOfRange ∧
      Cell.indices (.text "1|1e400|2") = .error .outOfRange ∧
      Intake.responsesOfRows [.record [("volunteer_id", .text "ada"), ("responded", .text "yes"),
        ("unavailable_shifts", .text "1|inf")]] = .error .outOfRange := by
  refine ⟨by decide +kernel, by decide +kernel, by decide +kernel⟩

end Rostering
