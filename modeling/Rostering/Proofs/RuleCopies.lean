import Rostering.Proofs.LetterCase
import Rostering.Proofs.RuleLines

namespace Rostering

open Text

/-! Overrides made again from what they store. They state the same, but the stored text may still
begin with a blank or a mark, and then another text is stored. -/

namespace Schedule

theorem afterZoneMark?_append {before : List Char} (h : 'T' ∉ before) (cs : List Char) :
    afterZoneMark? (before ++ cs) = afterZoneMark? cs := by
  induction before with
  | nil => rfl
  | cons c before ih =>
      obtain ⟨hc, hbefore⟩ := not_or.mp (List.mem_cons.not.mp h)
      have hmark : zoneMark = 'T' :: "ZID=".toList := by decide
      rw [List.cons_append, afterZoneMark?, hmark, List.isPrefixOf_cons_cons, beq_false_of_ne hc,
        Bool.false_and, if_neg Bool.false_ne_true, ih hbefore]

theorem afterZoneMark?_of_not_mem {cs : List Char} (h : 'T' ∉ cs) : afterZoneMark? cs = none := by
  rw [← List.append_nil cs, afterZoneMark?_append h]
  rfl

/-- The zones that are named before colons, as they are spelled. -/
def zoneSpellings (cs : List Char) : List (List Char) :=
  (splitOnChar ':' cs).dropLast.filterMap afterZoneMark?

theorem zoneNames_congr {text other : String}
    (h : zoneSpellings text.toList = zoneSpellings other.toList) :
    zoneNames text = zoneNames other := by
  simp only [zoneSpellings] at h
  simp only [zoneNames, h]

/-- Before the first colon, only what may begin the mark of a zone matters. -/
theorem zoneSpellings_append_left {before : List Char} (hcolon : ':' ∉ before)
    (hmark : 'T' ∉ before) (cs : List Char) : zoneSpellings (before ++ cs) = zoneSpellings cs := by
  obtain ⟨piece, pieces, hcs, hsplit⟩ := splitOnChar_prefix hcolon cs
  rw [zoneSpellings, zoneSpellings, hcs, hsplit]
  cases pieces with
  | nil => rfl
  | cons next rest =>
      rw [List.dropLast_cons_cons, List.dropLast_cons_cons, List.filterMap_cons, List.filterMap_cons,
        afterZoneMark?_append hmark]

theorem zoneSpellings_append_right {after : List Char} (h : ':' ∉ after) (cs : List Char) :
    zoneSpellings (cs ++ after) = zoneSpellings cs := by
  by_cases hmem : ':' ∈ cs
  · obtain ⟨last, before, hsplit, hlast⟩ :=
      List.eq_append_cons_of_mem (List.mem_reverse.mpr hmem)
    have hcs : cs = before.reverse ++ ':' :: last.reverse := by
      rw [← List.reverse_reverse cs, hsplit]
      simp
    have hend : ':' ∉ last.reverse := List.mem_reverse.not.mpr hlast
    have hlonger : ':' ∉ last.reverse ++ after := by simp [hlast, h]
    rw [hcs, List.append_assoc, List.cons_append, zoneSpellings, zoneSpellings,
      splitOnChar_append_mark, splitOnChar_append_mark, splitOnChar_of_not_mem hend,
      splitOnChar_of_not_mem hlonger, List.dropLast_concat, List.dropLast_concat]
  · have hjoined : ':' ∉ cs ++ after := by simp [hmem, h]
    rw [zoneSpellings, zoneSpellings, splitOnChar_of_not_mem hmem, splitOnChar_of_not_mem hjoined]
    rfl

theorem zoneSpellings_of_piece {name : List Char} (hcolon : ':' ∉ name) (hmark : 'T' ∉ name)
    (cs : List Char) : zoneSpellings (name ++ ':' :: cs) = zoneSpellings cs := by
  rw [zoneSpellings, splitOnChar_append hcolon,
    List.dropLast_cons_of_ne_nil (splitOnChar_ne_nil ':' cs), List.filterMap_cons,
    afterZoneMark?_of_not_mem hmark]
  rfl

theorem zoneNames_trim (text : String) : zoneNames (trim text) = zoneNames text := by
  obtain ⟨before, after, hsplit, hbefore, hafter⟩ := exists_trimList text.toList
  have hplain {c : Char} (hc : isBlank c = false) {cs : List Char}
      (h : ∀ c ∈ cs, isBlank c = true) : c ∉ cs := fun hmem =>
    Bool.false_ne_true (hc.symm.trans (h c hmem))
  refine zoneNames_congr ?_
  conv_rhs => rw [hsplit, zoneSpellings_append_right (hplain (by decide) hafter),
    zoneSpellings_append_left (hplain (by decide) hbefore) (hplain (by decide) hbefore)]
  rw [trim, String.toList_ofList]

end Schedule

namespace Override

def Marked (text : String) : Prop := (upper text).startsWith (Rule.mark ++ ":") = true

def markLetters : List Char := Rule.mark.toList ++ [':']

theorem toList_upper (s : String) : (upper s).toList = s.toList.flatMap upperChar := by
  rw [upper, String.toList_ofList]

theorem marked_iff {text : String} :
    Marked text ↔ ∃ rest, (upper text).toList = markLetters ++ rest := by
  rw [Marked, String.startsWith_string_iff, String.toList_append]
  exact ⟨fun ⟨rest, h⟩ => ⟨rest, h.symm⟩, fun ⟨rest, h⟩ => ⟨rest, h.symm⟩⟩

theorem not_mem_of_map_upperChar {name letters : List Char} {c : Char}
    (h : name.map upperChar = letters.map ([·])) (hc : upperChar c = [c]) (hletters : c ∉ letters) :
    c ∉ name := by
  intro hmem
  have hforms : upperChar c ∈ letters.map ([·]) := h ▸ List.mem_map_of_mem hmem
  simp [hc, hletters] at hforms

/-- A mark is one letter for each of its own and a colon, and names no zone. -/
theorem exists_of_marked {text : String} (h : Marked text) : ∃ name rest,
    text.toList = name ++ ':' :: rest ∧ name.length = Rule.mark.length ∧ ':' ∉ name ∧
      'T' ∉ name ∧ (upper text).toList = markLetters ++ rest.flatMap upperChar := by
  obtain ⟨capitals, hcapitals⟩ := marked_iff.mp h
  have hforms := toList_upper text ▸ hcapitals
  obtain ⟨before, rest, hsplit, hbefore, hrest⟩ :=
    flatMap_upperChar_split (by decide +kernel) hforms
  rw [markLetters, List.map_append, List.map_singleton] at hbefore
  obtain ⟨name, colon, rfl, hname, hcolon⟩ := List.map_eq_append_iff.mp hbefore
  obtain ⟨c, rfl, hc⟩ := List.map_eq_singleton_iff.mp hcolon
  obtain rfl := eq_colon_of_upperChar hc
  have hlength : name.length = Rule.mark.length := by
    rw [← List.length_map upperChar, hname, List.length_map, String.length_toList]
  refine ⟨name, rest, ?_, hlength, not_mem_of_map_upperChar hname (by decide +kernel) (by decide),
    not_mem_of_map_upperChar hname (by decide +kernel) (by decide), hrest ▸ hcapitals⟩
  rw [hsplit, List.append_assoc, List.singleton_append]

theorem normalized_of_marked {text : String} (h : Marked (trim text)) {name rest : List Char}
    (hsplit : (trim text).toList = name ++ ':' :: rest) (hname : name.length = Rule.mark.length) :
    normalized text = String.ofList rest := by
  rw [Marked] at h
  simp only [normalized, h, if_true, hsplit, ← hname]
  rw [List.append_cons, List.drop_left' (by simp)]

theorem normalized_of_not_marked {text : String} (h : ¬ Marked (trim text)) :
    normalized text = trim text := by
  rw [Marked] at h
  simp only [normalized, h, if_false, Bool.false_eq_true]

theorem zoneNames_normalized (text : String) :
    Schedule.zoneNames (normalized text) = Schedule.zoneNames text := by
  rw [← Schedule.zoneNames_trim text]
  by_cases hmarked : Marked (trim text)
  · obtain ⟨name, rest, hsplit, hlength, hcolon, hmark, -⟩ := exists_of_marked hmarked
    rw [normalized_of_marked hmarked hsplit hlength]
    refine Schedule.zoneNames_congr ?_
    rw [hsplit, Schedule.zoneSpellings_of_piece hcolon hmark, String.toList_ofList]
  · rw [normalized_of_not_marked hmarked]

theorem words_upper_trim (text : String) :
    words (upper (trim text)).toList = words (upper text).toList := by
  obtain ⟨before, after, hsplit, hbefore, hafter⟩ := exists_trimList text.toList
  have hkept {cs : List Char} (h : ∀ c ∈ cs, isBlank c = true) : cs.flatMap upperChar = cs := by
    rw [List.flatMap_congr fun c hc => upperChar_of_isBlank (h c hc), List.flatMap_singleton']
  rw [toList_upper, toList_upper, trim, String.toList_ofList]
  conv_rhs => rw [hsplit, List.flatMap_append, List.flatMap_append, hkept hbefore, hkept hafter]
  exact (words_padded hbefore hafter).symm

section

variable [DateReader] {s : Schedule}

/-- Without its mark, a text states what its lines state with the mark before the first of them. -/
theorem ofText_of_marked {text : String}
    (h : Schedule.ofLines (Schedule.zoneNames text)
      ((words (markLetters ++ (upper text).toList)).map String.ofList) = .ok s) :
    Schedule.ofText text = .ok s := by
  have hletters : markLetters.all (fun c => !isBlank c) = true := by decide
  have hstart : markLetters ≠ [] := by decide
  obtain ⟨piece, more, hfirst, hrest⟩ := words_prefix hstart (by simpa using hletters)
    (upper text).toList
  rw [hfirst, List.map_cons, markLetters, List.append_assoc, List.singleton_append] at h
  have hmarked := Schedule.entry_of_marked (Schedule.zoneNames text) piece
  obtain ⟨start, rule, hrule⟩ := Schedule.exists_ofLine_of_ofLines hmarked h
  have hsome : piece ≠ [] := by
    rintro rfl
    cases (Rule.ofLine_empty start).symm.trans hrule
  have hwords : words (upper text).toList = piece :: more := by simpa [hsome] using hrest
  obtain ⟨_, hplain, halike⟩ := Schedule.entry_of_ofLine hrule (Schedule.zoneNames text)
  rw [Schedule.ofLines_congr hmarked hplain fun start => (halike start).symm] at h
  exact Schedule.ofText_of_ofLines hwords h fun _ => ⟨start, rule, hrule⟩

theorem ofText_normalized {text : String} (h : Schedule.ofText text = .ok s) :
    Schedule.ofText (normalized text) = .ok s := by
  obtain ⟨hsome, hlines⟩ := Schedule.ofLines_of_ofText h
  rw [← words_upper_trim] at hsome hlines
  rw [← zoneNames_normalized] at hlines
  by_cases hmarked : Marked (trim text)
  · obtain ⟨name, rest, hsplit, hlength, -, -, hcapitals⟩ := exists_of_marked hmarked
    have hdropped : (upper (normalized text)).toList = rest.flatMap upperChar := by
      rw [normalized_of_marked hmarked hsplit hlength, toList_upper, String.toList_ofList]
    rw [hcapitals, ← hdropped] at hlines
    exact ofText_of_marked hlines
  · obtain ⟨first, more, hwords⟩ := List.exists_cons_of_ne_nil hsome
    rw [hwords] at hlines
    rw [normalized_of_not_marked hmarked] at hlines ⊢
    exact Schedule.ofText_of_ofLines hwords hlines fun h => absurd h hmarked

end

theorem not_isBlank_of_getLast?_normalized {text : String} {c : Char}
    (hc : c ∈ (normalized text).toList.getLast?) : isBlank c = false := by
  have hlast : c ∈ (trim text).toList.getLast? := by
    by_cases hmarked : Marked (trim text)
    · obtain ⟨name, rest, hsplit, hlength, -⟩ := exists_of_marked hmarked
      rw [normalized_of_marked hmarked hsplit hlength, String.toList_ofList] at hc
      rw [hsplit, List.getLast?_append, List.getLast?_cons]
      cases hrest : rest.getLast? with
      | none => simp [hrest] at hc
      | some d => simpa [hrest] using hc
    · rwa [normalized_of_not_marked hmarked] at hc
  rw [trim, String.toList_ofList] at hlast
  exact not_isBlank_of_getLast?_trimList hlast

/-- A text that ends with no blank stays as it is when it begins with neither a blank nor a mark. -/
theorem normalized_eq_self_iff {text : String}
    (hend : ∀ c ∈ text.toList.getLast?, isBlank c = false) :
    normalized text = text ↔ (∀ c ∈ text.toList.head?, isBlank c = false) ∧ ¬ Marked text := by
  have htrim : trim text = text ↔ ∀ c ∈ text.toList.head?, isBlank c = false := by
    rw [← trimList_eq_self_iff hend, trim, ← String.toList_inj, String.toList_ofList]
  rw [← htrim]
  constructor
  · intro h
    by_cases hmarked : Marked (trim text)
    · exfalso
      -- The mark is taken off, so the text gets shorter.
      obtain ⟨name, rest, hsplit, hlength, -⟩ := exists_of_marked hmarked
      have hle := length_trimList_le text.toList
      have hkept := congrArg (fun s => s.toList.length) h
      have hlonger := congrArg List.length hsplit
      rw [normalized_of_marked hmarked hsplit hlength] at hkept
      simp only [trim, String.toList_ofList, List.length_append, List.length_cons] at hkept hlonger
      omega
    · rw [normalized_of_not_marked hmarked] at h
      exact ⟨h, h ▸ hmarked⟩
  · rintro ⟨hkept, hplain⟩
    rw [normalized_of_not_marked (hkept.symm ▸ hplain), hkept]

def fields (o : Override) : Fields :=
  [("rrule", .text o.ruleText), ("shift_size", (o.size.map fun n => .number (.int n)).getD .null),
    ("preallocations", .list (o.preallocated.map .text)), ("closed", .bool o.closed)]

theorem ofValue_fields [DateReader] (o : Override) :
    ofValue (.record o.fields) = make o.ruleText o.size o.preallocated o.closed := by
  have htext : Value.textOrEmpty (.text o.ruleText) = o.ruleText := by
    by_cases hempty : o.ruleText = "" <;>
      simp [Value.textOrEmpty, Value.isTrue, Value.toText, hempty]
  have hpeople : (Value.orElse (.list (o.preallocated.map .text)) (.list [])).items =
      .ok (o.preallocated.map .text) := by
    cases o.preallocated <;> rfl
  have hnames : (o.preallocated.map Value.text).map Value.toText = o.preallocated := by
    simp [Function.comp_def, Value.toText]
  have hrrule : Fields.getD o.fields "rrule" .null = .text o.ruleText := rfl
  have hsize : eitherField o.fields "shift_size" "shiftSize" =
      (o.size.map fun n => .number (.int n)).getD .null := rfl
  have hpre : eitherField o.fields "preallocations" "prefilledAllocations" =
      .list (o.preallocated.map .text) := rfl
  have hclosed : Fields.getD o.fields "closed" (.bool false) = .bool o.closed := rfl
  simp only [ofValue, Value.toFields, hrrule, hsize, hpre, hclosed, htext, hpeople, hnames,
    Value.isTrue, bind, Except.bind]
  cases o.size <;> rfl

def renormalized (o : Override) : Override := { o with ruleText := normalized o.ruleText }

section

variable [DateReader] {text : String} {size : Option Int} {people : List String} {closed : Bool}
variable {o : Override}

theorem make_renormalized (h : make text size people closed = .ok o) :
    make o.ruleText o.size o.preallocated o.closed = .ok o.renormalized := by
  obtain ⟨⟨-, hsize⟩, hrule, hschedule, rfl, rfl, rfl⟩ := make_eq_ok_iff.mp h
  rw [hrule] at hschedule
  have hcopy := ofText_normalized hschedule
  have hagain : normalized o.ruleText ≠ "" := by
    intro hempty
    rw [hempty] at hcopy
    exact (Schedule.ofLines_of_ofText hcopy).1 rfl
  simp only [make_eq_ok_iff, renormalized, and_true, true_and]
  exact ⟨⟨hagain, hsize⟩, hcopy⟩

theorem renormalized_eq_self_iff (h : make text size people closed = .ok o) :
    o.renormalized = o ↔
      (∀ c ∈ o.ruleText.toList.head?, isBlank c = false) ∧ ¬ Marked o.ruleText := by
  obtain ⟨-, hrule, -⟩ := make_eq_ok_iff.mp h
  have hend : ∀ c ∈ o.ruleText.toList.getLast?, isBlank c = false :=
    hrule ▸ fun c => not_isBlank_of_getLast?_normalized
  rw [← normalized_eq_self_iff hend]
  constructor
  · intro hsame
    simpa only [renormalized] using congrArg ruleText hsame
  · intro hkept
    rw [renormalized, hkept]

end

end Override

/-- An override made again from what it stores has the same schedule, but it is the same override
only if the stored text begins with neither a blank nor a mark. -/
theorem copies_of_override [DateReader] {text : String} {size : Option Int} {people : List String}
    {closed : Bool} {o : Override} (h : Override.make text size people closed = .ok o) :
    Override.make o.ruleText o.size o.preallocated o.closed = .ok o.renormalized ∧
      Override.ofValue (.record o.fields) = .ok o.renormalized ∧
      (o.renormalized = o ↔
        (∀ c ∈ o.ruleText.toList.head?, isBlank c = false) ∧ ¬ Override.Marked o.ruleText) := by
  refine ⟨Override.make_renormalized h, ?_, Override.renormalized_eq_self_iff h⟩
  rw [Override.ofValue_fields]
  exact Override.make_renormalized h

namespace Sample

def daily (ruleText : String) (size : Option Int) (people : List String) : Override where
  ruleText := ruleText
  schedule := { rules := [{ frequency := .daily }] }
  size := size
  preallocated := people

end Sample

open Sample in
theorem copies_of_override_sample :
    Override.make "RRULE: FREQ=DAILY" (some 3) ["ada"] =
        .ok (daily " FREQ=DAILY" (some 3) ["ada"]) ∧
      Override.make " FREQ=DAILY" (some 3) ["ada"] =
        .ok (daily " FREQ=DAILY" (some 3) ["ada"]).renormalized := by
  have hmake : Override.make "RRULE: FREQ=DAILY" (some 3) ["ada"] =
      .ok (daily " FREQ=DAILY" (some 3) ["ada"]) :=
    @Override.make_of_line _ _ _ _ _ _ "FREQ=DAILY".toList _ (by decide +kernel)
      (by decide +kernel) (by decide +kernel) (by decide)
  exact ⟨hmake, (copies_of_override hmake).1⟩

open Sample in
theorem stored_rules_change :
    (Override.make "RRULE: FREQ=DAILY" = .ok (daily " FREQ=DAILY" none []) ∧
      Override.make " FREQ=DAILY" = .ok (daily "FREQ=DAILY" none [])) ∧
    (Override.make "RRULE:RRULE:FREQ=DAILY" = .ok (daily "RRULE:FREQ=DAILY" none []) ∧
      Override.make "RRULE:FREQ=DAILY" = .ok (daily "FREQ=DAILY" none [])) := by
  have hmake {text ruleText : String} (line : String)
      (h : Override.normalized text = ruleText ∧
        words (upper ruleText).toList = [line.toList] ∧
        Rule.ofLine Schedule.plainStart line = .ok { frequency := .daily }) :
      Override.make text = .ok (daily ruleText none []) := by
    refine Override.make_of_line h.1 h.2.1 ?_ (by simp)
    rw [String.ofList_toList]
    exact h.2.2
  refine ⟨⟨hmake "FREQ=DAILY" ?_, hmake "FREQ=DAILY" ?_⟩,
    hmake "RRULE:FREQ=DAILY" ?_, hmake "FREQ=DAILY" ?_⟩ <;> decide +kernel

end Rostering
