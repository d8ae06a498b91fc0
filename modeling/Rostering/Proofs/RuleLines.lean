import Rostering.Override
import Rostering.Proofs.Basic
import Rostering.Proofs.Texts

namespace Rostering

open Text

/-! Lines that state rules. The mark before a rule makes no difference to what its line states, so
that a text of a single line states its rule whichever way it is read. -/

namespace Rule

theorem pieces_of_not_mem {mark : Char} {s : String} (h : mark ∉ s.toList) :
    pieces mark s = [s] := by
  rw [pieces, splitOnChar_of_not_mem h, List.map_singleton, String.ofList_toList]

theorem pieces_append {mark : Char} {s : String} {piece rest : List Char}
    (hs : s.toList = piece ++ mark :: rest) (h : mark ∉ piece) :
    pieces mark s = String.ofList piece :: pieces mark (String.ofList rest) := by
  rw [pieces, hs, splitOnChar_append h, List.map_cons, pieces, String.toList_ofList]

theorem body_of_not_mem {line : String} (h : ':' ∉ line.toList) : body line = .ok line := by
  rw [body, pieces_of_not_mem h]

theorem body_of_marked {text : List Char} (h : ':' ∉ text) :
    body (String.ofList (mark.toList ++ ':' :: text)) = .ok (String.ofList text) := by
  have hmark : ':' ∉ mark.toList := by decide
  rw [body, pieces_append String.toList_ofList hmark, pieces_of_not_mem (by simpa using h)]
  rfl

variable [DateReader] {start : Start} {rule : Rule}

theorem ofLine_of_marked {text : List Char} (h : ':' ∉ text) (start : Start) :
    ofLine start (String.ofList (mark.toList ++ ':' :: text)) =
      ofLine start (String.ofList text) := by
  rw [ofLine, ofLine, body_of_marked h, body_of_not_mem (by rwa [String.toList_ofList])]

theorem ofLine_shape {line : String} (h : ofLine start line = .ok rule) :
    ':' ∉ line.toList ∨
      ∃ text, ':' ∉ text ∧ line = String.ofList (mark.toList ++ ':' :: text) := by
  have hjoined := flatten_splitOnChar ':' line.toList
  have hplain := fun piece => @not_mem_of_mem_splitOnChar ':' line.toList piece
  obtain ⟨text, hbody, -⟩ := bind_eq_ok.mp h
  rw [body, pieces] at hbody
  rcases hsplit : splitOnChar ':' line.toList with _ | ⟨name, _ | ⟨text, _ | _⟩⟩
  · simp [hsplit] at hbody
  · rw [hsplit] at hjoined hplain
    obtain rfl : name = line.toList := by simpa using hjoined
    exact .inl (hplain _ List.mem_cons_self)
  · rw [hsplit] at hjoined hplain hbody
    have hline : line.toList = name ++ ':' :: text := by simpa using hjoined.symm
    have hname : String.ofList name = mark := by
      by_contra hne
      simp [hne] at hbody
    refine .inr ⟨text, hplain _ (by simp), ?_⟩
    rw [← hname, String.toList_ofList, ← hline, String.ofList_toList]
  · simp [hsplit] at hbody

theorem ofLine_empty (start : Start) : ofLine start "" = .error .invalid := by
  rfl

end Rule

namespace Schedule

variable [DateReader] {zones : List (String × String)} {start : Start} {rule : Rule}
variable {line text other : String} {more : List String} {s : Schedule}

theorem entry_of_not_mem (zones : List (String × String)) (h : ':' ∉ line.toList) :
    entry zones line = .ok (.rule line) := by
  have hproperty : property line = (Rule.mark, line) := by
    have hnone : line.toList.dropWhile (· ≠ ':') = [] := by
      rw [List.dropWhile_eq_nil_iff]
      exact fun c hc => decide_eq_true fun hcolon => h (hcolon ▸ hc)
    rw [property, hnone]
  have hmark : Rule.pieces ';' Rule.mark = [Rule.mark] := by decide
  simp only [entry, hproperty, hmark]
  rfl

theorem entry_of_marked (zones : List (String × String)) (text : List Char) :
    entry zones (String.ofList (Rule.mark.toList ++ ':' :: text)) =
      .ok (.rule (String.ofList text)) := by
  have hproperty : property (String.ofList (Rule.mark.toList ++ ':' :: text)) =
      (Rule.mark, String.ofList text) := by
    have hletters : Rule.mark.toList.all (fun c => decide (c ≠ ':')) = true := by decide
    rw [property, String.toList_ofList,
      List.dropWhile_append_of_pos (List.all_eq_true.mp hletters),
      List.takeWhile_append_of_pos (List.all_eq_true.mp hletters)]
    simp
  have hmark : Rule.pieces ';' Rule.mark = [Rule.mark] := by decide
  simp only [entry, hproperty, hmark]
  rfl

/-- A line that is a rule by itself states a rule that is read alike. -/
theorem entry_of_ofLine (h : Rule.ofLine start line = .ok rule) (zones : List (String × String)) :
    ∃ text, entry zones line = .ok (.rule text) ∧
      ∀ start, Rule.ofLine start text = Rule.ofLine start line := by
  rcases Rule.ofLine_shape h with hplain | ⟨text, hplain, rfl⟩
  · exact ⟨line, entry_of_not_mem zones hplain, fun _ => rfl⟩
  · exact ⟨_, entry_of_marked zones text, fun start => (Rule.ofLine_of_marked hplain start).symm⟩

theorem ofLines_cons (hline : entry zones line = .ok (.rule text)) (more : List String) :
    ofLines zones (line :: more) =
      more.mapM (entry zones) >>= fun entries =>
        ofDraft ((entries.foldr Draft.add {}).add (.rule text)) := by
  rw [ofLines, List.mapM_cons, hline]
  cases more.mapM (entry zones) <;> rfl

theorem ofLines_congr (hline : entry zones line = .ok (.rule text)) {line' : String}
    (hother : entry zones line' = .ok (.rule other))
    (halike : ∀ start, Rule.ofLine start text = Rule.ofLine start other) (more : List String) :
    ofLines zones (line :: more) = ofLines zones (line' :: more) := by
  rw [ofLines_cons hline, ofLines_cons hother]
  simp only [ofDraft, Draft.add, Draft.isEmpty, List.isEmpty_cons, List.mapM_cons, halike]

theorem exists_ofLine_of_ofLines (hline : entry zones line = .ok (.rule text))
    (h : ofLines zones (line :: more) = .ok s) : ∃ start rule, Rule.ofLine start text = .ok rule := by
  rw [ofLines_cons hline] at h
  obtain ⟨entries, -, h⟩ := bind_eq_ok.mp h
  rw [ofDraft] at h
  obtain ⟨-, h⟩ := check_eq_ok.mp h
  obtain ⟨rules, hrules, -⟩ := bind_eq_ok.mp h
  exact ⟨_, exists_ok_of_mapM_eq_ok hrules List.mem_cons_self⟩

theorem ofLines_singleton (hline : entry zones line = .ok (.rule text)) :
    ofLines zones [line] =
      (fun rule => { rules := [rule] }) <$> Rule.ofLine plainStart text := by
  rw [ofLines_cons hline]
  simp only [List.mapM_nil, pure_bind, List.foldr_nil, ofDraft, Draft.add, Draft.isEmpty,
    List.isEmpty_cons, List.mapM_cons, Option.getD_none]
  cases Rule.ofLine plainStart text <;> rfl

theorem ofLines_of_ofText {text : String} (h : ofText text = .ok s) :
    words (upper text).toList ≠ [] ∧
      ofLines (zoneNames text) ((words (upper text).toList).map String.ofList) = .ok s := by
  simp only [ofText] at h
  generalize words (upper text).toList = lines at h ⊢
  rcases lines with _ | ⟨line, _ | ⟨next, rest⟩⟩
  · cases h
  · refine ⟨List.cons_ne_nil _ _, ?_⟩
    simp only [List.map_cons, List.map_nil] at h ⊢
    split at h
    · cases hrule : Rule.ofLine plainStart (String.ofList line) with
      | error cause => simp [hrule] at h
      | ok rule =>
          obtain ⟨text', hline, halike⟩ := entry_of_ofLine hrule (zoneNames text)
          rw [ofLines_singleton hline, halike]
          exact h
    · exact h
  · exact ⟨List.cons_ne_nil _ _, h⟩

/-- Lines that are read make up a text that is read, where a text that starts with a mark is a rule
in its first line. -/
theorem ofText_of_ofLines {text : String} {first : List Char} {more : List (List Char)}
    (hwords : words (upper text).toList = first :: more)
    (h : ofLines (zoneNames text) ((first :: more).map String.ofList) = .ok s)
    (hmark : (upper text).startsWith (Rule.mark ++ ":") = true →
      ∃ start rule, Rule.ofLine start (String.ofList first) = .ok rule) : ofText text = .ok s := by
  simp only [ofText, hwords]
  cases more with
  | nil =>
      simp only [List.map_cons, List.map_nil] at h ⊢
      split
      · next hplain =>
          rw [Bool.or_eq_true] at hplain
          obtain ⟨text', hline, halike⟩ : ∃ text', entry (zoneNames text) (String.ofList first) =
              .ok (.rule text') ∧
                ∀ start, Rule.ofLine start text' = Rule.ofLine start (String.ofList first) := by
            rcases hplain with hplain | hmarked
            · have hcolon : ':' ∉ first := by
                intro hmem
                have := mem_of_mem_words (hwords ▸ List.mem_cons_self) hmem
                simp [this] at hplain
              exact ⟨_, entry_of_not_mem _ (by rwa [String.toList_ofList]), fun _ => rfl⟩
            · obtain ⟨start, rule, hrule⟩ := hmark hmarked
              exact entry_of_ofLine hrule _
          rwa [ofLines_singleton hline, halike] at h
      · exact h
  | cons next rest => exact h

theorem ofText_of_line {text : String} {line : List Char}
    (hwords : words (upper text).toList = [line])
    (hline : Rule.ofLine plainStart (String.ofList line) = .ok rule) :
    ofText text = .ok { rules := [rule] } := by
  refine ofText_of_ofLines hwords ?_ fun _ => ⟨_, _, hline⟩
  obtain ⟨text', hentry, halike⟩ := entry_of_ofLine hline (zoneNames text)
  rw [List.map_singleton, ofLines_singleton hentry, halike, hline]
  rfl

end Schedule

namespace Override

variable [DateReader] {text : String} {size : Option Int} {people : List String} {closed : Bool}

theorem make_eq_ok_iff {o : Override} : make text size people closed = .ok o ↔
    (normalized text ≠ "" ∧ ∀ n ∈ size, 1 ≤ n) ∧ normalized text = o.ruleText ∧
      Schedule.ofText (normalized text) = .ok o.schedule ∧ size = o.size ∧
      people = o.preallocated ∧ closed = o.closed := by
  obtain ⟨ruleText, schedule, size', people', closed'⟩ := o
  rw [make]
  simp only [String.isEmpty_iff]
  split
  · next hempty => simp [hempty]
  · next hsome =>
      rcases Schedule.ofText (normalized text) with (_ | cause) | found
      · simp
      · simp
      · cases size with
        | none => simp [hsome]
        | some n =>
            by_cases hsmall : n < 1
            · simp [hsmall, Int.not_le.mpr hsmall]
            · simp [hsmall, hsome, Int.not_lt.mp hsmall]

theorem make_of_line {ruleText : String} {line : List Char} {rule : Rule}
    (hrule : normalized text = ruleText) (hwords : words (upper ruleText).toList = [line])
    (hline : Rule.ofLine Schedule.plainStart (String.ofList line) = .ok rule)
    (hsize : ∀ n ∈ size, 1 ≤ n) :
    make text size people closed = .ok ⟨ruleText, { rules := [rule] }, size, people, closed⟩ := by
  have hsome : ruleText ≠ "" := by
    rintro rfl
    have hnone : words (upper "").toList = [] := rfl
    rw [hnone] at hwords
    cases hwords
  simp only [make_eq_ok_iff, hrule, Schedule.ofText_of_line hwords hline, and_true]
  exact ⟨hsome, hsize⟩

end Override

end Rostering
