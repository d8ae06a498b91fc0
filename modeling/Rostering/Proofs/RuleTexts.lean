import Rostering.Proofs.RuleLines

namespace Rostering

open Text

/-! The texts of weekly rules with an interval are read as the rules that they state. -/

def weeklyText (interval : Nat) : String := "FREQ=WEEKLY;INTERVAL=" ++ toString interval

def Rule.weekly (interval : Nat) : Rule := { frequency := .weekly, interval }

def everyWeeks (interval : Nat) (size : Int) : Override where
  ruleText := weeklyText interval
  schedule := { rules := [.weekly interval] }
  size := some size

theorem toList_weeklyText (interval : Nat) : (weeklyText interval).toList =
    "FREQ=WEEKLY".toList ++ ';' :: ("INTERVAL".toList ++ '=' :: (toString interval).toList) := by
  have hparts : "FREQ=WEEKLY;INTERVAL=".toList =
      "FREQ=WEEKLY".toList ++ ';' :: ("INTERVAL".toList ++ ['=']) := by decide +kernel
  unfold weeklyText
  simp only [String.toList_append, hparts, List.append_assoc, List.cons_append, List.nil_append]

theorem plain_of_mem_weeklyText {interval : Nat} {c : Char}
    (h : c ∈ (weeklyText interval).toList) :
    upperChar c = [c] ∧ isBlank c = false ∧ c ≠ ':' := by
  unfold weeklyText at h
  rw [String.toList_append, List.mem_append] at h
  rcases h with h | h
  · have hplain : "FREQ=WEEKLY;INTERVAL=".toList.all (fun c =>
        decide (upperChar c = [c] ∧ isBlank c = false ∧ c ≠ ':')) = true := by decide +kernel
    exact of_decide_eq_true (List.all_eq_true.mp hplain c h)
  · have hdigit := isDigit_of_mem_toString h
    refine ⟨upperChar_of_isDigit hdigit, isBlank_eq_false_of_isDigit hdigit, ?_⟩
    rintro rfl
    exact absurd hdigit (by decide)

theorem upper_weeklyText (interval : Nat) : upper (weeklyText interval) = weeklyText interval :=
  upper_eq_self fun _ hc => (plain_of_mem_weeklyText hc).1

theorem colon_not_mem_weeklyText (interval : Nat) : ':' ∉ (weeklyText interval).toList :=
  fun hc => (plain_of_mem_weeklyText hc).2.2 rfl

theorem normalized_weeklyText (interval : Nat) :
    Override.normalized (weeklyText interval) = weeklyText interval := by
  have hmark : (weeklyText interval).startsWith (Rule.mark ++ ":") = false := by
    rw [String.startsWith_string_eq_false_iff]
    exact fun hmarked => colon_not_mem_weeklyText interval (hmarked.subset (by decide))
  have htrim : trim (weeklyText interval) = weeklyText interval :=
    trim_eq_self fun _ hc => (plain_of_mem_weeklyText hc).2.1
  simp only [Override.normalized, htrim, upper_weeklyText, hmark]
  rfl

namespace Rule

theorem not_mem_toString {c : Char} (hc : c.isDigit = false) (n : Nat) :
    c ∉ (toString n).toList := fun hmem =>
  Bool.false_ne_true (hc.symm.trans (isDigit_of_mem_toString hmem))

theorem last?_weekly (value : String) (names : List String) :
    Parts.last? [("FREQ", "WEEKLY"), ("INTERVAL", value)] names =
      if names.contains "INTERVAL" then some value
      else if names.contains "FREQ" then some "WEEKLY" else none := by
  simp only [Parts.last?, List.reverse_cons, List.reverse_nil, List.nil_append,
    List.singleton_append, List.find?_cons, List.find?_nil]
  cases names.contains "INTERVAL" <;> cases names.contains "FREQ" <;> rfl

variable [DateReader]

theorem readPart_of_pieces {part name value : String} (hpieces : pieces '=' part = [name, value])
    (hcheck : checkPart name value = .ok ()) : readPart part = .ok (name, value) := by
  rw [readPart, hpieces]
  simp only [hcheck]
  rfl

theorem parts_weeklyText (interval : Nat) :
    parts (weeklyText interval) =
      .ok [("FREQ", "WEEKLY"), ("INTERVAL", toString interval)] := by
  have hmark : ';' ∉ "INTERVAL".toList ++ '=' :: (toString interval).toList := by
    rw [List.mem_append, List.mem_cons, not_or, not_or]
    exact ⟨by decide +kernel, by decide, not_mem_toString (by decide) interval⟩
  have hparts : pieces ';' (weeklyText interval) =
      ["FREQ=WEEKLY", String.ofList ("INTERVAL".toList ++ '=' :: (toString interval).toList)] := by
    rw [pieces_append (toList_weeklyText interval) (by decide +kernel),
      pieces_of_not_mem (by rwa [String.toList_ofList]), String.ofList_toList]
  have hfrequency : readPart "FREQ=WEEKLY" = .ok ("FREQ", "WEEKLY") :=
    readPart_of_pieces (by decide +kernel) rfl
  have hinterval : readPart (String.ofList ("INTERVAL".toList ++ '=' ::
      (toString interval).toList)) = .ok ("INTERVAL", toString interval) := by
    refine readPart_of_pieces ?_ ?_
    · rw [pieces_append String.toList_ofList (by decide +kernel), String.ofList_toList,
        String.ofList_toList, pieces_of_not_mem (not_mem_toString (by decide) interval)]
    · simp only [checkPart, integerOfText?_toString]
      rfl
  rw [parts, hparts]
  simp only [List.mapM_cons, List.mapM_nil, hfrequency, hinterval]
  rfl

theorem rawOfParts?_weekly {value : String} {interval : Nat}
    (h : integerOfText? value = some (interval : Int)) :
    rawOfParts? [("FREQ", "WEEKLY"), ("INTERVAL", value)] = some (weekly interval) := by
  have hnamed : Frequency.all.find? (fun f => f.name == "WEEKLY") = some .weekly := by decide
  simp only [rawOfParts?, Parts.integers, Parts.integer?, lastOfParts, last?_weekly]
  simp [hnamed, h, weekly]

theorem ofLine_weeklyText (interval : Nat) :
    ofLine Schedule.plainStart (weeklyText interval) = .ok (weekly interval) := by
  have hfit : (weekly interval).fit Schedule.plainStart = .ok (weekly interval) := rfl
  rw [ofLine, body_of_not_mem (colon_not_mem_weeklyText interval)]
  simp only [parts_weeklyText, bind, Except.bind, ofParts,
    rawOfParts?_weekly (integerOfText?_toString interval), hfit]

end Rule

theorem make_everyWeeks [DateReader] (interval : Nat) {size : Int} (hsize : 1 ≤ size) :
    Override.make (weeklyText interval) (some size) = .ok (everyWeeks interval size) := by
  have hwords : words (upper (weeklyText interval)).toList = [(weeklyText interval).toList] := by
    rw [upper_weeklyText]
    exact words_eq_singleton (by rw [toList_weeklyText]; simp) fun _ hc =>
      (plain_of_mem_weeklyText hc).2.1
  refine Override.make_of_line (normalized_weeklyText interval) hwords ?_ (by simpa using hsize)
  rw [String.ofList_toList, Rule.ofLine_weeklyText]

end Rostering
