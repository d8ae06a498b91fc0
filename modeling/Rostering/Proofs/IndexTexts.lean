import Rostering.Proofs.NumberCells

namespace Rostering

open Text

/-! An index set that was written between bars is read back, whatever blanks and blank entries stand
around its numbers. -/

/-- Entries between which bars stand: numbers with blanks around them, and blank ones. -/
inductive Written : List String → List Int → Prop
  | nil : Written [] []
  | blank {piece : String} {pieces : List String} {ns : List Int}
      (hblank : ∀ c ∈ piece.toList, isBlank c = true) (hrest : Written pieces ns) :
      Written (piece :: pieces) ns
  | number {before after : String} {pieces : List String} {n : Int} {ns : List Int}
      (hbefore : ∀ c ∈ before.toList, isBlank c = true)
      (hafter : ∀ c ∈ after.toList, isBlank c = true) (hrest : Written pieces ns) :
      Written ((before ++ toString n ++ after) :: pieces) (n :: ns)

theorem toList_toString (n : Int) :
    (toString n).toList =
      if n < 0 then '-' :: (toString n.natAbs).toList else (toString n.natAbs).toList := by
  cases n with
  | ofNat m => rfl
  | negSucc m =>
      rw [if_pos (Int.negSucc_lt_zero m)]
      simp [toString, Int.repr]

theorem toList_toString_int_ne_nil (n : Int) : (toString n).toList ≠ [] := by
  rw [toList_toString]
  split
  · exact List.cons_ne_nil _ _
  · exact toList_toString_ne_nil _

theorem signed_toString (n : Int) :
    Spelling.Signed (toString n).toList (decide (n < 0)) (toString n.natAbs).toList := by
  rw [toList_toString]
  split
  · next hnegative =>
      rw [decide_eq_true hnegative]
      exact .minus _
  · next hnot =>
      rw [decide_eq_false hnot]
      exact .bare _

theorem dash_or_digit_of_mem_toString {n : Int} {c : Char} (h : c ∈ (toString n).toList) :
    c = '-' ∨ c.isDigit = true := by
  rw [toList_toString] at h
  split at h
  · exact (List.mem_cons.mp h).imp id isDigit_of_mem_toString
  · exact .inr (isDigit_of_mem_toString h)

theorem not_isBlank_of_mem_toString {n : Int} {c : Char} (h : c ∈ (toString n).toList) :
    isBlank c = false := by
  rcases dash_or_digit_of_mem_toString h with rfl | hdigit
  · decide
  · exact isBlank_eq_false_of_isDigit hdigit

theorem spells_toString (n : Int) :
    Spells (toString n) (.decimal (decide (n < 0)) ⟨n.natAbs, 0⟩) := by
  have hmark : '_' ∉ (toString n).toList := fun h =>
    absurd (dash_or_digit_of_mem_toString h) (by decide)
  have hwhole := naturalOfChars?_eq_some_iff.mp (naturalOfChars?_toString n.natAbs)
  refine ⟨_, _, _, ?_, signed_toString n, .decimal (.plain (.whole hwhole))⟩
  rw [trimList_eq_self fun c hc => not_isBlank_of_mem_toString hc]
  exact joinDigitGroups_none_eq_some_iff.mp (joinDigitGroups_eq_self hmark none)

theorem truncation_toString {n : Int} (hn : n.natAbs ≤ 2 ^ 53) : Truncation (toString n) n := by
  have hread := Truncation.decimal (spells_toString n) (Decimal.toBinary64_natural _ hn)
  have hunit : (Binary64.stepsPerUnit : Int) ≠ 0 := by
    exact_mod_cast Binary64.stepsPerUnit_pos.ne'
  have hvalue : Binary64.signedSteps (decide (n < 0)) (n.natAbs * Binary64.stepsPerUnit) =
      n * Binary64.stepsPerUnit := by
    rw [Binary64.signedSteps, Nat.cast_mul, ← Int.neg_mul, ← ite_mul]
    congr 1
    simp only [decide_eq_true_eq]
    omega
  rwa [hvalue, Int.mul_tdiv_cancel _ hunit] at hread

theorem entries_text (s : String) :
    Cell.entries (.text s) = ((splitOnChar Cell.listMark s.toList).map fun cs =>
      String.ofList (trimList cs)).filter (!·.isEmpty) := by
  have hyes : Value.isTrue (.text s) = !s.isEmpty := rfl
  rw [Cell.entries, hyes, Bool.not_not]
  by_cases hempty : s.isEmpty = true
  · rw [if_pos hempty, String.isEmpty_iff.mp hempty]
    rfl
  · rw [if_neg hempty]
    rfl

namespace Written

variable {pieces : List String} {ns : List Int}

theorem trimmed (h : Written pieces ns) :
    (pieces.map trim).filter (!·.isEmpty) = ns.map toString := by
  induction h with
  | nil => rfl
  | @blank piece _ _ hblank _ ih =>
      have hempty : trim piece = "" := by
        rw [trim, trimList, trimStart, List.dropWhile_eq_nil_iff.mpr hblank]
        rfl
      rw [List.map_cons, hempty, List.filter_cons_of_neg (by decide), ih]
  | @number before after _ n _ hbefore hafter _ ih =>
      have hcore : trim (before ++ toString n ++ after) = toString n := by
        rw [trim, String.toList_append, String.toList_append,
          trimList_padded hbefore (toList_toString_int_ne_nil n)
            (fun c hc => not_isBlank_of_mem_toString hc) hafter, String.ofList_toList]
      have hsome : (toString n).isEmpty = false := by
        rw [← Bool.not_eq_true, String.isEmpty_iff]
        exact fun hempty => toList_toString_int_ne_nil n (by rw [hempty]; rfl)
      rw [List.map_cons, hcore, List.filter_cons_of_pos (by rw [hsome]; rfl), ih, List.map_cons]

theorem not_mem (h : Written pieces ns) : ∀ piece ∈ pieces, Cell.listMark ∉ piece.toList := by
  have hblank : isBlank Cell.listMark = false := by decide
  induction h with
  | nil => simp
  | blank hpiece _ ih =>
      refine List.forall_mem_cons.mpr ⟨fun hmem => ?_, ih⟩
      exact absurd (hpiece _ hmem) (by decide)
  | number hbefore hafter _ ih =>
      refine List.forall_mem_cons.mpr ⟨fun hmem => ?_, ih⟩
      rw [String.toList_append, String.toList_append, List.mem_append, List.mem_append] at hmem
      rcases hmem with (hmem | hmem) | hmem
      · exact absurd (hbefore _ hmem) (by decide)
      · exact absurd (dash_or_digit_of_mem_toString hmem) (by decide)
      · exact absurd (hafter _ hmem) (by decide)

theorem entries (h : Written pieces ns) :
    Cell.entries (.text ("|".intercalate pieces)) = ns.map toString := by
  rw [entries_text, String.toList_intercalate, ← h.trimmed]
  cases pieces with
  | nil => rfl
  | cons piece rest =>
      have hbar : "|".toList = [Cell.listMark] := rfl
      rw [hbar, splitOnChar_intercalate (by simp) (by simpa using h.not_mem), List.map_map]
      rfl

end Written

theorem indices_of_written {pieces : List String} {ns : List Int} (h : Written pieces ns)
    (hexact : ∀ n ∈ ns, n.natAbs ≤ 2 ^ 53) :
    Cell.indices (.text ("|".intercalate pieces)) = .ok (.ofList ns) ∧
      ∀ i, i ∈ IndexSet.ofList ns ↔ i ∈ ns := by
  refine ⟨?_, fun i => IndexSet.mem_ofList⟩
  have hread : ∀ n ∈ ns, Cell.entryIndex (toString n) = .ok (some n) := fun n hn =>
    Cell.entryIndex_eq_some_iff.mpr (truncation_toString (hexact n hn))
  rw [Cell.indices, h.entries, mapM_map_eq_pure hread, pure_bind, List.filterMap_map]
  simp

theorem indices_of_written_sample :
    Written [" -3\t", "", "9007199254740992", " ", "-9007199254740992 "]
        [-3, 9007199254740992, -9007199254740992] ∧
      Cell.indices (.text " -3\t||9007199254740992| |-9007199254740992 ") =
        .ok (.ofList [-3, 9007199254740992, -9007199254740992]) := by
  have hfirst : " -3\t" = " " ++ toString (-3 : Int) ++ "\t" := by decide +kernel
  have hlargest : "9007199254740992" = "" ++ toString (9007199254740992 : Int) ++ "" := by
    decide +kernel
  have hleast : "-9007199254740992 " = "" ++ toString (-9007199254740992 : Int) ++ " " := by
    decide +kernel
  have hblank {piece : String} (h : piece.toList.all isBlank = true) :
      ∀ c ∈ piece.toList, isBlank c = true := List.all_eq_true.mp h
  have hwritten : Written [" -3\t", "", "9007199254740992", " ", "-9007199254740992 "]
      [-3, 9007199254740992, -9007199254740992] := by
    rw [hfirst, hlargest, hleast]
    refine .number (hblank ?_) (hblank ?_) (.blank (hblank ?_) (.number (hblank ?_) (hblank ?_)
      (.blank (hblank ?_) (.number (hblank ?_) (hblank ?_) .nil)))) <;> decide
  exact ⟨hwritten, (indices_of_written hwritten (by decide)).1⟩

end Rostering
