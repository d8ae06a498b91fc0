import Rostering.Number.Numeral
import Mathlib.Data.List.Basic
import Mathlib.Data.List.TakeWhile

namespace Rostering.Text

/-! Plain texts: without blanks they are one word and stay as they are when trimmed, and the digits
of a number are read as that number. -/

theorem dropWhile_isBlank_of_head {cs : List Char} (h : ∀ c ∈ cs.head?, isBlank c = false) :
    cs.dropWhile isBlank = cs := by
  cases cs with
  | nil => rfl
  | cons c rest => rw [List.dropWhile_cons, h c rfl, if_neg Bool.false_ne_true]

theorem dropWhile_isBlank {cs : List Char} (h : ∀ c ∈ cs, isBlank c = false) :
    cs.dropWhile isBlank = cs :=
  dropWhile_isBlank_of_head fun c hc => h c (List.mem_of_mem_head? hc)

theorem trimList_eq_self {cs : List Char} (h : ∀ c ∈ cs, isBlank c = false) :
    trimList cs = cs := by
  rw [trimList, trimStart, dropWhile_isBlank h, trimEnd, dropWhile_isBlank fun c hc =>
    h c (List.mem_reverse.mp hc), List.reverse_reverse]

theorem trim_eq_self {s : String} (h : ∀ c ∈ s.toList, isBlank c = false) : trim s = s := by
  rw [trim, trimList_eq_self h, String.ofList_toList]

theorem trimList_padded {before core after : List Char} (hbefore : ∀ c ∈ before, isBlank c = true)
    (hsome : core ≠ []) (hcore : ∀ c ∈ core, isBlank c = false)
    (hafter : ∀ c ∈ after, isBlank c = true) : trimList (before ++ core ++ after) = core := by
  have hreversed : ∀ c ∈ after.reverse, isBlank c = true := fun c hc =>
    hafter c (List.mem_reverse.mp hc)
  have hstart : ∀ c ∈ (core ++ after).head?, isBlank c = false := by
    obtain ⟨c, rest, rfl⟩ := List.exists_cons_of_ne_nil hsome
    simpa using hcore c List.mem_cons_self
  rw [trimList, trimStart, List.append_assoc, List.dropWhile_append_of_pos hbefore,
    dropWhile_isBlank_of_head hstart, trimEnd,
    List.reverse_append, List.dropWhile_append_of_pos hreversed,
    dropWhile_isBlank fun c hc => hcore c (List.mem_reverse.mp hc), List.reverse_reverse]

theorem exists_trimList (cs : List Char) : ∃ before after, cs = before ++ trimList cs ++ after ∧
    (∀ c ∈ before, isBlank c = true) ∧ ∀ c ∈ after, isBlank c = true := by
  refine ⟨cs.takeWhile isBlank, ((trimStart cs).reverse.takeWhile isBlank).reverse, ?_, ?_, ?_⟩
  · rw [List.append_assoc, trimList, trimEnd, ← List.reverse_append,
      List.takeWhile_append_dropWhile, List.reverse_reverse, trimStart,
      List.takeWhile_append_dropWhile]
  · exact fun c hc => List.mem_takeWhile_imp hc
  · exact fun c hc => List.mem_takeWhile_imp (List.mem_reverse.mp hc)

theorem length_trimList_le (cs : List Char) : (trimList cs).length ≤ cs.length := by
  obtain ⟨before, after, hsplit, -⟩ := exists_trimList cs
  have hlength := congrArg List.length hsplit
  simp only [List.length_append] at hlength
  omega

theorem not_isBlank_of_getLast?_trimList {cs : List Char} {c : Char}
    (hc : c ∈ (trimList cs).getLast?) : isBlank c = false := by
  rw [trimList, trimEnd, List.getLast?_reverse] at hc
  have hstop := List.head?_dropWhile_not isBlank (trimStart cs).reverse
  rwa [hc] at hstop

theorem trimList_eq_self_iff {cs : List Char} (hend : ∀ c ∈ cs.getLast?, isBlank c = false) :
    trimList cs = cs ↔ ∀ c ∈ cs.head?, isBlank c = false := by
  constructor
  · intro hkept c hc
    obtain ⟨rest, rfl⟩ := List.head?_eq_some_iff.mp hc
    by_contra hblank
    have hdropped : trimList (c :: rest) = trimList rest := by
      rw [trimList, trimStart, List.dropWhile_cons_of_pos (by simpa using hblank)]
      rfl
    have := length_trimList_le rest
    rw [← hdropped, hkept, List.length_cons] at this
    omega
  · intro hstart
    have hlast : ∀ c ∈ cs.reverse.head?, isBlank c = false := by
      rwa [List.head?_reverse]
    rw [trimList, trimStart, dropWhile_isBlank_of_head hstart, trimEnd,
      dropWhile_isBlank_of_head hlast, List.reverse_reverse]

theorem toNat_of_isDigit {c : Char} (h : c.isDigit = true) : 48 ≤ c.toNat ∧ c.toNat ≤ 57 := by
  simpa [Char.isDigit, UInt32.le_iff_toNat_le] using h

theorem isBlank_eq_false_of_isDigit {c : Char} (h : c.isDigit = true) : isBlank c = false := by
  have := toNat_of_isDigit h
  rw [← Bool.not_eq_true]
  simp only [isBlank, Bool.or_eq_true, Bool.and_eq_true, decide_eq_true_eq, beq_iff_eq]
  omega

theorem isBlank_of_trim_isEmpty {s : String} (h : (trim s).isEmpty = true) :
    ∀ c ∈ s.toList, isBlank c = true := by
  rw [String.isEmpty_iff, trim, String.ofList_eq_empty_iff, trimList, trimEnd,
    List.reverse_eq_nil_iff, List.dropWhile_eq_nil_iff] at h
  have hstart : trimStart s.toList = [] := by
    by_contra hsome
    have hblank := h _ (List.mem_reverse.mpr (List.head_mem hsome))
    exact Bool.false_ne_true ((List.head_dropWhile_not isBlank hsome).symm.trans hblank)
  exact List.dropWhile_eq_nil_iff.mp hstart

theorem splitOnChar_of_not_mem {mark : Char} {cs : List Char} (h : mark ∉ cs) :
    splitOnChar mark cs = [cs] := by
  induction cs with
  | nil => rfl
  | cons c rest ih =>
      obtain ⟨hc, hrest⟩ := not_or.mp (List.mem_cons.not.mp h)
      rw [splitOnChar, if_neg (Ne.symm hc), ih hrest]

theorem splitOnChar_append {mark : Char} {piece : List Char} (h : mark ∉ piece)
    (rest : List Char) :
    splitOnChar mark (piece ++ mark :: rest) = piece :: splitOnChar mark rest := by
  induction piece with
  | nil => rw [List.nil_append, splitOnChar, if_pos rfl]
  | cons c piece ih =>
      obtain ⟨hc, hpiece⟩ := not_or.mp (List.mem_cons.not.mp h)
      rw [List.cons_append, splitOnChar, if_neg (Ne.symm hc), ih hpiece]

theorem splitOnChar_intercalate {mark : Char} {pieces : List (List Char)} (hsome : pieces ≠ [])
    (h : ∀ piece ∈ pieces, mark ∉ piece) :
    splitOnChar mark ([mark].intercalate pieces) = pieces := by
  induction pieces with
  | nil => exact absurd rfl hsome
  | cons piece rest ih =>
      have hpiece := h piece List.mem_cons_self
      cases rest with
      | nil => rw [List.intercalate_singleton, splitOnChar_of_not_mem hpiece]
      | cons next rest =>
          rw [List.intercalate_cons_cons, List.append_assoc, List.singleton_append,
            splitOnChar_append hpiece, ih (List.cons_ne_nil _ _) fun other hother =>
              h other (List.mem_cons_of_mem _ hother)]

theorem flatten_splitOnChar (mark : Char) (cs : List Char) :
    ((splitOnChar mark cs).map (mark :: ·)).flatten = mark :: cs := by
  induction cs with
  | nil => rfl
  | cons c rest ih =>
      rw [splitOnChar]
      split
      · next hmark => rw [List.map_cons, List.flatten_cons, ih, hmark]; rfl
      · cases hrest : splitOnChar mark rest with
        | nil => simp [hrest] at ih
        | cons piece pieces =>
            rw [hrest, List.map_cons, List.flatten_cons, List.cons_append, List.cons.injEq] at ih
            simp [ih.2]

theorem splitOnChar_ne_nil (mark : Char) (cs : List Char) : splitOnChar mark cs ≠ [] := by
  intro hnone
  have hjoined := flatten_splitOnChar mark cs
  simp [hnone] at hjoined

theorem splitOnChar_append_mark (mark : Char) (left right : List Char) :
    splitOnChar mark (left ++ mark :: right) = splitOnChar mark left ++ splitOnChar mark right := by
  induction left with
  | nil => simp [splitOnChar]
  | cons c left ih =>
      rw [List.cons_append, splitOnChar, splitOnChar, ih]
      split
      · rfl
      · obtain ⟨piece, pieces, hleft⟩ := List.exists_cons_of_ne_nil (splitOnChar_ne_nil mark left)
        rw [hleft]
        rfl

/-- Characters before the first mark belong to the first piece. -/
theorem splitOnChar_prefix {mark : Char} {start : List Char} (h : mark ∉ start) (rest : List Char) :
    ∃ piece pieces, splitOnChar mark rest = piece :: pieces ∧
      splitOnChar mark (start ++ rest) = (start ++ piece) :: pieces := by
  induction start with
  | nil =>
      obtain ⟨piece, pieces, hrest⟩ := List.exists_cons_of_ne_nil (splitOnChar_ne_nil mark rest)
      exact ⟨piece, pieces, hrest, hrest⟩
  | cons c start ih =>
      obtain ⟨hc, hstart⟩ := not_or.mp (List.mem_cons.not.mp h)
      obtain ⟨piece, pieces, hrest, hsplit⟩ := ih hstart
      refine ⟨piece, pieces, hrest, ?_⟩
      rw [List.cons_append, splitOnChar, if_neg (Ne.symm hc), hsplit]
      rfl

theorem not_mem_of_mem_splitOnChar {mark : Char} {cs piece : List Char}
    (h : piece ∈ splitOnChar mark cs) : mark ∉ piece := by
  induction cs generalizing piece with
  | nil => simp_all [splitOnChar]
  | cons c rest ih =>
      rw [splitOnChar] at h
      split at h
      · rcases List.mem_cons.mp h with rfl | h
        · exact List.not_mem_nil
        · exact ih h
      · next hc =>
          obtain ⟨first, more, hrest⟩ := List.exists_cons_of_ne_nil (splitOnChar_ne_nil mark rest)
          rw [hrest] at h ih
          rcases List.mem_cons.mp h with rfl | h
          · exact List.mem_cons.not.mpr (not_or.mpr ⟨Ne.symm hc, ih List.mem_cons_self⟩)
          · exact ih (List.mem_cons_of_mem _ h)

theorem mem_of_mem_splitOnChar {mark : Char} {cs piece : List Char}
    (h : piece ∈ splitOnChar mark cs) {c : Char} (hc : c ∈ piece) : c ∈ cs := by
  have hmem : c ∈ ((splitOnChar mark cs).map (mark :: ·)).flatten :=
    List.mem_flatten.mpr ⟨_, List.mem_map_of_mem h, List.mem_cons_of_mem _ hc⟩
  rw [flatten_splitOnChar] at hmem
  have hne : c ≠ mark := by
    rintro rfl
    exact not_mem_of_mem_splitOnChar h hc
  exact List.mem_of_ne_of_mem hne hmem

theorem mem_of_mem_words {cs word : List Char} (h : word ∈ words cs) {c : Char} (hc : c ∈ word) :
    c ∈ cs := by
  have hpiece := List.mem_of_mem_filter h
  have hspace : c ≠ ' ' := fun hspace => not_mem_of_mem_splitOnChar hpiece (hspace ▸ hc)
  obtain ⟨d, hd, hmapped⟩ := List.mem_map.mp (mem_of_mem_splitOnChar hpiece hc)
  split at hmapped
  · exact absurd hmapped.symm hspace
  · exact hmapped ▸ hd

theorem words_append_blank {c : Char} (hc : isBlank c = true) (left right : List Char) :
    words (left ++ c :: right) = words left ++ words right := by
  rw [words, List.map_append, List.map_cons, if_pos hc, splitOnChar_append_mark, List.filter_append]
  rfl

theorem words_of_blank {cs : List Char} (h : ∀ c ∈ cs, isBlank c = true) : words cs = [] := by
  induction cs with
  | nil => rfl
  | cons c rest ih =>
      have hsplit := words_append_blank (h c List.mem_cons_self) [] rest
      rw [List.nil_append, ih fun d hd => h d (List.mem_cons_of_mem _ hd)] at hsplit
      exact hsplit

theorem words_padded {before core after : List Char} (hbefore : ∀ c ∈ before, isBlank c = true)
    (hafter : ∀ c ∈ after, isBlank c = true) : words (before ++ core ++ after) = words core := by
  have hstart : words (before ++ core) = words core := by
    induction before with
    | nil => rfl
    | cons c before ih =>
        have hsplit := words_append_blank (hbefore c List.mem_cons_self) [] (before ++ core)
        rw [List.nil_append, ih fun d hd => hbefore d (List.mem_cons_of_mem _ hd)] at hsplit
        exact hsplit
  cases after with
  | nil => rw [List.append_nil, hstart]
  | cons c after =>
      rw [words_append_blank (hafter c List.mem_cons_self), hstart,
        words_of_blank fun d hd => hafter d (List.mem_cons_of_mem _ hd), List.append_nil]

/-- Characters before the first blank belong to the first word. -/
theorem words_prefix {start : List Char} (hsome : start ≠ [])
    (h : ∀ c ∈ start, isBlank c = false) (rest : List Char) :
    ∃ piece more, words (start ++ rest) = (start ++ piece) :: more ∧
      words rest = [piece].filter (· ≠ []) ++ more := by
  have hkept : start.map (fun c => if isBlank c then ' ' else c) = start := by
    refine (List.map_congr_left fun c hc => ?_).trans (List.map_id' start)
    rw [h c hc]
    rfl
  have hspace : ' ' ∉ start := fun hmem => absurd (h ' ' hmem) (by decide)
  obtain ⟨piece, pieces, hrest, hsplit⟩ := splitOnChar_prefix hspace
    (rest.map fun c => if isBlank c then ' ' else c)
  refine ⟨piece, pieces.filter (· ≠ []), ?_, ?_⟩
  · rw [words, List.map_append, hkept, hsplit, List.filter_cons_of_pos (by simp [hsome])]
  · rw [words, hrest, ← List.filter_append, List.singleton_append]

theorem words_eq_singleton {cs : List Char} (hsome : cs ≠ []) (h : ∀ c ∈ cs, isBlank c = false) :
    words cs = [cs] := by
  obtain ⟨piece, more, hwords, hnone⟩ := words_prefix hsome h []
  obtain ⟨hpiece, rfl⟩ := List.append_eq_nil_iff.mp (hnone.symm.trans (by rfl))
  obtain rfl : piece = [] := by simpa using hpiece
  simpa using hwords

theorem upper_eq_self {s : String} (h : ∀ c ∈ s.toList, upperChar c = [c]) : upper s = s := by
  have hkept : s.toList.flatMap upperChar = s.toList := by
    rw [List.flatMap_congr h, List.flatMap_singleton']
  rw [upper, hkept, String.ofList_toList]

theorem upperChar_of_isDigit {c : Char} (h : c.isDigit = true) : upperChar c = [c] := by
  obtain ⟨hfirst, hlast⟩ := toNat_of_isDigit h
  have hcapital : ¬ ('a'.val ≤ c.val ∧ c.val ≤ 'z'.val) := by
    rintro ⟨ha, -⟩
    have : 97 ≤ c.toNat := ha
    omega
  have hkept : c.toUpper = c := dif_neg hcapital
  rw [upperChar, if_pos (by omega), hkept]

theorem digitValue?_of_isDigit {c : Char} (h : c.isDigit = true) :
    digitValue? c = some (c.toNat - 48) := by
  obtain ⟨hfirst, hlast⟩ := toNat_of_isDigit h
  have hzeros : digitZeros = 48 :: digitZeros.tail := rfl
  rw [digitValue?, hzeros, List.find?_cons_of_pos (by simp; omega)]
  rfl

end Rostering.Text

namespace Rostering

open Text

theorem joinDigitGroups_eq_self {cs : List Char} (h : '_' ∉ cs) (before : Option Char) :
    joinDigitGroups before cs = some cs := by
  induction cs generalizing before with
  | nil => rw [joinDigitGroups]
  | cons c rest ih =>
      obtain ⟨hc, hrest⟩ := not_or.mp (List.mem_cons.not.mp h)
      rw [joinDigitGroups, ih hrest]
      · rfl
      · exact Ne.symm hc

theorem naturalOfChars?_of_isDigit {cs : List Char} (hsome : cs ≠ [])
    (h : ∀ c ∈ cs, c.isDigit = true) : naturalOfChars? cs = some (Nat.ofDigitChars 10 cs 0) := by
  have hvalues : cs.mapM digitValue? = some (cs.map fun c => c.toNat - 48) := by
    clear hsome
    induction cs with
    | nil => rfl
    | cons c rest ih =>
        rw [List.mapM_cons, digitValue?_of_isDigit (h c List.mem_cons_self),
          ih fun c hc => h c (List.mem_cons_of_mem _ hc)]
        rfl
  rw [naturalOfChars?, digitValues?, if_neg hsome, hvalues, Option.map_some, ofDigits,
    List.foldl_map]
  rfl

theorem takeSign_of_isDigit {cs : List Char} (h : ∀ c ∈ cs, c.isDigit = true) :
    takeSign cs = (false, cs) := by
  unfold takeSign
  split
  · exact absurd (h '-' List.mem_cons_self) (by decide)
  · exact absurd (h '+' List.mem_cons_self) (by decide)
  · rfl

theorem isDigit_of_mem_toString {n : Nat} {c : Char} (h : c ∈ (toString n).toList) :
    c.isDigit = true := by
  rw [Nat.toString_eq_repr, Nat.toList_repr] at h
  exact Nat.isDigit_of_mem_toDigits (by decide) (by decide) h

theorem toList_toString_ne_nil (n : Nat) : (toString n).toList ≠ [] := by
  rw [Nat.toString_eq_repr, Nat.toList_repr]
  exact Nat.toDigits_ne_nil

theorem naturalOfChars?_toString (n : Nat) : naturalOfChars? (toString n).toList = some n := by
  rw [naturalOfChars?_of_isDigit (toList_toString_ne_nil n) fun c => isDigit_of_mem_toString,
    Nat.toString_eq_repr, Nat.toList_repr, Nat.ofDigitChars_ten_toDigits]

theorem integerOfText?_toString (n : Nat) : integerOfText? (toString n) = some (n : Int) := by
  have hdigits : ∀ c ∈ (toString n).toList, c.isDigit = true := fun c => isDigit_of_mem_toString
  have hmark : '_' ∉ (toString n).toList := fun h => absurd (hdigits _ h) (by decide)
  rw [integerOfText?, trimList_eq_self fun c hc => isBlank_eq_false_of_isDigit (hdigits c hc),
    joinDigitGroups_eq_self hmark, Option.bind_some, integerOfChars?, takeSign_of_isDigit hdigits]
  simp only
  rw [naturalOfChars?_toString]
  rfl

end Rostering
