import Rostering.Text.Blank
import Rostering.Text.Case
import Rostering.Text.Digit
import Mathlib.Data.List.Basic

namespace Rostering.Text

/-! Characters without case: digits and blanks are their own small and capital forms. What stands
before a capital text can be taken off before its letters are made capitals. -/

def Inside (ranges : List (Nat × Nat)) (code : Nat) : Prop :=
  ∃ range ∈ ranges, range.1 ≤ code ∧ code ≤ range.2

/-- No run and no spread of a case table reaches into the ranges. -/
def Caseless (runs : List CaseRun) (spreads : List (Nat × List Nat)) (ranges : List (Nat × Nat)) :
    Bool :=
  ranges.all fun range =>
    runs.all (fun run => range.2 < run.first || run.last < range.1) &&
      spreads.all fun entry => entry.1 < range.1 || range.2 < entry.1

section

variable {runs : List CaseRun} {spreads : List (Nat × List Nat)} {ranges : List (Nat × Nat)}
variable {c : Char} (hcaseless : Caseless runs spreads ranges = true)
  (hinside : Inside ranges c.toNat)
include hcaseless hinside

theorem not_mem_run {run : CaseRun} (hrun : run ∈ runs) :
    ¬ (run.first ≤ c.toNat ∧ c.toNat ≤ run.last) := by
  simp only [Caseless, List.all_eq_true, Bool.and_eq_true, Bool.or_eq_true,
    decide_eq_true_eq] at hcaseless
  obtain ⟨range, hrange, hbounds⟩ := hinside
  have := (hcaseless range hrange).1 run hrun
  omega

theorem mapCase_eq_self : mapCase runs spreads c = [c] := by
  have hruns : runs.find? (·.contains c.toNat) = none := by
    refine List.find?_eq_none.mpr fun run hrun hcontains => ?_
    simp only [CaseRun.contains, Bool.and_eq_true, decide_eq_true_eq] at hcontains
    exact not_mem_run hcaseless hinside hrun hcontains.1
  have hspreads : spreads.lookup c.toNat = none := by
    simp only [Caseless, List.all_eq_true, Bool.and_eq_true, Bool.or_eq_true,
      decide_eq_true_eq] at hcaseless
    obtain ⟨range, hrange, hbounds⟩ := hinside
    refine List.lookup_eq_none_iff.mpr fun entry hentry => ?_
    have := (hcaseless range hrange).2 entry hentry
    rw [bne_iff_ne]
    omega
  rw [mapCase, hspreads, hruns]

end

def digitRanges : List (Nat × Nat) := digitZeros.map fun first => (first, first + 9)

theorem caseless_digits : Caseless lowerRuns lowerSpreads digitRanges = true := by decide +kernel

theorem inside_of_digit {c : Char} (h : (digitValue? c).isSome) : Inside digitRanges c.toNat := by
  obtain ⟨digit, hdigit⟩ := Option.isSome_iff_exists.mp h
  obtain ⟨first, hfound, -⟩ := Option.map_eq_some_iff.mp hdigit
  have hbounds := List.find?_some hfound
  simp only [Bool.and_eq_true, decide_eq_true_eq] at hbounds
  exact ⟨(first, first + 9), List.mem_map.mpr ⟨first, List.mem_of_find?_eq_some hfound, rfl⟩,
    hbounds.1, by omega⟩

theorem lowerChar_of_digit {c : Char} (h : (digitValue? c).isSome) : lowerChar c = [c] := by
  have hinside := inside_of_digit h
  have hcapital : ¬ (65 ≤ c.toNat ∧ c.toNat ≤ 90) :=
    not_mem_run caseless_digits hinside List.mem_cons_self
  have hkept : c.toLower = c := dif_neg hcapital
  rw [lowerChar, mapCase_eq_self caseless_digits hinside, hkept, ite_self]

theorem head_of_lower {c : Char} {cs : List Char} {word : String} (hsigma : c ≠ '\u03A3')
    (hkept : lowerChar c = [c]) (hword : lower (String.ofList (c :: cs)) = word) :
    word.toList.head? = some c := by
  rw [← hword, lower, String.toList_ofList, String.toList_ofList, lowerFrom]
  simp [hsigma, hkept]

def blankRanges : List (Nat × Nat) :=
  [(0x9, 0xd), (0x1c, 0x20), (0x85, 0x85), (0xa0, 0xa0), (0x1680, 0x1680), (0x2000, 0x200a),
    (0x2028, 0x2028), (0x2029, 0x2029), (0x202f, 0x202f), (0x205f, 0x205f), (0x3000, 0x3000)]

theorem caseless_blanks : Caseless upperRuns upperSpreads blankRanges = true := by decide +kernel

theorem inside_of_isBlank {c : Char} (h : isBlank c = true) : Inside blankRanges c.toNat := by
  simp only [isBlank, Bool.or_eq_true, Bool.and_eq_true, decide_eq_true_eq, beq_iff_eq] at h
  simp only [Inside, blankRanges, List.exists_mem_cons_iff, List.not_mem_nil, false_and,
    exists_false]
  omega

theorem upperChar_of_isBlank {c : Char} (h : isBlank c = true) : upperChar c = [c] := by
  have hinside := inside_of_isBlank h
  have hsmall : ¬ (97 ≤ c.toNat ∧ c.toNat ≤ 122) :=
    not_mem_run caseless_blanks hinside List.mem_cons_self
  have hkept : c.toUpper = c := dif_neg hsmall
  rw [upperChar, mapCase_eq_self caseless_blanks hinside, hkept, ite_self]

theorem upperChar_cases (c : Char) :
    (∃ d, upperChar c = [d]) ∨ ∃ entry ∈ upperSpreads, upperChar c = entry.2.map Char.ofNat := by
  rw [upperChar]
  split
  · exact .inl ⟨_, rfl⟩
  · rw [mapCase]
    split
    · next codes hcodes =>
        obtain ⟨before, after, hsplit, -⟩ := List.lookup_eq_some_iff.mp hcodes
        exact .inr ⟨_, hsplit ▸ List.mem_append_right _ List.mem_cons_self, rfl⟩
    · split <;> exact .inl ⟨_, rfl⟩

def Unspread (letter : Char) : Bool :=
  upperSpreads.all fun entry => (entry.2.map Char.ofNat).head?.any (· != letter)

theorem upperChar_eq_singleton {c letter : Char} {more tail : List Char}
    (hletter : Unspread letter = true) (h : upperChar c ++ more = letter :: tail) :
    upperChar c = [letter] ∧ more = tail := by
  rcases upperChar_cases c with ⟨d, hd⟩ | ⟨entry, hentry, hspread⟩
  · rw [hd, List.singleton_append, List.cons.injEq] at h
    exact ⟨by rw [hd, h.1], h.2⟩
  · have hhead := List.all_eq_true.mp hletter entry hentry
    rw [← hspread] at hhead
    cases hupper : upperChar c with
    | nil => simp [hupper] at hhead
    | cons d rest =>
        rw [hupper, List.cons_append, List.cons.injEq] at h
        simp [hupper, h.1] at hhead

/-- A text whose capitals begin with some letters begins with their forms, one for each. -/
theorem flatMap_upperChar_split {cs letters rest : List Char}
    (hletters : letters.all Unspread = true) (h : cs.flatMap upperChar = letters ++ rest) :
    ∃ before after, cs = before ++ after ∧ before.map upperChar = letters.map ([·]) ∧
      after.flatMap upperChar = rest := by
  induction letters generalizing cs with
  | nil => exact ⟨[], cs, rfl, rfl, h⟩
  | cons letter letters ih =>
      rw [List.all_cons, Bool.and_eq_true] at hletters
      cases cs with
      | nil => simp at h
      | cons c cs =>
          rw [List.flatMap_cons] at h
          obtain ⟨hc, hcs⟩ := upperChar_eq_singleton hletters.1 h
          obtain ⟨before, after, rfl, hbefore, hafter⟩ := ih hletters.2 hcs
          exact ⟨c :: before, after, rfl, by rw [List.map_cons, List.map_cons, hc, hbefore], hafter⟩

theorem ofNat_ne_colon {n : Nat} (hn : 58 < n) : Char.ofNat n ≠ ':' := by
  intro h
  have hcolon : ':'.toNat = 58 := by decide
  have hcode : (Char.ofNat n).toNat = 58 := h ▸ hcolon
  by_cases hvalid : n.isValidChar
  · have hkept : (Char.ofNat n).toNat = n := congrArg Char.toNat (dif_pos hvalid)
    omega
  · have hnone : (Char.ofNat n).toNat = 0 := congrArg Char.toNat (dif_neg hvalid)
    omega

/-- Only the colon has the colon for its capital form: every run moves what it holds past it. -/
theorem eq_colon_of_upperChar {c : Char} (h : upperChar c = [':']) : c = ':' := by
  rw [upperChar] at h
  split at h
  · next hsmall =>
      have hupper : (List.range 128).all (fun n => (Char.ofNat n).toUpper != ':' || n == 58) =
          true := by decide +kernel
      have hcode := List.all_eq_true.mp hupper c.toNat (List.mem_range.mpr hsmall)
      rw [Char.ofNat_toNat, List.head_eq_of_cons_eq h] at hcode
      have hcolon : c.toNat = ':'.toNat := by simpa using hcode
      exact Char.toNat_inj.mp hcolon
  · have hruns : upperRuns.all (fun run => decide (58 < (run.first : Int) + run.shift)) = true := by
      decide +kernel
    have hspreads : upperSpreads.all (fun entry => entry.2.map Char.ofNat != [':']) = true := by
      decide +kernel
    rw [mapCase] at h
    split at h
    · next codes hcodes =>
        obtain ⟨before, after, hsplit, -⟩ := List.lookup_eq_some_iff.mp hcodes
        have hentry := List.all_eq_true.mp hspreads (c.toNat, codes)
          (hsplit ▸ List.mem_append_right _ List.mem_cons_self)
        simp [h] at hentry
    · split at h
      · next run hrun =>
          have hshift := of_decide_eq_true
            (List.all_eq_true.mp hruns run (List.mem_of_find?_eq_some hrun))
          have hbounds := List.find?_some hrun
          simp only [CaseRun.contains, Bool.and_eq_true, decide_eq_true_eq] at hbounds
          exact absurd (List.head_eq_of_cons_eq h) (ofNat_ne_colon (by omega))
      · exact List.head_eq_of_cons_eq h

end Rostering.Text
