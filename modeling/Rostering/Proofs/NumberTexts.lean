import Rostering.Proofs.LetterCase
import Rostering.Proofs.Texts
import Mathlib.Data.List.Forall2

namespace Rostering

open Text

/-! How numbers are spelled: digits of any script with single underscores between them, a point
among the digits, an exponent after them and a sign before, or one of the words. Reading accepts
exactly these spellings, and gives the double nearest to what they spell. -/

inductive Spelling where
  | decimal (negative : Bool) (value : Decimal)
  | unbounded (negative : Bool)
  | notANumber

namespace Spelling

def nearest : Spelling → Binary64
  | decimal negative value => value.toBinary64 negative
  | unbounded negative => .infinite negative
  | notANumber => .nan

inductive Signed : List Char → Bool → List Char → Prop
  | bare (cs : List Char) : Signed cs false cs
  | plus (cs : List Char) : Signed ('+' :: cs) false cs
  | minus (cs : List Char) : Signed ('-' :: cs) true cs

inductive Whole : List Char → Nat → Prop
  | digits {cs : List Char} {digits : List Nat} (hsome : cs ≠ [])
      (hdigits : List.Forall₂ (fun c digit => digitValue? c = some digit) cs digits) :
      Whole cs (ofDigits digits)

inductive Exponent : List Char → Int → Prop
  | above {cs rest : List Char} {n : Nat} (hsign : Signed cs false rest) (hwhole : Whole rest n) :
      Exponent cs n
  | below {cs rest : List Char} {n : Nat} (hsign : Signed cs true rest) (hwhole : Whole rest n) :
      Exponent cs (-n)

inductive Mantissa : List Char → Nat → Nat → Prop
  | whole {cs : List Char} {n : Nat} (hwhole : Whole cs n) : Mantissa cs n 0
  | pointed {whole places : List Char} {n : Nat} (hwhole : Whole (whole ++ places) n) :
      Mantissa (whole ++ '.' :: places) n places.length

inductive Scaled : List Char → Decimal → Prop
  | plain {cs : List Char} {n places : Nat} (hdigits : Mantissa cs n places) :
      Scaled cs ⟨n, -places⟩
  | exponent {cs power : List Char} {n places : Nat} {e : Int} {mark : Char}
      (hdigits : Mantissa cs n places) (hmark : mark = 'e' ∨ mark = 'E')
      (hpower : Exponent power e) : Scaled (cs ++ mark :: power) ⟨n, e - places⟩

inductive Unsigned (negative : Bool) : List Char → Spelling → Prop
  | decimal {cs : List Char} {value : Decimal} (hscaled : Scaled cs value) :
      Unsigned negative cs (.decimal negative value)
  | unbounded {cs : List Char}
      (hword : lower (String.ofList cs) = "inf" ∨ lower (String.ofList cs) = "infinity") :
      Unsigned negative cs (.unbounded negative)
  | notANumber {cs : List Char} (hword : lower (String.ofList cs) = "nan") :
      Unsigned negative cs .notANumber

/-- The characters of a text less its underscores, each of which stands between two digits. -/
structure Ungrouped (cs plain : List Char) : Prop where
  eq_filter : plain = cs.filter (· ≠ '_')
  between : ∀ left right, cs = left ++ '_' :: right →
    (left.getLast?.bind digitValue?).isSome ∧ (right.head?.bind digitValue?).isSome

end Spelling

open Spelling in
/-- What a text spells as a number, blanks around it aside. -/
def Spells (s : String) (spelling : Spelling) : Prop :=
  ∃ plain negative rest, Ungrouped (trimList s.toList) plain ∧ Signed plain negative rest ∧
    Unsigned negative rest spelling

namespace Spelling

theorem Whole.digit_of_mem {cs : List Char} {n : Nat} (h : Whole cs n) {c : Char} (hc : c ∈ cs) :
    (digitValue? c).isSome := by
  obtain ⟨-, hdigits⟩ := h
  induction hdigits with
  | nil => simp at hc
  | cons hdigit _ ih =>
      rcases List.mem_cons.mp hc with rfl | hc
      · simp [hdigit]
      · exact ih hc

theorem Mantissa.digit_of_mem {cs : List Char} {n places : Nat} (h : Mantissa cs n places)
    {c : Char} (hc : c ∈ cs) : c = '.' ∨ (digitValue? c).isSome := by
  cases h with
  | whole hwhole => exact .inr (hwhole.digit_of_mem hc)
  | pointed hwhole =>
      rcases List.mem_append.mp hc with hc | hc
      · exact .inr (hwhole.digit_of_mem (List.mem_append_left _ hc))
      · rcases List.mem_cons.mp hc with hc | hc
        · exact .inl hc
        · exact .inr (hwhole.digit_of_mem (List.mem_append_right _ hc))

theorem Mantissa.ne_nil {cs : List Char} {n places : Nat} (h : Mantissa cs n places) : cs ≠ [] := by
  cases h with
  | whole hwhole =>
      obtain ⟨hsome, -⟩ := hwhole
      exact hsome
  | pointed _ => simp

theorem Scaled.head {cs : List Char} {value : Decimal} (h : Scaled cs value) :
    ∃ c rest, cs = c :: rest ∧ (c = '.' ∨ (digitValue? c).isSome) := by
  obtain ⟨hdigits⟩ | ⟨hdigits, -, -⟩ := h
  all_goals
    obtain ⟨c, rest, rfl⟩ := List.exists_cons_of_ne_nil hdigits.ne_nil
    exact ⟨c, _, rfl, hdigits.digit_of_mem List.mem_cons_self⟩

theorem Scaled.lower_ne {cs : List Char} {value : Decimal} (h : Scaled cs value) {word : String}
    {letter : Char} (hstart : word.toList.head? = some letter) (hpoint : letter ≠ '.')
    (hdigit : digitValue? letter = none) : lower (String.ofList cs) ≠ word := by
  intro hword
  obtain ⟨c, rest, rfl, hc⟩ := h.head
  have hkept : lowerChar c = [c] := by
    rcases hc with rfl | hc
    · decide
    · exact lowerChar_of_digit hc
  have hsigma : c ≠ '\u03A3' := by
    rintro rfl
    exact absurd hc (by decide)
  obtain rfl : c = letter :=
    Option.some.inj ((head_of_lower hsigma hkept hword).symm.trans hstart)
  simp [hpoint, hdigit] at hc

theorem Unsigned.head_ne {negative : Bool} {cs : List Char} {spelling : Spelling}
    (h : Unsigned negative cs spelling) {sign : Char} (hsign : sign = '+' ∨ sign = '-') :
    cs.head? ≠ some sign := by
  intro hhead
  obtain ⟨rest, rfl⟩ := List.head?_eq_some_iff.mp hhead
  have hkept : sign ≠ '\u03A3' ∧ lowerChar sign = [sign] := by
    rcases hsign with rfl | rfl <;> decide
  have hstart {word : String} (hword : lower (String.ofList (sign :: rest)) = word) :
      word.toList.head? = some sign := head_of_lower hkept.1 hkept.2 hword
  cases h with
  | decimal hscaled =>
      obtain ⟨c, _, ⟨⟩, hc⟩ := hscaled.head
      rcases hsign with rfl | rfl <;> exact absurd hc (by decide)
  | unbounded hword =>
      rcases hword with hword | hword <;>
        rcases hsign with rfl | rfl <;> exact absurd (hstart hword) (by decide)
  | notANumber hword =>
      rcases hsign with rfl | rfl <;> exact absurd (hstart hword) (by decide)

end Spelling

/-! Reading, one function after the other. -/

theorem forall_cons_eq_append {c mark : Char} {rest : List Char}
    {P : List Char → List Char → Prop} :
    (∀ left right, c :: rest = left ++ mark :: right → P left right) ↔
      (c = mark → P [] rest) ∧
        ∀ left right, rest = left ++ mark :: right → P (c :: left) right := by
  constructor
  · intro h
    exact ⟨fun hc => h [] rest (by rw [hc, List.nil_append]),
      fun left right hrest => h (c :: left) right (by rw [hrest, List.cons_append])⟩
  · rintro ⟨hhead, htail⟩ left right hsplit
    rcases List.cons_eq_append_iff.mp hsplit with ⟨rfl, hcons⟩ | ⟨left, rfl, hrest⟩
    · obtain ⟨hc, rfl⟩ := List.cons.inj hcons
      exact hhead hc.symm
    · exact htail left right hrest

theorem joinDigitGroups_eq_some_iff {before : Option Char} {cs plain : List Char} :
    joinDigitGroups before cs = some plain ↔ plain = cs.filter (· ≠ '_') ∧
      ∀ left right, cs = left ++ '_' :: right →
        ((left.getLast?.or before).bind digitValue?).isSome ∧
          (right.head?.bind digitValue?).isSome := by
  have hmark : digitValue? '_' = none := by decide
  -- What stands before a place further on is the last character up to it, or the first one.
  have hlast : ∀ (c : Char) (left : List Char),
      (c :: left).getLast? = left.getLast?.or (some c) := by
    intro c left
    rw [List.getLast?_cons]
    cases left.getLast? <;> rfl
  induction cs generalizing before plain with
  | nil =>
      rw [joinDigitGroups, Option.some.injEq]
      exact ⟨fun h => ⟨h.symm, by simp⟩, fun h => h.1.symm⟩
  | cons c rest ih =>
      rw [forall_cons_eq_append]
      simp only [hlast, Option.or_assoc, Option.some_or]
      by_cases hc : c = '_'
      · subst hc
        have hnone : ∀ left : List Char,
            (left.getLast?.or (some '_')).bind digitValue? =
              (left.getLast?.or none).bind digitValue? := by
          intro left
          cases left.getLast? <;> simp [hmark]
        simp only [hnone]
        cases hbefore : before.bind digitValue? <;> cases hafter : rest.head?.bind digitValue?
        all_goals simp [joinDigitGroups, hbefore, hafter, ih]
      · rw [joinDigitGroups, Option.map_eq_some_iff, List.filter_cons_of_pos (by simpa using hc)]
        · simp only [ih, hc, false_implies, true_and]
          constructor
          · rintro ⟨tail, ⟨rfl, hbetween⟩, rfl⟩
            exact ⟨rfl, hbetween⟩
          · rintro ⟨rfl, hbetween⟩
            exact ⟨_, ⟨rfl, hbetween⟩, rfl⟩
        · exact hc

theorem joinDigitGroups_none_eq_some_iff {cs plain : List Char} :
    joinDigitGroups none cs = some plain ↔ Spelling.Ungrouped cs plain := by
  rw [joinDigitGroups_eq_some_iff]
  simp only [Option.or_none]
  exact ⟨fun h => ⟨h.1, h.2⟩, fun h => ⟨h.eq_filter, h.between⟩⟩

theorem mapM_eq_some_iff {f : α → Option β} {xs : List α} {ys : List β} :
    xs.mapM f = some ys ↔ List.Forall₂ (fun x y => f x = some y) xs ys := by
  induction xs generalizing ys with
  | nil => cases ys <;> simp
  | cons x rest ih =>
      rw [List.mapM_cons]
      cases ys <;> simp [Option.bind_eq_some_iff, ih]

theorem naturalOfChars?_eq_some_iff {cs : List Char} {n : Nat} :
    naturalOfChars? cs = some n ↔ Spelling.Whole cs n := by
  simp only [naturalOfChars?, digitValues?, Option.map_eq_some_iff]
  constructor
  · rintro ⟨digits, hdigits, rfl⟩
    split at hdigits
    · simp at hdigits
    · next hsome => exact .digits hsome (mapM_eq_some_iff.mp hdigits)
  · rintro ⟨hsome, hdigits⟩
    exact ⟨_, by rw [if_neg hsome, mapM_eq_some_iff.mpr hdigits], rfl⟩

theorem signed_takeSign (cs : List Char) :
    Spelling.Signed cs (takeSign cs).1 (takeSign cs).2 := by
  unfold takeSign
  split
  · exact .minus _
  · exact .plus _
  · exact .bare _

/-- A sign is taken off where no second one follows. -/
theorem takeSign_of_signed {cs rest : List Char} {negative : Bool}
    (h : Spelling.Signed cs negative rest)
    (hrest : ∀ sign, sign = '+' ∨ sign = '-' → rest.head? ≠ some sign) :
    takeSign cs = (negative, rest) := by
  cases h with
  | plus => rfl
  | minus => rfl
  | bare =>
      unfold takeSign
      split
      · exact absurd rfl (hrest '-' (.inr rfl))
      · exact absurd rfl (hrest '+' (.inl rfl))
      · rfl

theorem integerOfChars?_eq_some_iff {cs : List Char} {e : Int} :
    integerOfChars? cs = some e ↔ Spelling.Exponent cs e := by
  have hunsigned {rest : List Char} {n : Nat} (hwhole : Spelling.Whole rest n) :
      ∀ sign, sign = '+' ∨ sign = '-' → rest.head? ≠ some sign := by
    intro sign hsign hhead
    have hdigit := hwhole.digit_of_mem (List.mem_of_mem_head? hhead)
    rcases hsign with rfl | rfl <;> exact absurd hdigit (by decide)
  constructor
  · intro h
    have hsign := signed_takeSign cs
    rw [integerOfChars?] at h
    split at h
    · next rest htake =>
        rw [htake] at hsign
        cases hwhole : naturalOfChars? rest with
        | none => simp [hwhole] at h
        | some n =>
            obtain rfl : -(n : Int) = e := by simpa [hwhole] using h
            exact .below hsign (naturalOfChars?_eq_some_iff.mp hwhole)
    · next rest htake =>
        rw [htake] at hsign
        obtain ⟨n, hwhole, rfl⟩ := Option.map_eq_some_iff.mp h
        exact .above hsign (naturalOfChars?_eq_some_iff.mp hwhole)
  · rintro (⟨hsign, hwhole⟩ | ⟨hsign, hwhole⟩)
    all_goals
      rw [integerOfChars?, takeSign_of_signed hsign (hunsigned hwhole)]
      simp only
      rw [naturalOfChars?_eq_some_iff.mpr hwhole]
      rfl

theorem splitAtFirst_of_not {test : Char → Bool} {cs : List Char}
    (h : ∀ c ∈ cs, test c = false) : splitAtFirst test cs = (cs, none) := by
  have hnone : cs.dropWhile (fun c => !test c) = [] :=
    List.dropWhile_eq_nil_iff.mpr fun c hc => by simp [h c hc]
  rw [splitAtFirst, hnone]

theorem splitAtFirst_append {test : Char → Bool} {before after : List Char} {mark : Char}
    (h : ∀ c ∈ before, test c = false) (hmark : test mark = true) :
    splitAtFirst test (before ++ mark :: after) = (before, some after) := by
  have hkept : ∀ c ∈ before, (!test c) = true := fun c hc => by simp [h c hc]
  rw [splitAtFirst, List.dropWhile_append_of_pos hkept, List.takeWhile_append_of_pos hkept,
    List.dropWhile_cons_of_neg (by simp [hmark]), List.takeWhile_cons_of_neg (by simp [hmark])]
  simp

theorem exists_first (test : Char → Bool) (cs : List Char) :
    (∀ c ∈ cs, test c = false) ∨ ∃ before mark after, cs = before ++ mark :: after ∧
      test mark = true ∧ ∀ c ∈ before, test c = false := by
  induction cs with
  | nil => exact .inl (by simp)
  | cons c rest ih =>
      cases hc : test c with
      | true => exact .inr ⟨[], c, rest, rfl, hc, by simp⟩
      | false =>
          rcases ih with hnone | ⟨before, mark, after, rfl, hmark, hbefore⟩
          · exact .inl (by simpa [hc] using hnone)
          · exact .inr ⟨c :: before, mark, after, rfl, hmark, by simpa [hc] using hbefore⟩

theorem mantissa?_eq_some_iff {cs : List Char} {n places : Nat} :
    mantissa? cs = some (n, places) ↔ Spelling.Mantissa cs n places := by
  have hpoint {digits : List Char} (hwhole : Spelling.Whole digits n) :
      ∀ c ∈ digits, (c == '.') = false := by
    intro c hc
    rw [beq_eq_false_iff_ne]
    rintro rfl
    exact absurd (hwhole.digit_of_mem hc) (by decide)
  constructor
  · intro h
    rcases exists_first (· == '.') cs with hnone | ⟨whole, mark, after, rfl, hmark, hbefore⟩
    · rw [mantissa?, splitAtFirst_of_not hnone] at h
      obtain ⟨m, hwhole, heq⟩ := Option.map_eq_some_iff.mp h
      obtain ⟨rfl, rfl⟩ := Prod.mk.inj heq
      exact .whole (naturalOfChars?_eq_some_iff.mp hwhole)
    · rw [mantissa?, splitAtFirst_append hbefore hmark] at h
      obtain ⟨m, hwhole, heq⟩ := Option.map_eq_some_iff.mp h
      obtain ⟨rfl, rfl⟩ := Prod.mk.inj heq
      obtain rfl := eq_of_beq hmark
      exact .pointed (naturalOfChars?_eq_some_iff.mp hwhole)
  · rintro (hwhole | hwhole)
    · rw [mantissa?, splitAtFirst_of_not (hpoint hwhole)]
      simp [naturalOfChars?_eq_some_iff.mpr hwhole]
    · rw [mantissa?, splitAtFirst_append
        (fun c hc => hpoint hwhole c (List.mem_append_left _ hc)) (beq_self_eq_true '.')]
      simp [naturalOfChars?_eq_some_iff.mpr hwhole]

theorem unsignedReal?_of_scaled {negative : Bool} {cs : List Char} {value : Decimal}
    (h : Spelling.Scaled cs value) :
    unsignedReal? negative cs = some (value.toBinary64 negative) := by
  have hinf : lower (String.ofList cs) ≠ "inf" :=
    h.lower_ne (by decide : _ = some 'i') (by decide) (by decide)
  have hinfinity : lower (String.ofList cs) ≠ "infinity" :=
    h.lower_ne (by decide : _ = some 'i') (by decide) (by decide)
  have hnan : lower (String.ofList cs) ≠ "nan" :=
    h.lower_ne (by decide : _ = some 'n') (by decide) (by decide)
  have hmarks {digits : List Char} {n places : Nat} (hdigits : Spelling.Mantissa digits n places) :
      ∀ c ∈ digits, (c == 'e' || c == 'E') = false := by
    intro c hc
    have hdigit := hdigits.digit_of_mem hc
    rw [Bool.or_eq_false_iff, beq_eq_false_iff_ne, beq_eq_false_iff_ne]
    constructor <;> rintro rfl <;> exact absurd hdigit (by decide)
  simp only [unsignedReal?, beq_iff_eq, hinf, hinfinity, hnan, Bool.or_eq_true, or_self, if_false]
  cases h with
  | plain hdigits =>
      rw [splitAtFirst_of_not (hmarks hdigits)]
      simp [mantissa?_eq_some_iff.mpr hdigits]
  | exponent hdigits hmark hpower =>
      rw [splitAtFirst_append (hmarks hdigits) (by rcases hmark with rfl | rfl <;> rfl)]
      simp [mantissa?_eq_some_iff.mpr hdigits, integerOfChars?_eq_some_iff.mpr hpower]

theorem unsignedReal?_eq_some_iff {negative : Bool} {cs : List Char} {x : Binary64} :
    unsignedReal? negative cs = some x ↔
      ∃ spelling, Spelling.Unsigned negative cs spelling ∧ spelling.nearest = x := by
  constructor
  · intro h
    simp only [unsignedReal?, beq_iff_eq, Bool.or_eq_true] at h
    split at h
    · next hword => exact ⟨_, .unbounded hword, Option.some.inj h⟩
    · split at h
      · next hword => exact ⟨_, .notANumber hword, Option.some.inj h⟩
      · rcases exists_first (fun c => c == 'e' || c == 'E') cs with
          hnone | ⟨digits, mark, power, rfl, hmark, hbefore⟩
        · rw [splitAtFirst_of_not hnone] at h
          obtain ⟨⟨n, places⟩, hdigits, hvalue⟩ := Option.map_eq_some_iff.mp h
          exact ⟨_, .decimal (.plain (mantissa?_eq_some_iff.mp hdigits)), hvalue⟩
        · rw [splitAtFirst_append hbefore hmark] at h
          simp only [bind, Option.bind_eq_some_iff] at h
          obtain ⟨⟨n, places⟩, hdigits, e, hpower, hvalue⟩ := h
          have hmark : mark = 'e' ∨ mark = 'E' := by simpa using hmark
          exact ⟨_, .decimal (.exponent (mantissa?_eq_some_iff.mp hdigits) hmark
            (integerOfChars?_eq_some_iff.mp hpower)), Option.some.inj hvalue⟩
  · rintro ⟨spelling, hunsigned, rfl⟩
    cases hunsigned with
    | decimal hscaled => exact unsignedReal?_of_scaled hscaled
    | unbounded hword =>
        rcases hword with hword | hword <;> simp [unsignedReal?, hword, Spelling.nearest]
    | notANumber hword => simp [unsignedReal?, hword, Spelling.nearest]

theorem realOfText?_eq_some_iff {s : String} {x : Binary64} :
    realOfText? s = some x ↔ ∃ spelling, Spells s spelling ∧ spelling.nearest = x := by
  simp only [realOfText?, Option.bind_eq_some_iff, joinDigitGroups_none_eq_some_iff, realOfChars?,
    unsignedReal?_eq_some_iff]
  constructor
  · rintro ⟨plain, hplain, spelling, hunsigned, hnearest⟩
    exact ⟨spelling, ⟨plain, _, _, hplain, signed_takeSign plain, hunsigned⟩, hnearest⟩
  · rintro ⟨spelling, ⟨plain, negative, rest, hplain, hsigned, hunsigned⟩, hnearest⟩
    refine ⟨plain, hplain, spelling, ?_, hnearest⟩
    rwa [takeSign_of_signed hsigned fun sign => hunsigned.head_ne]

end Rostering
