import Rostering.Calendar.IsoText
import Rostering.Proofs.Periods
import Mathlib.Data.List.Lex
import Mathlib.Data.String.Basic
import Mathlib.Tactic.Ring

namespace Rostering

open Text Calendar

/-! Texts that state days in one form come in the order of the days. Their digits stand in the same
places, so that the first place where two of them differ decides between the days too. -/

namespace Text

theorem asciiDigit?_eq_some_iff {c : Char} {n : Nat} :
    asciiDigit? c = some n ↔ (48 ≤ c.toNat ∧ c.toNat ≤ 57) ∧ c.toNat - 48 = n := by
  have hzero : '0' ≤ c ↔ 48 ≤ c.toNat := Iff.rfl
  have hnine : c ≤ '9' ↔ c.toNat ≤ 57 := Iff.rfl
  simp only [asciiDigit?, hzero, hnine]
  split
  · next h =>
      rw [Option.some.injEq, and_iff_right h]
      rfl
  · next h => simp [h]

theorem asciiDigit?_lt_ten {c : Char} {n : Nat} (h : asciiDigit? c = some n) : n < 10 := by
  have := asciiDigit?_eq_some_iff.mp h
  omega

theorem asciiDigit?_lt {c e : Char} {n m : Nat} (hlt : c < e) (hn : asciiDigit? c = some n)
    (hm : asciiDigit? e = some m) : n < m := by
  have := asciiDigit?_eq_some_iff.mp hn
  have := asciiDigit?_eq_some_iff.mp hm
  have : c.toNat < e.toNat := hlt
  omega

/-- The shape of a text has a zero for each of its digits. -/
def blank (c : Char) : Char := if (asciiDigit? c).isSome then '0' else c

theorem isSome_asciiDigit?_blank (c : Char) :
    (asciiDigit? (blank c)).isSome = (asciiDigit? c).isSome := by
  rw [blank]
  split
  · next h => rw [h]; rfl
  · rfl

theorem isSome_asciiDigit?_of_blank_eq {c e : Char} (h : blank c = blank e) :
    (asciiDigit? c).isSome = (asciiDigit? e).isSome := by
  rw [← isSome_asciiDigit?_blank c, h, isSome_asciiDigit?_blank]

theorem eq_of_blank_eq {c e : Char} (h : blank c = blank e) (hnone : asciiDigit? c = none) :
    c = e := by
  have hother : (asciiDigit? e).isSome = false := by
    rw [← isSome_asciiDigit?_of_blank_eq h, hnone]
    rfl
  simpa [blank, hnone, hother] using h

/-- The number that the digits of a text make after others. -/
def numberFrom (start : Nat) (cs : List Char) : Nat :=
  (cs.filterMap asciiDigit?).foldl (fun number digit => 10 * number + digit) start

abbrev numberOf (cs : List Char) : Nat := numberFrom 0 cs

@[simp] theorem numberFrom_nil (start : Nat) : numberFrom start [] = start := rfl

theorem numberFrom_cons (start : Nat) (c : Char) (cs : List Char) :
    numberFrom start (c :: cs) =
      numberFrom (((asciiDigit? c).map fun digit => 10 * start + digit).getD start) cs := by
  cases h : asciiDigit? c <;> simp [numberFrom, h]

theorem numberFrom_append (start : Nat) (cs es : List Char) :
    numberFrom start (cs ++ es) = numberFrom (numberFrom start cs) es := by
  rw [numberFrom, List.filterMap_append, List.foldl_append]
  rfl

theorem numberFrom_lt_of_lt {cs es : List Char} (hshape : cs.map blank = es.map blank) {n m : Nat}
    (hlt : n < m) : numberFrom n cs < numberFrom m es := by
  induction cs generalizing es n m with
  | nil =>
      obtain rfl := List.map_eq_nil_iff.mp hshape.symm
      exact hlt
  | cons c cs ih =>
      obtain ⟨e, es, rfl, hhead, htail⟩ := List.map_eq_cons_iff.mp hshape.symm
      rw [numberFrom_cons, numberFrom_cons]
      refine ih htail.symm ?_
      have hdigits := isSome_asciiDigit?_of_blank_eq hhead
      cases hc : asciiDigit? c <;> cases he : asciiDigit? e <;> simp only [hc, he] at hdigits
      case none.none => exact hlt
      case some.some d _ =>
        have := asciiDigit?_lt_ten hc
        simp only [Option.map_some, Option.getD_some]
        omega
      all_goals cases hdigits

/-- Of two texts of one shape, the one that comes first makes the smaller number. -/
theorem numberFrom_lt {cs es : List Char} (hshape : cs.map blank = es.map blank) (hlt : cs < es)
    (start : Nat) : numberFrom start cs < numberFrom start es := by
  induction cs generalizing es start with
  | nil =>
      obtain rfl := List.map_eq_nil_iff.mp hshape.symm
      exact absurd hlt (List.not_lt_nil _)
  | cons c cs ih =>
      obtain ⟨e, es, rfl, hhead, htail⟩ := List.map_eq_cons_iff.mp hshape.symm
      rw [numberFrom_cons, numberFrom_cons]
      -- The first place where the texts differ holds a digit of both.
      rcases List.cons_lt_cons_iff.mp hlt with hfirst | ⟨rfl, hrest⟩
      · refine numberFrom_lt_of_lt htail.symm ?_
        have hdigits := isSome_asciiDigit?_of_blank_eq hhead
        cases hc : asciiDigit? c with
        | none => exact absurd (eq_of_blank_eq hhead.symm hc) (ne_of_lt hfirst)
        | some d =>
            obtain ⟨d', he⟩ := Option.isSome_iff_exists.mp (hdigits.trans (by rw [hc]; rfl))
            have := asciiDigit?_lt hfirst hc he
            simp only [he, Option.map_some, Option.getD_some]
            omega
      · exact ih htail.symm hrest _

def Digits (count : Nat) (cs : List Char) : Prop := cs.map blank = List.replicate count '0'

theorem Digits.length_eq {count : Nat} {cs : List Char} (h : Digits count cs) :
    cs.length = count := by
  simpa using congrArg List.length h

theorem Digits.exists_digit {count : Nat} {cs : List Char} (h : Digits count cs) {c : Char}
    (hc : c ∈ cs) : ∃ d, asciiDigit? c = some d := by
  have hzero : blank c = '0' := List.eq_of_mem_replicate (h ▸ List.mem_map_of_mem hc)
  refine Option.isSome_iff_exists.mp ?_
  rw [← isSome_asciiDigit?_blank, hzero]
  rfl

theorem Digits.tail {count : Nat} {c : Char} {cs : List Char} (h : Digits (count + 1) (c :: cs)) :
    Digits count cs :=
  (List.cons.inj h).2

theorem Digits.numberFrom_eq {count : Nat} {cs : List Char} (h : Digits count cs) (start : Nat) :
    numberFrom start cs = start * 10 ^ count + numberOf cs := by
  induction cs generalizing count start with
  | nil =>
      obtain rfl := h.length_eq
      simp
  | cons c cs ih =>
      obtain rfl : cs.length + 1 = count := h.length_eq
      obtain ⟨d, hd⟩ := h.exists_digit List.mem_cons_self
      simp only [numberOf, numberFrom_cons, hd, Option.map_some, Option.getD_some]
      rw [ih h.tail, ih h.tail (10 * 0 + d), Nat.pow_succ]
      ring

theorem Digits.numberOf_lt {count : Nat} {cs : List Char} (h : Digits count cs) :
    numberOf cs < 10 ^ count := by
  induction cs generalizing count with
  | nil =>
      obtain rfl := h.length_eq
      exact Nat.one_pos
  | cons c cs ih =>
      obtain rfl : cs.length + 1 = count := h.length_eq
      obtain ⟨d, hd⟩ := h.exists_digit List.mem_cons_self
      have hlt := asciiDigit?_lt_ten hd
      have hrest := ih h.tail
      simp only [numberOf, numberFrom_cons, hd, Option.map_some, Option.getD_some]
      rw [h.tail.numberFrom_eq, Nat.mul_zero, Nat.zero_add]
      calc d * 10 ^ cs.length + numberOf cs < (d + 1) * 10 ^ cs.length := by
            rw [Nat.succ_mul]
            omega
        _ ≤ 10 * 10 ^ cs.length := Nat.mul_le_mul_right _ hlt
        _ = 10 ^ (cs.length + 1) := by rw [Nat.pow_succ, Nat.mul_comm]

theorem Digits.asciiNumber?_eq {count : Nat} {cs : List Char} (h : Digits count cs) :
    asciiNumber? cs = some (numberOf cs) := by
  have hdigits : ∀ es : List Char, (∀ c ∈ es, ∃ d, asciiDigit? c = some d) →
      es.mapM asciiDigit? = some (es.filterMap asciiDigit?) := by
    intro es hes
    induction es with
    | nil => rfl
    | cons e es ih =>
        obtain ⟨d, hd⟩ := hes e List.mem_cons_self
        simp [List.mapM_cons, hd, ih fun c hc => hes c (List.mem_cons_of_mem _ hc)]
  rw [asciiNumber?, hdigits cs fun c hc => h.exists_digit hc]
  rfl

theorem Digits.takeNumber?_append {count : Nat} {cs : List Char} (h : Digits count cs)
    (rest : List Char) : takeNumber? count (cs ++ rest) = some (numberOf cs, rest) := by
  rw [takeNumber?, List.take_left' h.length_eq, List.drop_left' h.length_eq, if_pos h.length_eq,
    h.asciiNumber?_eq]
  rfl

def dash (dashed : Bool) : List Char := if dashed then ['-'] else []

@[simp] theorem takeDash?_dash (dashed : Bool) (rest : List Char) :
    takeDash? dashed (dash dashed ++ rest) = some rest := by
  cases dashed <;> rfl

@[simp] theorem numberFrom_dash (start : Nat) (dashed : Bool) :
    numberFrom start (dash dashed) = start := by
  cases dashed <;> rfl

theorem numberFrom_mark (start : Nat) (rest : List Char) :
    numberFrom start ('W' :: rest) = numberFrom start rest := rfl

end Text

namespace Day

/-- The order of the parts of days that are stated in one form. -/
def IsoParts.Before : IsoParts → IsoParts → Prop
  | .civil year month day, .civil year' month' day' =>
      year < year' ∨ year = year' ∧ (month < month' ∨ month = month' ∧ day < day')
  | .week year nth weekday, .week year' nth' weekday' =>
      year < year' ∨ year = year' ∧ (nth < nth' ∨ nth = nth' ∧ weekday < weekday')
  | _, _ => False

variable {year month week day : List Char}

theorem head?_dash_append (dashed : Bool) {cs : List Char} (hcs : cs.head? ≠ some '-') :
    ((dash dashed ++ cs).head? == some '-') = dashed := by
  cases dashed
  case false => exact beq_eq_false_iff_ne.mpr hcs
  case true => rfl

theorem drop_dash_append (dashed : Bool) (cs : List Char) :
    (if dashed = true then (dash dashed ++ cs).drop 1 else dash dashed ++ cs) = cs := by
  cases dashed <;> rfl

theorem isoParts?_civil (dashed : Bool) (hyear : Digits 4 year) (hmonth : Digits 2 month)
    (hday : Digits 2 day) :
    isoParts? (year ++ (dash dashed ++ (month ++ (dash dashed ++ day)))) =
      some (.civil (numberOf year) (numberOf month) (numberOf day)) := by
  have hmonth' := hmonth.takeNumber?_append (dash dashed ++ day)
  have hday' := hday.takeNumber?_append []
  rw [List.append_nil] at hday'
  obtain ⟨c, rest, rfl⟩ := List.exists_cons_of_length_eq_add_one hmonth.length_eq
  obtain ⟨d, hd⟩ := hmonth.exists_digit List.mem_cons_self
  have hmark : (c :: rest ++ (dash dashed ++ day)).head? ≠ some '-' := by
    rintro ⟨⟩
    cases hd
  simp only [isoParts?, hyear.takeNumber?_append, Option.bind_eq_bind, Option.bind_some,
    head?_dash_append dashed hmark, drop_dash_append]
  split
  · next hweek =>
      cases hweek
      cases hd
  · simp only [hmonth', Option.bind_some, takeDash?_dash, hday']
    rfl

theorem isoParts?_weekday (dashed : Bool) (hyear : Digits 4 year) (hweek : Digits 2 week)
    (hday : Digits 1 day) :
    isoParts? (year ++ (dash dashed ++ ('W' :: (week ++ (dash dashed ++ day))))) =
      some (.week (numberOf year) (numberOf week) (numberOf day)) := by
  have hday' := hday.takeNumber?_append []
  rw [List.append_nil] at hday'
  have hmark : ('W' :: (week ++ (dash dashed ++ day))).head? ≠ some '-' := by simp
  have hmore : (dash dashed ++ day).isEmpty = false := by
    obtain ⟨c, rest, rfl⟩ := List.exists_cons_of_length_eq_add_one hday.length_eq
    simp
  simp only [isoParts?, hyear.takeNumber?_append, Option.bind_eq_bind, Option.bind_some,
    head?_dash_append dashed hmark, drop_dash_append, hweek.takeNumber?_append, hmore,
    takeDash?_dash, hday']
  rfl

theorem isoParts?_week (dashed : Bool) (hyear : Digits 4 year) (hweek : Digits 2 week) :
    isoParts? (year ++ (dash dashed ++ ('W' :: week))) =
      some (.week (numberOf year) (numberOf week) 1) := by
  have hweek' := hweek.takeNumber?_append []
  rw [List.append_nil] at hweek'
  have hmark : ('W' :: week).head? ≠ some '-' := by simp
  simp only [isoParts?, hyear.takeNumber?_append, Option.bind_eq_bind, Option.bind_some,
    head?_dash_append dashed hmark, drop_dash_append, hweek']
  rfl

end Day

namespace Text

theorem exists_digits_append {count : Nat} {cs shape : List Char}
    (h : cs.map blank = List.replicate count '0' ++ shape) :
    ∃ digits rest, cs = digits ++ rest ∧ Digits count digits ∧ rest.map blank = shape := by
  obtain ⟨digits, rest, rfl, hdigits, hrest⟩ := List.map_eq_append_iff.mp h
  exact ⟨digits, rest, rfl, hdigits, hrest⟩

theorem exists_marks_append {marks cs shape : List Char}
    (hmarks : ∀ c ∈ marks, asciiDigit? c = none) (h : cs.map blank = marks ++ shape) :
    ∃ rest, cs = marks ++ rest ∧ rest.map blank = shape := by
  obtain ⟨start, rest, rfl, hstart, hrest⟩ := List.map_eq_append_iff.mp h
  refine ⟨rest, ?_, hrest⟩
  have hkept : ∀ c ∈ start, blank c = c := by
    intro c hc
    have hnone := hmarks _ (hstart ▸ List.mem_map_of_mem hc)
    exact eq_of_blank_eq (by rw [blank, hnone]; rfl) hnone
  rw [← hstart, List.map_congr_left hkept, List.map_id']

end Text

namespace Day

/-- The forms in which a text may state a day, with a zero for each digit. -/
def isoForms : List String :=
  ["0000-00-00", "00000000", "0000-W00-0", "0000W000", "0000-W00", "0000W00"]

def HasForm (form text : String) : Prop := text.toList.map blank = form.toList

instance (form text : String) : Decidable (HasForm form text) :=
  inferInstanceAs (Decidable (_ = _))

/-- A form in which the digits of a text make up these parts of a day. -/
def Reads (form : String) (parts : Nat → IsoParts) : Prop :=
  ∀ text, HasForm form text → isoParts? text.toList = some (parts (numberOf text.toList))

theorem asciiDigit?_of_mem_dash {dashed : Bool} : ∀ c ∈ dash dashed, asciiDigit? c = none := by
  intro c hc
  cases dashed
  case false => cases hc
  case true =>
    obtain rfl := List.mem_singleton.mp hc
    rfl

theorem exists_year {form text : String} {dashed : Bool} {shape : List Char}
    (hform : form.toList = List.replicate 4 '0' ++ (dash dashed ++ shape))
    (htext : HasForm form text) :
    ∃ year rest, text.toList = year ++ (dash dashed ++ rest) ∧ Digits 4 year ∧
      rest.map blank = shape ∧ numberOf text.toList = numberFrom (numberOf year) rest := by
  obtain ⟨year, _, htext, hyear, hshape⟩ := exists_digits_append (htext.trans hform)
  obtain ⟨rest, rfl, hrest⟩ := exists_marks_append asciiDigit?_of_mem_dash hshape
  refine ⟨year, rest, htext, hyear, hrest, ?_⟩
  rw [htext, numberOf, numberFrom_append, numberFrom_append, numberFrom_dash]

theorem reads_civil {form : String} (dashed : Bool) (hform : form.toList =
      List.replicate 4 '0' ++ (dash dashed ++ (List.replicate 2 '0' ++
        (dash dashed ++ List.replicate 2 '0')))) :
    Reads form fun n => .civil (n / 10000) (n / 100 % 100) (n % 100) := by
  intro text htext
  obtain ⟨year, _, htext, hyear, hmonths, hnumber⟩ := exists_year hform htext
  obtain ⟨month, _, rfl, hmonth, hdashed⟩ := exists_digits_append hmonths
  obtain ⟨day, rfl, hdays⟩ := exists_marks_append asciiDigit?_of_mem_dash hdashed
  have hday : Digits 2 day := hdays
  rw [numberFrom_append, numberFrom_append, numberFrom_dash, hday.numberFrom_eq,
    hmonth.numberFrom_eq] at hnumber
  have := hmonth.numberOf_lt
  have := hday.numberOf_lt
  rw [hnumber, htext, isoParts?_civil dashed hyear hmonth hday]
  congr 2 <;> omega

theorem reads_weekday {form : String} (dashed : Bool) (hform : form.toList =
      List.replicate 4 '0' ++ (dash dashed ++ (['W'] ++ (List.replicate 2 '0' ++
        (dash dashed ++ List.replicate 1 '0'))))) :
    Reads form fun n => .week (n / 1000) (n / 10 % 100) (n % 10) := by
  intro text htext
  obtain ⟨year, _, htext, hyear, hmarked, hnumber⟩ := exists_year hform htext
  obtain ⟨_, rfl, hweeks⟩ := exists_marks_append (List.forall_mem_singleton.mpr rfl) hmarked
  obtain ⟨week, _, rfl, hweek, hdashed⟩ := exists_digits_append hweeks
  obtain ⟨day, rfl, hdays⟩ := exists_marks_append asciiDigit?_of_mem_dash hdashed
  have hday : Digits 1 day := hdays
  rw [List.singleton_append] at htext hnumber
  rw [numberFrom_mark, numberFrom_append, numberFrom_append, numberFrom_dash, hday.numberFrom_eq,
    hweek.numberFrom_eq] at hnumber
  have := hweek.numberOf_lt
  have := hday.numberOf_lt
  rw [hnumber, htext, isoParts?_weekday dashed hyear hweek hday]
  congr 2 <;> omega

theorem reads_week {form : String} (dashed : Bool) (hform : form.toList =
      List.replicate 4 '0' ++ (dash dashed ++ (['W'] ++ List.replicate 2 '0'))) :
    Reads form fun n => .week (n / 100) (n % 100) 1 := by
  intro text htext
  obtain ⟨year, _, htext, hyear, hmarked, hnumber⟩ := exists_year hform htext
  obtain ⟨week, rfl, hweeks⟩ := exists_marks_append (List.forall_mem_singleton.mpr rfl) hmarked
  have hweek : Digits 2 week := hweeks
  rw [List.singleton_append] at htext hnumber
  rw [numberFrom_mark, hweek.numberFrom_eq] at hnumber
  have := hweek.numberOf_lt
  rw [hnumber, htext, isoParts?_week dashed hyear hweek]
  congr 2 <;> omega

theorem exists_reads {form : String} (hform : form ∈ isoForms) :
    ∃ parts, Reads form parts ∧ ∀ n m, n < m → (parts n).Before (parts m) := by
  have hcivil : ∀ n m, n < m → (IsoParts.civil (n / 10000) (n / 100 % 100) (n % 100)).Before
      (.civil (m / 10000) (m / 100 % 100) (m % 100)) := by
    intro n m hlt
    simp only [IsoParts.Before]
    omega
  have hweekday : ∀ n m, n < m → (IsoParts.week (n / 1000) (n / 10 % 100) (n % 10)).Before
      (.week (m / 1000) (m / 10 % 100) (m % 10)) := by
    intro n m hlt
    simp only [IsoParts.Before]
    omega
  have hweek : ∀ n m, n < m → (IsoParts.week (n / 100) (n % 100) 1).Before
      (.week (m / 100) (m % 100) 1) := by
    intro n m hlt
    simp only [IsoParts.Before]
    omega
  simp only [isoForms, List.mem_cons, List.not_mem_nil, or_false] at hform
  rcases hform with rfl | rfl | rfl | rfl | rfl | rfl
  · exact ⟨_, reads_civil true (by decide), hcivil⟩
  · exact ⟨_, reads_civil false (by decide), hcivil⟩
  · exact ⟨_, reads_weekday true (by decide), hweekday⟩
  · exact ⟨_, reads_weekday false (by decide), hweekday⟩
  · exact ⟨_, reads_week true (by decide), hweek⟩
  · exact ⟨_, reads_week false (by decide), hweek⟩

theorem number_of_ofCivil {year month day : Nat} {d : Day} (h : ofCivil year month day = .ok d) :
    d.number = Civil.number ⟨year, month, day⟩ ∧
      (1 ≤ month ∧ month ≤ 12) ∧ 1 ≤ day ∧ day ≤ monthLength year month := by
  rw [ofCivil] at h
  split at h
  · cases h
  · split at h
    · cases h
    · split at h
      · cases h
      · split at h
        · next hnumber =>
            obtain rfl := Except.ok.inj h
            exact ⟨(ofNumber?_eq_some_iff.mp hnumber).symm, by omega, by omega, by omega⟩
        · cases h

theorem ofCivil_lt {year month day year' month' day' : Nat} {d e : Day}
    (hbefore : (IsoParts.civil year month day).Before (.civil year' month' day'))
    (hd : ofCivil year month day = .ok d) (he : ofCivil year' month' day' = .ok e) :
    d.number < e.number := by
  obtain ⟨hd, hmonth, hday⟩ := number_of_ofCivil hd
  obtain ⟨he, hmonth', hday'⟩ := number_of_ofCivil he
  simp only [Civil.number] at hd he
  simp only [IsoParts.Before] at hbefore
  by_cases hsame : year = year' ∧ month = month'
  · obtain ⟨rfl, rfl⟩ := hsame
    omega
  · have hend := @Rule.monthEnd_le_firstDay year year' month month' hmonth.1 hmonth.2 hmonth'.1
      (by omega) hmonth'.2
    simp only [YearDay.firstDay] at hend
    omega

theorem firstWeekStart_succ (year : Int) :
    firstWeekStart (year + 1) = firstWeekStart year + 364 ∨
      firstWeekStart (year + 1) = firstWeekStart year + 371 := by
  -- Both are Mondays, a year and less than a week apart.
  simp only [firstWeekStart, weekdayOf, daysBeforeYear_succ, yearLength]
  split <;> omega

theorem firstWeekStart_mono {year later : Int} (hle : year ≤ later) :
    firstWeekStart year ≤ firstWeekStart later := by
  have := daysBeforeYear_mono hle
  simp only [firstWeekStart, weekdayOf]
  omega

theorem number_of_ofWeek {text : String} {year nth weekday : Nat} {d : Day}
    (h : ofWeek text year nth weekday = .ok d) :
    (d.number : Int) = firstWeekStart year + 7 * (nth - 1) + (weekday - 1) ∧
      1 ≤ nth ∧ 7 * nth ≤ firstWeekStart (year + 1) - firstWeekStart year ∧
      1 ≤ weekday ∧ weekday ≤ 7 := by
  rw [ofWeek] at h
  split at h
  · cases h
  · next hweek =>
      split at h
      · cases h
      · split at h
        · cases h
        · simp only at h
          split at h
          · next hnumber =>
              obtain rfl := Except.ok.inj h
              have hlength := firstWeekStart_succ year
              simp only [hasLongWeekYear, Bool.not_eq_true', beq_eq_false_iff_ne] at hweek
              refine ⟨(ofNumber?_eq_some_iff.mp hnumber).symm, ?_⟩
              omega
          · cases h

theorem ofWeek_lt {text text' : String} {year nth weekday year' nth' weekday' : Nat} {d e : Day}
    (hbefore : (IsoParts.week year nth weekday).Before (.week year' nth' weekday'))
    (hd : ofWeek text year nth weekday = .ok d) (he : ofWeek text' year' nth' weekday' = .ok e) :
    d.number < e.number := by
  obtain ⟨hd, hweek, hend, hday⟩ := number_of_ofWeek hd
  obtain ⟨he, hweek', -, hday'⟩ := number_of_ofWeek he
  simp only [IsoParts.Before] at hbefore
  by_cases hyears : year < year'
  · have := @firstWeekStart_mono (year + 1) year' (by omega)
    omega
  · obtain rfl : year = year' := by omega
    omega

/-- Two texts of one form come in the order of their days. -/
theorem ofIsoText_lt {form : String} (hform : form ∈ isoForms) {text later : String}
    (htext : HasForm form text) (hlater : HasForm form later) (hlt : text < later) {d e : Day}
    (hd : ofIsoText text = .ok d) (he : ofIsoText later = .ok e) : d.number < e.number := by
  obtain ⟨parts, hreads, hrising⟩ := exists_reads hform
  have hbefore := hrising _ _
    (numberFrom_lt (htext.trans hlater.symm) (String.lt_iff_toList_lt.mp hlt) 0)
  simp only [ofIsoText, hreads text htext, hreads later hlater] at hd he
  generalize parts (numberOf text.toList) = p at hbefore hd
  generalize parts (numberOf later.toList) = q at hbefore he
  split at hd
  case isFalse => cases hd
  split at he
  case isFalse => cases he
  cases p <;> cases q
  case civil.civil => exact ofCivil_lt hbefore hd he
  case week.week => exact ofWeek_lt hbefore hd he
  all_goals cases hbefore

end Day

end Rostering
