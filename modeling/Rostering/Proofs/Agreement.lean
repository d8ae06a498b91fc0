import Rostering.Proofs.Overrides
import Rostering.Proofs.RuleTexts

namespace Rostering

open Rotation

/-! An override asked about one day of a rotation gives the answer that building the shifts gives,
as long as no shift is earlier than the one before. Where the dates go back, the window of the whole
rotation ends a week after its earliest date, and days past that are not looked at. -/

theorem Day.eq_of_number_eq {day other : Day} (h : day.number = other.number) : day = other := by
  cases day
  cases other
  cases h
  rfl

theorem shiftDates_ok {start : Day} {count interval : Int} {dates : List Day}
    (h : shiftDates start count interval = .ok dates) :
    dates.length = count.toNat ∧ ∀ (i : Nat) (day : Day), dates[i]? = some day →
      (day.number : Int) = start.number + i * interval := by
  have hdays : (List.range count.toNat).mapM (fun i : Nat => start.plus (i * interval)) =
      .ok dates := by
    obtain ⟨-, h⟩ := check_eq_ok.mp h
    by_cases hpositive : 0 < count
    · rw [if_pos hpositive] at h
      obtain ⟨_, -, h⟩ := bind_eq_ok.mp h
      exact h
    · rw [if_neg hpositive] at h
      exact h
  have hplaced := forall₂_of_mapM_eq_ok hdays
  have hlength : dates.length = count.toNat := by rw [← hplaced.length_eq, List.length_range]
  refine ⟨hlength, fun i day hday => ?_⟩
  have hi : i < count.toNat := hlength ▸ (List.getElem?_eq_some_iff.mp hday).1
  exact Day.plus_ok (rel_of_getElem? hplaced (List.getElem?_range hi) hday)

namespace Override

variable {o : Override} {first last day : Day} {days : List Day}

theorem occurrences_le (h : o.occurrences first last = .ok days) (hday : day ∈ days) :
    (day.number : Int) ≤ last.number + leadDays := by
  obtain ⟨anchor, stop, readings, -, hstop, hreadings, rfl⟩ := occurrences_eq_ok_iff.mp h
  obtain ⟨t, ht, hnumber⟩ := mem_daysOf.mp hday
  obtain ⟨-, -, hle⟩ :=
    Timeline.of_mem_within (Timeline.all_of_forall (fun _ => trivial) _) hreadings ht
  rw [← hnumber, ← Day.plus_ok hstop]
  exact Int.ediv_le_of_le_mul (by decide) hle

theorem appliesTo_eq_ok_iff {b : Bool} :
    o.appliesTo day first = .ok b ↔
      ∃ days, o.occurrences first day = .ok days ∧ days.contains day = b := by
  simp only [appliesTo, Option.getD_none, bind_eq_ok, pure_eq_ok]

/-- No later day of the rotation has a say in whether this one is hit. -/
theorem appliesTo_of_occurrences (hle : day.number ≤ last.number)
    (h : o.occurrences first last = .ok days) :
    o.appliesTo day first = .ok (days.contains day) := by
  obtain ⟨own, hown, hsame⟩ := occurrences_narrower hle h
  refine appliesTo_eq_ok_iff.mpr ⟨own, hown, ?_⟩
  rw [Bool.eq_iff_iff, List.contains_iff_mem, List.contains_iff_mem]
  exact hsame day (by simp only [leadDays]; omega)

/-- In a rotation that ends before a day, the day is missed past a week after that end. -/
theorem occurrences_of_appliesTo {b : Bool} (hle : last.number ≤ day.number)
    (h : o.appliesTo day first = .ok b) :
    ∃ days, o.occurrences first last = .ok days ∧
      ((day.number : Int) < last.number + leadDays → days.contains day = b) ∧
      (b = false ∨ (last.number : Int) + leadDays < day.number → days.contains day = false) := by
  obtain ⟨wider, hwider, rfl⟩ := appliesTo_eq_ok_iff.mp h
  obtain ⟨days, hdays, hfewer, hsame⟩ := occurrences_cut hle hwider
  refine ⟨days, hdays, fun hnear => ?_, fun hmissed => ?_⟩
  · rw [Bool.eq_iff_iff, List.contains_iff_mem, List.contains_iff_mem]
    exact hsame day hnear
  · rw [List.contains_eq_mem, decide_eq_false_iff_not]
    intro hmem
    rcases hmissed with hmissed | hfar
    · rw [List.contains_eq_mem, decide_eq_false_iff_not] at hmissed
      exact hmissed (hfewer hmem)
    · have := occurrences_le hdays hmem
      omega

end Override

namespace Rotation

variable {o : Override} {dates days : List Day} {start first last day : Day} {count interval : Int}

theorem shiftDates_ends (h : shiftDates start count interval = .ok dates) (hsome : dates ≠ []) :
    dates.head? = some start ∧ ∃ last, dates.getLast? = some last ∧
      (last.number : Int) = start.number + (count - 1) * interval := by
  obtain ⟨hlength, hplaced⟩ := shiftDates_ok h
  have hpositive := List.length_pos_of_ne_nil hsome
  obtain ⟨first, hfirst⟩ : ∃ first, dates[0]? = some first :=
    ⟨_, List.getElem?_eq_getElem hpositive⟩
  obtain ⟨last, hlast⟩ : ∃ last, dates[dates.length - 1]? = some last :=
    ⟨_, List.getElem?_eq_getElem (by omega)⟩
  have hstart : first = start := Day.eq_of_number_eq (by have := hplaced 0 first hfirst; omega)
  have hplace : ((dates.length - 1 : Nat) : Int) = count - 1 := by omega
  refine ⟨by rw [List.head?_eq_getElem?, hfirst, hstart], last,
    by rw [List.getLast?_eq_getElem?, hlast], ?_⟩
  rw [← hplace]
  exact hplaced _ last hlast

theorem exists_last_of_shiftDates (h : shiftDates start count interval = .ok dates) {i : Nat}
    (hday : dates[i]? = some day) :
    dates.head? = some start ∧ ∃ last, dates.getLast? = some last ∧
      (0 ≤ interval → day.number ≤ last.number) ∧ (interval ≤ 0 → last.number ≤ day.number) := by
  obtain ⟨hlength, hplaced⟩ := shiftDates_ok h
  obtain ⟨hfirst, last, hlast, hend⟩ :=
    shiftDates_ends h (List.ne_nil_of_mem (List.mem_of_getElem? hday))
  have hnumber := hplaced i day hday
  have hplace : (i : Int) ≤ count - 1 := by
    have := (List.getElem?_eq_some_iff.mp hday).1
    omega
  refine ⟨hfirst, last, hlast, fun hforward => ?_, fun hback => ?_⟩
  · have := Int.mul_le_mul_of_nonneg_right hplace hforward
    omega
  · have := Int.mul_le_mul_of_nonpos_right hplace hback
    omega

theorem overridesOn_single (hfirst : dates.head? = some first) (hlast : dates.getLast? = some last)
    (h : o.occurrences first last = .ok days) :
    overridesOn dates [o] day = if days.contains day then [o] else [] := by
  have hhit : o.hits first last day = days.contains day := by
    rw [Override.hits, h]
    rfl
  simp only [overridesOn, hfirst, hlast, List.filter_cons, List.filter_nil, hhit]

theorem buildShifts_single_error {size : Int} (hsize : 0 ≤ size)
    (hfirst : dates.head? = some first) (hlast : dates.getLast? = some last) {fault : Fault}
    (h : o.occurrences first last = .error fault) :
    buildShifts dates size [o] = .error fault := by
  simp only [buildShifts, hitsOf, hfirst, hlast, List.mapM_cons, h,
    if_neg (Int.not_lt.mpr hsize)]
  rfl

theorem buildShifts_single_ok_iff {size : Int} (hsize : 0 ≤ size)
    (hfirst : dates.head? = some first) (hlast : dates.getLast? = some last) :
    (∃ shifts, buildShifts dates size [o] = .ok shifts) ↔
      ∃ days, o.occurrences first last = .ok days := by
  rw [buildShifts_ok_iff hsize, hitsOf_ok_iff]
  simp [hfirst, hlast]

theorem exists_buildShifts_iff_of_forward {size : Int} (hsize : 0 ≤ size)
    (hdates : shiftDates start count interval = .ok dates) (hforward : 0 ≤ interval) :
    (∃ shifts, buildShifts dates size [o] = .ok shifts) ↔
      ∀ day ∈ dates, ∃ b, o.appliesTo day start = .ok b := by
  constructor
  · intro hbuilt day hday
    obtain ⟨i, hi⟩ := List.getElem?_of_mem hday
    obtain ⟨hfirst, last, hlast, hle, -⟩ := exists_last_of_shiftDates hdates hi
    obtain ⟨days, hdays⟩ := (buildShifts_single_ok_iff hsize hfirst hlast).mp hbuilt
    exact ⟨_, o.appliesTo_of_occurrences (hle hforward) hdays⟩
  · intro happlies
    refine (buildShifts_ok_iff hsize).mpr
      (hitsOf_ok_iff.mpr fun first last hfirst hlast o' ho => ?_)
    obtain rfl := List.mem_singleton.mp ho
    have hmem := List.mem_of_getLast? hlast
    obtain ⟨i, hi⟩ := List.getElem?_of_mem hmem
    obtain ⟨b, hb⟩ := happlies last hmem
    obtain ⟨days, hdays, -⟩ := Override.appliesTo_eq_ok_iff.mp hb
    obtain rfl := Option.some.inj (hfirst.symm.trans (exists_last_of_shiftDates hdates hi).1)
    exact ⟨days, hdays⟩

theorem appliesTo_of_buildShifts {size : Int} (hsize : 0 ≤ size)
    (hdates : shiftDates start count interval = .ok dates) (hforward : 0 ≤ interval)
    {shifts : List Shift} (h : buildShifts dates size [o] = .ok shifts) {i : Nat}
    (hday : dates[i]? = some day) :
    ∃ b, o.appliesTo day start = .ok b ∧
      overridesOn dates [o] day = if b then [o] else [] := by
  obtain ⟨hfirst, last, hlast, hle, -⟩ := exists_last_of_shiftDates hdates hday
  obtain ⟨days, hdays⟩ := (buildShifts_single_ok_iff hsize hfirst hlast).mp ⟨shifts, h⟩
  exact ⟨_, Override.appliesTo_of_occurrences (hle hforward) hdays,
    overridesOn_single hfirst hlast hdays⟩

/-- Where the dates go back, one answer is enough for the shifts to be built, as the window of the
rotation then ends before that of the day. -/
theorem buildShifts_of_appliesTo {size : Int} (hsize : 0 ≤ size)
    (hdates : shiftDates start count interval = .ok dates) (hback : interval < 0) {i : Nat}
    (hday : dates[i]? = some day) (hlast : dates.getLast? = some last) {b : Bool}
    (h : o.appliesTo day start = .ok b) :
    (∃ shifts, buildShifts dates size [o] = .ok shifts) ∧
      (day.number < last.number + 7 → overridesOn dates [o] day = if b then [o] else []) ∧
      (b = false ∨ last.number + 7 < day.number → overridesOn dates [o] day = []) := by
  obtain ⟨hfirst, last', hlast', -, hle⟩ := exists_last_of_shiftDates hdates hday
  obtain rfl := Option.some.inj (hlast.symm.trans hlast')
  obtain ⟨days, hdays, hnear, hmissed⟩ := Override.occurrences_of_appliesTo (hle hback.le) h
  have hon : overridesOn dates [o] day = if days.contains day then [o] else [] :=
    overridesOn_single hfirst hlast hdays
  refine ⟨(buildShifts_single_ok_iff hsize hfirst hlast).mpr ⟨days, hdays⟩, fun hlt => ?_,
    fun hcase => ?_⟩
  · rw [hon, hnear (by simp only [Override.leadDays]; omega)]
  · rw [hon, hmissed (hcase.imp_right fun hfar => by simp only [Override.leadDays]; omega)]
    rfl

end Rotation

/-- Asked about a day with the rotation's start alone, an override answers what building the shifts
makes of it, wherever the dates do not go back. Where they do, this holds up to a week after the
last of them: further on the shifts are built as if the override did not hit them. -/
theorem applies_as_built (o : Override) {start : Day} {count interval size : Int}
    {dates : List Day} (hsize : 0 ≤ size) (hdates : shiftDates start count interval = .ok dates) :
    (0 ≤ interval →
      ((∃ shifts, buildShifts dates size [o] = .ok shifts) ↔
        ∀ day ∈ dates, ∃ b, o.appliesTo day start = .ok b) ∧
      ∀ shifts, buildShifts dates size [o] = .ok shifts →
        ∀ (i : Nat) (day : Day), dates[i]? = some day → ∃ b s, o.appliesTo day start = .ok b ∧
          overridesOn dates [o] day = (if b then [o] else []) ∧ shifts[i]? = some s ∧
          s.Follows (overridesOn dates [o] day) size day i) ∧
    (interval < 0 → ∀ (i : Nat) (day last : Day) (b : Bool), dates[i]? = some day →
      dates.getLast? = some last → o.appliesTo day start = .ok b →
      ∃ shifts s, buildShifts dates size [o] = .ok shifts ∧ shifts[i]? = some s ∧
        s.Follows (overridesOn dates [o] day) size day i ∧
        (day.number < last.number + 7 → overridesOn dates [o] day = if b then [o] else []) ∧
        (b = false ∨ last.number + 7 < day.number → overridesOn dates [o] day = [])) := by
  refine ⟨fun hforward => ⟨exists_buildShifts_iff_of_forward hsize hdates hforward,
    fun shifts h i day hday => ?_⟩, fun hback i day last b hday hlast happlies => ?_⟩
  · obtain ⟨b, happlies, hon⟩ := appliesTo_of_buildShifts hsize hdates hforward h hday
    obtain ⟨s, hs, hfollows⟩ := buildShifts_follows h hday
    exact ⟨b, s, happlies, hon, hs, hfollows⟩
  · obtain ⟨⟨shifts, h⟩, hnear, hmissed⟩ :=
      buildShifts_of_appliesTo hsize hdates hback hday hlast happlies
    obtain ⟨s, hs, hfollows⟩ := buildShifts_follows h hday
    exact ⟨shifts, s, h, hs, hfollows, hnear, hmissed⟩

namespace Sample

theorem shiftDates_weeks : shiftDates (week 1) 3 = .ok [week 1, week 2, week 3] :=
  toOption_eq_some_iff.mp (by decide +kernel)

theorem shiftDates_back : shiftDates (week 3) 3 (-7) = .ok [week 3, week 2, week 1] :=
  toOption_eq_some_iff.mp (by decide +kernel)

theorem appliesTo_back : (everyWeeks 1 9).appliesTo (week 3) (week 3) = .ok true :=
  toOption_eq_some_iff.mp (by decide +kernel)

end Sample

open Sample in
theorem applies_as_built_sample :
    (∃ shifts b s, buildShifts [week 1, week 2, week 3] 4 [everyWeeks 2 9] = .ok shifts ∧
      (everyWeeks 2 9).appliesTo (week 2) (week 1) = .ok b ∧
      overridesOn [week 1, week 2, week 3] [everyWeeks 2 9] (week 2) =
        (if b then [everyWeeks 2 9] else []) ∧
      shifts[1]? = some s ∧ s.size = 9) ∧
    overridesOn [week 3, week 2, week 1] [everyWeeks 1 9] (week 3) = [] := by
  have hsize : (0 : Int) ≤ 4 := by decide
  constructor
  · obtain ⟨shifts, hshifts, hsizes⟩ : ∃ shifts,
        buildShifts [week 1, week 2, week 3] 4 [everyWeeks 2 9] = .ok shifts ∧
        shifts.map Shift.size = [4, 9, 4] := exists_ok_of_toOption_map (by decide +kernel)
    obtain ⟨b, s, happlies, hon, hs, -⟩ :=
      ((applies_as_built (everyWeeks 2 9) hsize shiftDates_weeks).1 (by decide)).2 shifts hshifts
        1 (week 2) rfl
    refine ⟨shifts, b, s, hshifts, happlies, hon, hs, ?_⟩
    have hsized := congrArg (fun sizes => sizes[1]?) hsizes
    simpa [hs] using hsized
  · obtain ⟨shifts, s, -, -, -, -, hfar⟩ :=
      (applies_as_built (everyWeeks 1 9) hsize shiftDates_back).2 (by decide) 0 (week 3) (week 1)
        true rfl rfl appliesTo_back
    exact hfar (.inr (by decide))

open Sample in
theorem reversed_weeks_unhit :
    ∃ o, Override.make "FREQ=WEEKLY;INTERVAL=1" (some 9) = .ok o ∧
      shiftDates (week 3) 3 (-7) = .ok [week 3, week 2, week 1] ∧
      o.appliesTo (week 3) (week 3) = .ok true ∧
      ∃ shifts, buildShifts [week 3, week 2, week 1] 4 [o] = .ok shifts ∧
        shifts.map Shift.size = [4, 9, 4] := by
  have htext : weeklyText 1 = "FREQ=WEEKLY;INTERVAL=1" := by decide +kernel
  exact ⟨everyWeeks 1 9, htext ▸ make_everyWeeks 1 (by decide), shiftDates_back, appliesTo_back,
    exists_ok_of_toOption_map (by decide +kernel)⟩

end Rostering
