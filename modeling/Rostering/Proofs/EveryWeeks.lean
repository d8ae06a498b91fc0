import Rostering.Proofs.Agreement
import Rostering.Proofs.RuleTexts

namespace Rostering

open Calendar YearDay

/-! A rule that comes every so many weeks hits the weekday of its anchor in every so many weeks from
there on, so that of a weekly rotation, whose rules are set out from the week before it, it hits
every so many shifts. Only at the end of the calendar, where the next hit would lie past the last
day but its week starts before, is there no answer. -/

theorem weekdayOf_eq_iff {number other : Int} :
    weekdayOf number = weekdayOf other ↔ number % 7 = other % 7 := by
  simp only [weekdayOf]
  omega

theorem filter_weekdayOf {first hit : Int} {count : Nat} (hcount : count ≤ 7) (hfirst : first ≤ hit)
    (hlast : hit < first + count) :
    ((List.range count).map fun i : Nat => first + i).filter
      (fun n => weekdayOf n == weekdayOf hit) = [hit] := by
  obtain ⟨c, rfl⟩ : ∃ c : Nat, hit = first + c := ⟨(hit - first).toNat, by omega⟩
  -- Within a week no two days have one weekday.
  have hsame : ∀ i ∈ List.range count,
      (weekdayOf (first + i) == weekdayOf (first + c)) = (i == c) := by
    intro i hi
    have := List.mem_range.mp hi
    rw [Bool.eq_iff_iff, beq_iff_eq, beq_iff_eq, weekdayOf_eq_iff]
    omega
  rw [List.filter_map, Function.comp_def, List.filter_congr hsame, List.filter_beq,
    List.count_eq_one_of_mem List.nodup_range (List.mem_range.mpr (by omega))]
  rfl

namespace Rule

/-- The number of the day of a weekly rule's hit. It may lie past the calendar. -/
def hit (anchor : Day) (interval j : Nat) : Int := anchor.number + 7 * (interval * j)

/-- Where the step to a hit starts looking: at the anchor itself, and later at a Monday. -/
def lookFrom (anchor : Day) (interval j : Nat) : Int :=
  if j = 0 then anchor.number else hit anchor interval j - anchor.weekday

variable {anchor : Day} {interval j : Nat}

theorem weekdayOf_hit (anchor : Day) (interval j : Nat) :
    weekdayOf (hit anchor interval j) = anchor.weekday := by
  rw [Day.weekday, weekdayOf_eq_iff, hit]
  omega

theorem lookFrom_le_hit (anchor : Day) (interval j : Nat) :
    lookFrom anchor interval j ≤ hit anchor interval j := by
  rw [lookFrom]
  split
  · next hj =>
      rw [hit, hj]
      omega
  · omega

/-- A weekly rule that is set out from the midnight of its anchor. -/
def weeklyFrom (anchor : Day) (interval : Nat) : Expansion where
  rule := { weekly interval with weekdays := [⟨anchor.weekday, none⟩] }
  start := { day := anchor }
  times := [0]

theorem expandFrom_weekly (anchor : Day) (interval : Nat) :
    (weekly interval).expandFrom { day := anchor } = weeklyFrom anchor interval := by
  have htimes : (weekly interval).dayTimes { day := anchor } =
      timesOfDay (valuesOr [] 0) (valuesOr [] 0) (valuesOr [] 0) := by
    simp [dayTimes, weekly, Start.hour, Start.minute, Start.secondOfMinute, firstSecond]
  rw [expandFrom, htimes]
  rfl

theorem daysFrom_eq (number : Int) (count : Nat) (times : List Int) :
    ((lastDayNumber : Int) < number ∧ daysFrom number count times = .past) ∨
    (number ≤ lastDayNumber ∧ ∃ p, daysFrom number count times = .period p ∧
      p.year = yearOf number ∧ p.times = times ∧ p.Spans number count) := by
  rcases Int.lt_or_le lastDayNumber number with hpast | hinside
  · exact .inl ⟨hpast, by rw [daysFrom, if_pos hpast]⟩
  · obtain ⟨p, hperiod, hyear⟩ : ∃ p, daysFrom number count times = .period p ∧
        p.year = yearOf number :=
      ⟨_, by rw [daysFrom, if_neg (Int.not_lt.mpr hinside)], rfl⟩
    obtain ⟨hspans, htimes⟩ := daysFrom_spans hperiod
    exact .inr ⟨hinside, p, hperiod, hyear, htimes, hspans⟩

/-- The step to a hit looks at days of one week, up to the hit or past it. -/
theorem exists_periodAt_weekly (hinterval : 1 ≤ interval) (anchor : Day) (j : Nat) :
    ∃ count ≤ 7, (weeklyFrom anchor interval).periodAt j =
        daysFrom (lookFrom anchor interval j) count [0] ∧
      hit anchor interval j < lookFrom anchor interval j + count := by
  have hweekday : anchor.weekday < 7 := by
    simp only [Day.weekday, weekdayOf]
    omega
  have hinto : (anchor.weekday + 7 - 0) % 7 = anchor.weekday := by omega
  by_cases hj : j = 0
  · subst hj
    refine ⟨7 - anchor.weekday, by omega, ?_, ?_⟩
    · simp only [Expansion.periodAt, weeklyPeriod, weeklyFrom, weekly, hinto]
      rfl
    · simp only [lookFrom, hit, if_true]
      omega
  · refine ⟨7, Nat.le_refl 7, ?_, ?_⟩
    · have hmoves : ¬ ((interval : Int) = 0) := by omega
      simp only [Expansion.periodAt, weeklyPeriod, weeklyFrom, weekly, hinto, lookFrom, hit]
      rw [if_neg fun h => hmoves h.2, if_neg (by omega), if_neg (by omega), if_neg hj,
        Int.mul_assoc]
      exact congrArg (daysFrom · 7 [0]) (by omega)
    · simp only [lookFrom, if_neg hj]
      omega

/-- The step to a hit finds it, and nothing else, among some days, unless these lie past the
calendar. -/
theorem periodAt_weekly (hinterval : 1 ≤ interval) (anchor : Day) (j : Nat) :
    ((lastDayNumber : Int) < lookFrom anchor interval j ∧
      (weeklyFrom anchor interval).periodAt j = .past) ∨
    (lookFrom anchor interval j ≤ lastDayNumber ∧
      ∃ p, (weeklyFrom anchor interval).periodAt j = .period p ∧
        p.year = yearOf (lookFrom anchor interval j) ∧ p.times = [0] ∧
        p.days.filter (fun n => weekdayOf n == anchor.weekday) = [hit anchor interval j]) := by
  obtain ⟨count, hcount, hperiod, hlast⟩ := exists_periodAt_weekly hinterval anchor j
  rw [hperiod]
  refine (daysFrom_eq _ count [0]).imp_right (And.imp_right ?_)
  rintro ⟨p, hp, hyear, htimes, hspans⟩
  refine ⟨p, hp, hyear, htimes, ?_⟩
  rw [hspans, ← weekdayOf_hit anchor interval j]
  exact filter_weekdayOf hcount (lookFrom_le_hit anchor interval j) hlast

/-- Whether the calendar ends after the step to a hit starts looking but before the hit. -/
def Overshoots (anchor : Day) (interval j : Nat) : Prop :=
  lookFrom anchor interval j ≤ lastDayNumber ∧ (lastDayNumber : Int) < hit anchor interval j

instance (anchor : Day) (interval j : Nat) : Decidable (Overshoots anchor interval j) :=
  inferInstanceAs (Decidable (_ ∧ _))

theorem daysIn_weekly (interval : Nat) (anchor : Day) (p : Period) :
    (weeklyFrom anchor interval).rule.daysIn p = .ok (p.offsets.filter fun offset =>
      weekdayOf (firstDay p.year + offset) == anchor.weekday) := by
  refine congrArg Except.ok (List.filter_congr fun offset _ => ?_)
  rw [Bool.eq_iff_iff]
  simp [allowsDay, plainWeekdays, weeklyFrom, weekly, Frequency.hasOrdinals, weekdayAt]

theorem instantsOf_weekly {p : Period} (htimes : p.times = [0])
    (hdays : p.days.filter (fun n => weekdayOf n == anchor.weekday) = [hit anchor interval j]) :
    (weeklyFrom anchor interval).rule.instantsOf p
      (p.offsets.filter fun offset => weekdayOf (firstDay p.year + offset) == anchor.weekday) =
      [if (lastDayNumber : Int) < hit anchor interval j then .error (.yearRange (p.year + 1))
        else .ok (hit anchor interval j * secondsPerDay)] := by
  rw [Period.days, List.filter_map] at hdays
  obtain ⟨offset, hoffset, hhit⟩ := List.map_eq_singleton_iff.mp hdays
  simp only [Function.comp_def] at hoffset
  rw [hoffset]
  simp [instantsOf, weeklyFrom, weekly, htimes, instantOf, hhit]

theorem le_hit (anchor : Day) (interval j : Nat) :
    (anchor.number : Int) ≤ hit anchor interval j := by
  have : (0 : Int) ≤ interval * j := Int.mul_nonneg (by omega) (by omega)
  rw [hit]
  omega

theorem takeHits_weekly (anchor : Day) (interval j : Nat)
    (next : Option Int → Timeline Instant) :
    (weeklyFrom anchor interval).takeHits next none
      [.ok (hit anchor interval j * secondsPerDay)] =
      .hit (hit anchor interval j * secondsPerDay) fun _ => next none := by
  have hstart : (weeklyFrom anchor interval).start.instant = anchor.number * secondsPerDay := by
    simp [weeklyFrom, Start.instant, Day.midnight, firstSecond]
  have hanchor : ¬ hit anchor interval j * secondsPerDay < anchor.number * secondsPerDay :=
    Int.not_lt.mpr (Int.mul_le_mul_of_nonneg_right (le_hit anchor interval j) (by decide))
  have hopen : (weeklyFrom anchor interval).isOver (hit anchor interval j * secondsPerDay) =
      .ok false := rfl
  simp only [Expansion.takeHits, hopen, hstart, if_neg hanchor]
  rfl

theorem walk_weekly (hinterval : 1 ≤ interval) (anchor : Day) (fuel j : Nat) :
    (weeklyFrom anchor interval).walk (fuel + 1) j none =
      if (lastDayNumber : Int) < lookFrom anchor interval j then .ended
      else if (lastDayNumber : Int) < hit anchor interval j then
        .broken (.yearRange (yearOf (lookFrom anchor interval j) + 1))
      else .hit (hit anchor interval j * secondsPerDay) fun _ =>
        (weeklyFrom anchor interval).walk fuel (j + 1) none := by
  rw [Expansion.walk]
  rcases periodAt_weekly hinterval anchor j with
    ⟨hpast, hperiod⟩ | ⟨hlook, p, hperiod, hyear, htimes, hdays⟩
  · rw [hperiod, if_pos hpast]
  · rw [hperiod, if_neg (Int.not_lt.mpr hlook)]
    simp only [daysIn_weekly, instantsOf_weekly htimes hdays]
    by_cases hlast : (lastDayNumber : Int) < hit anchor interval j
    · rw [if_pos hlast, if_pos hlast, hyear]
      rfl
    · rw [if_neg hlast, if_neg hlast, takeHits_weekly]
      rfl

/-- What a weekly rule hits from the j-th hit on, between two midnights. -/
def hitsFrom (anchor stop : Day) (interval fuel j : Nat) (before : List Int) :
    Except Fault (List Int) :=
  (((weeklyFrom anchor interval).walk fuel j none).map (Start.pointOf { day := anchor })).within
    (anchor.number * microsPerDay) (stop.number * microsPerDay) before

theorem hitsFrom_succ (hinterval : 1 ≤ interval) (anchor stop : Day) (fuel j : Nat)
    (before : List Int) :
    hitsFrom anchor stop interval (fuel + 1) j before =
      if stop.number < hit anchor interval j then
        if Overshoots anchor interval j then
          .error (.yearRange (yearOf (lookFrom anchor interval j) + 1))
        else .ok before.reverse
      else hitsFrom anchor stop interval fuel (j + 1)
        (hit anchor interval j * microsPerDay :: before) := by
  have hcalendar : (stop.number : Int) ≤ lastDayNumber := by exact_mod_cast stop.le_last
  have hle := lookFrom_le_hit anchor interval j
  simp only [hitsFrom, walk_weekly hinterval]
  by_cases hpast : (lastDayNumber : Int) < lookFrom anchor interval j
  · rw [if_pos hpast, if_pos (by omega), if_neg fun hover => absurd hover.1 (by omega)]
    simp only [Timeline.map, Timeline.within]
  rw [if_neg hpast]
  by_cases hlast : (lastDayNumber : Int) < hit anchor interval j
  · rw [if_pos hlast, if_pos (by omega), if_pos ⟨by omega, hlast⟩]
    simp only [Timeline.map, Timeline.within]
  rw [if_neg hlast]
  have hpoint : Start.pointOf { day := anchor } (hit anchor interval j * secondsPerDay) =
      ⟨hit anchor interval j * microsPerDay, none⟩ := by
    have hday : microsPerDay = secondsPerDay * microsPerSecond := by decide
    rw [Start.pointOf, hday, Int.mul_assoc]
  have hstart : ¬ hit anchor interval j * microsPerDay < anchor.number * microsPerDay :=
    Int.not_lt.mpr (Int.mul_le_mul_of_nonneg_right (le_hit anchor interval j) (by decide))
  have hstop : stop.number * microsPerDay < hit anchor interval j * microsPerDay ↔
      stop.number < hit anchor interval j := Int.mul_lt_mul_right (by decide)
  rw [Timeline.map, hpoint, Timeline.within_hit rfl, if_neg hstart]
  by_cases hlate : (stop.number : Int) < hit anchor interval j
  · rw [if_pos hlate, if_pos (hstop.mpr hlate), if_neg fun hover => hlast hover.2]
  · rw [if_neg hlate, if_neg (hstop.not.mpr hlate)]

theorem hitsFrom_run (hinterval : 1 ≤ interval) {anchor stop : Day} {count : Nat}
    (hpast : (stop.number : Int) < hit anchor interval count)
    (hinside : ∀ j < count, hit anchor interval j ≤ stop.number) {fuel j : Nat} (hj : j ≤ count)
    (hfuel : count - j < fuel) (before : List Int) :
    hitsFrom anchor stop interval fuel j before =
      if Overshoots anchor interval count then
        .error (.yearRange (yearOf (lookFrom anchor interval count) + 1))
      else .ok (before.reverse ++ (List.range' j (count - j)).map fun i =>
        hit anchor interval i * microsPerDay) := by
  -- Each step takes one hit and leaves one less, so the fuel lasts up to the first past the end.
  induction fuel generalizing j before with
  | zero => omega
  | succ fuel ih =>
      rw [hitsFrom_succ hinterval]
      rcases Nat.lt_or_ge j count with hlt | hge
      · have hrange : List.range' j (count - j) = j :: List.range' (j + 1) (count - (j + 1)) := by
          rw [← List.range'_succ]
          congr 1
          omega
        rw [if_neg (Int.not_lt.mpr (hinside j hlt)), ih hlt (by omega), hrange]
        simp
      · obtain rfl : j = count := by omega
        rw [if_pos hpast]
        simp

theorem hitsFrom_start (hinterval : 1 ≤ interval) {anchor stop : Day} {count : Nat}
    (hpast : (stop.number : Int) < hit anchor interval count)
    (hinside : ∀ j < count, hit anchor interval j ≤ stop.number) :
    hitsFrom anchor stop interval Expansion.maxSteps 0 [] =
      if Overshoots anchor interval count then
        .error (.yearRange (yearOf (lookFrom anchor interval count) + 1))
      else .ok ((List.range count).map fun i => hit anchor interval i * microsPerDay) := by
  have hcount : count ≤ lastDayNumber := by
    rcases Nat.eq_zero_or_pos count with rfl | hpos
    · exact Nat.zero_le _
    · have hinside := hinside (count - 1) (by omega)
      have hsteps : ((count - 1 : Nat) : Int) ≤ interval * (count - 1 : Nat) :=
        le_mul_of_one_le_left (by omega) (by omega)
      have hanchor := anchor.one_le
      have hcalendar := stop.le_last
      rw [hit] at hinside
      omega
  have hfuel : count - 0 < Expansion.maxSteps := Nat.lt_of_le_of_lt hcount (by decide)
  rw [hitsFrom_run hinterval hpast hinside (Nat.zero_le count) hfuel, List.reverse_nil,
    List.nil_append, Nat.sub_zero, List.range_eq_range']

/-- The hits between a week before a weekly rotation and a week after it are those that come with
a multiple of the interval. -/
theorem window_weekly (hinterval : 1 ≤ interval) {anchor stop : Day} {count : Nat}
    (hwindow : (stop.number : Int) = anchor.number + 7 * (count + 1)) :
    stop.number < hit anchor interval ((count + 1) / interval + 1) ∧
      ∀ j < (count + 1) / interval + 1, hit anchor interval j ≤ stop.number := by
  constructor
  · have hmore : count + 1 < interval * ((count + 1) / interval + 1) :=
      Nat.lt_mul_div_succ _ (by omega)
    rw [hit]
    omega
  · intro j hj
    have hfew : interval * j ≤ count + 1 :=
      (Nat.mul_le_mul_left _ (by omega)).trans (Nat.mul_div_le (count + 1) interval)
    rw [hit]
    omega

theorem mem_daysOf_weekly (hinterval : 1 ≤ interval) {count i : Nat} {day : Day} (hi : i ≤ count)
    (hday : (day.number : Int) = anchor.number + 7 * (i + 1)) :
    day ∈ Override.daysOf ((List.range ((count + 1) / interval + 1)).map fun j =>
      hit anchor interval j * microsPerDay) ↔ interval ∣ i + 1 := by
  have hsame : ∀ j, hit anchor interval j = day.number ↔ i + 1 = interval * j := by
    intro j
    rw [hit, ← Nat.cast_inj (R := Int), Nat.cast_mul]
    omega
  simp only [Override.mem_daysOf, List.mem_map, List.mem_range]
  constructor
  · rintro ⟨_, ⟨j, -, rfl⟩, hday⟩
    rw [Int.mul_ediv_cancel _ (by decide)] at hday
    exact ⟨j, (hsame j).mp hday⟩
  · rintro ⟨j, hj⟩
    refine ⟨_, ⟨j, ?_, rfl⟩, ?_⟩
    · rw [Nat.lt_succ_iff, Nat.le_div_iff_mul_le (by omega), Nat.mul_comm, ← hj]
      omega
    · rw [Int.mul_ediv_cancel _ (by decide)]
      exact (hsame j).mpr hj

/-- As the calendar ends on a Friday, only hits on the next two days have their week in it. -/
theorem overshoots_iff (hj : j ≠ 0) : Overshoots anchor interval j ↔
    (lastDayNumber : Int) < hit anchor interval j ∧ hit anchor interval j ≤ lastDayNumber + 2 := by
  have hweekday := weekdayOf_hit anchor interval j
  simp only [Overshoots, lookFrom, if_neg hj, ← hweekday, weekdayOf, lastDayNumber]
  omega

theorem yearOf_lookFrom (hj : j ≠ 0) (h : Overshoots anchor interval j) :
    yearOf (lookFrom anchor interval j) = 9999 := by
  obtain ⟨hpast, hnear⟩ := (overshoots_iff hj).mp h
  have hweekday := weekdayOf_hit anchor interval j
  simp only [lookFrom, if_neg hj, ← hweekday, weekdayOf, lastDayNumber, yearOf] at *
  omega

end Rule

open Rule

/-- The first day past the window of a weekly rotation that a rule hits every so many weeks. -/
def nextHit (start : Day) (count interval : Nat) : Int :=
  start.number + 7 * (interval * ((count + 1) / interval + 1 : Nat) - 1)

def HitsPastCalendar (start : Day) (count interval : Nat) : Prop :=
  (lastDayNumber : Int) < nextHit start count interval ∧
    nextHit start count interval ≤ lastDayNumber + 2

instance (start : Day) (count interval : Nat) : Decidable (HitsPastCalendar start count interval) :=
  inferInstanceAs (Decidable (_ ∧ _))

/-- A single rule has all that it hits, and nothing is left out. -/
theorem Schedule.timeline_single (rule : Rule) (anchor : Day) :
    ({ rules := [rule] } : Schedule).timeline anchor =
      (rule.expandFrom { day := anchor }).timeline.map (Start.pointOf { day := anchor }) := by
  have hnone : gather { day := anchor } [] [] = .ended := rfl
  have hrule : gather { day := anchor } [rule] [] =
      ((rule.expandFrom { day := anchor }).timeline.map
        (Start.pointOf { day := anchor })).merge .ended := rfl
  simp only [timeline, Option.getD_none, hrule, hnone, Timeline.merge_ended,
    Timeline.exclude_ended]

namespace Override

variable {interval count : Nat} {start last : Day}

theorem readings_everyWeeks (interval : Nat) (size : Int) (anchor stop : Day) :
    (everyWeeks interval size).readings anchor stop =
      hitsFrom anchor stop interval Expansion.maxSteps 0 [] := by
  rw [readings, everyWeeks, Schedule.timeline_single, expandFrom_weekly]
  rfl

theorem occurrences_everyWeeks (hinterval : 1 ≤ interval) (size : Int) (hbefore : 7 < start.number)
    (hlast : (last.number : Int) = start.number + (count - 1) * 7)
    (hafter : last.number + 7 ≤ lastDayNumber) :
    (HitsPastCalendar start count interval →
      (everyWeeks interval size).occurrences start last = .error (.yearRange 10000)) ∧
    (¬ HitsPastCalendar start count interval →
      ∃ days, (everyWeeks interval size).occurrences start last = .ok days ∧
        ∀ (i : Nat) (day : Day), i < count → (day.number : Int) = start.number + i * 7 →
          (day ∈ days ↔ interval ∣ i + 1)) := by
  obtain ⟨anchor, hanchor⟩ : ∃ anchor, start.plus (-leadDays) = .ok anchor :=
    Day.exists_plus (by simp only [leadDays]; omega)
      (by have := start.le_last; simp only [leadDays]; omega)
  obtain ⟨stop, hstop⟩ : ∃ stop, last.plus leadDays = .ok stop :=
    Day.exists_plus (by simp only [leadDays]; omega) (by simp only [leadDays]; omega)
  have hlead := Day.plus_ok hanchor
  have htrail := Day.plus_ok hstop
  simp only [leadDays] at hlead htrail
  have hnext : nextHit start count interval =
      hit anchor interval ((count + 1) / interval + 1) := by
    rw [nextHit, hit]
    omega
  obtain ⟨hpast, hinside⟩ := window_weekly hinterval (show (stop.number : Int) =
    anchor.number + 7 * (count + 1) by omega)
  have hlater : (count + 1) / interval + 1 ≠ 0 := Nat.succ_ne_zero _
  rw [HitsPastCalendar, hnext, ← overshoots_iff hlater]
  have hreadings := (readings_everyWeeks interval size anchor stop).trans
    (hitsFrom_start hinterval hpast hinside)
  constructor
  · intro hover
    rw [if_pos hover, yearOf_lookFrom hlater hover] at hreadings
    rw [occurrences, hanchor, hstop]
    simp only [bind, Except.bind, hreadings]
    rfl
  · intro hover
    rw [if_neg hover] at hreadings
    exact ⟨_, occurrences_eq_ok_iff.mpr ⟨anchor, stop, _, hanchor, hstop, hreadings, rfl⟩,
      fun i day hi hday => mem_daysOf_weekly hinterval hi.le (by omega)⟩

end Override

open Rotation

theorem Shift.Follows.size_single {s : Shift} {o : Override} {size defaultSize : Int} {day : Day}
    {k : Nat} {hits : Bool} (hopen : o.closed = false) (hnobody : o.preallocated = [])
    (ho : o.size = some size) (hsize : 0 ≤ size) (hdefault : 0 ≤ defaultSize)
    (h : s.Follows (if hits then [o] else []) defaultSize day k) :
    s.size = if hits then size else defaultSize := by
  have happlied : ∀ applied ∈ if hits then [o] else [], applied.closed = false := by
    cases hits <;> simp [hopen]
  have hpeople : s.preallocated = [] := by
    rw [h.preallocated_eq happlied]
    cases hits <;> simp [hnobody]
  rw [h.size_eq happlied, hpeople]
  cases hits
  case false => simpa using hdefault
  case true => simpa [ho] using hsize

theorem buildShifts_everyWeeks {interval count : Nat} {size defaultSize : Int} {start last : Day}
    {dates days : List Day} (hsize : 1 ≤ size) (hdefault : 0 ≤ defaultSize)
    (hdates : shiftDates start count = .ok dates) (hlast : dates.getLast? = some last)
    (hdays : (everyWeeks interval size).occurrences start last = .ok days)
    (hhits : ∀ (i : Nat) (day : Day), i < count → (day.number : Int) = start.number + i * 7 →
      (day ∈ days ↔ interval ∣ i + 1)) :
    ∃ shifts, buildShifts dates defaultSize [everyWeeks interval size] = .ok shifts ∧
      shifts.map Shift.size = (List.range count).map fun i =>
        if interval ∣ i + 1 then size else defaultSize := by
  obtain ⟨hlength, hplaced⟩ := shiftDates_ok hdates
  have hfirst := (shiftDates_ends hdates (List.ne_nil_of_mem (List.mem_of_getLast? hlast))).1
  obtain ⟨shifts, hshifts⟩ := (buildShifts_single_ok_iff hdefault hfirst hlast).mpr ⟨days, hdays⟩
  refine ⟨shifts, hshifts, List.ext_getElem ?_ fun i hi hcount => ?_⟩
  · simpa [(buildShifts_ok hshifts).1] using hlength
  · have hi : i < count := by simpa using hcount
    obtain ⟨day, hday⟩ : ∃ day, dates[i]? = some day := ⟨_, List.getElem?_eq_getElem (by omega)⟩
    obtain ⟨s, hs, hfollows⟩ := buildShifts_follows hshifts hday
    rw [overridesOn_single hfirst hlast hdays] at hfollows
    have hsized := hfollows.size_single rfl rfl rfl (by omega) hdefault
    obtain ⟨_, rfl⟩ := List.getElem?_eq_some_iff.mp hs
    simp only [List.getElem_map, List.getElem_range, hsized, List.contains_iff_mem,
      hhits i day hi (hplaced i day hday)]

/-- Of the shifts of a weekly rotation, those whose place is a multiple of the interval have the
size of the override, unless the next hit after the window is one of the first two days past the
calendar, where nothing is built. -/
theorem every_kth_shift [DateReader] {interval count : Nat} {size defaultSize : Int} {start : Day}
    {dates : List Day} (hinterval : 1 ≤ interval) (hsize : 1 ≤ size) (hdefault : 0 ≤ defaultSize)
    (hdates : shiftDates start count = .ok dates)
    (hinside : ∀ day ∈ dates, 7 < day.number ∧ day.number + 7 ≤ lastDayNumber) :
    ∃ o, Override.make ("FREQ=WEEKLY;INTERVAL=" ++ toString interval) (some size) = .ok o ∧
      (count = 0 ∨ ¬ HitsPastCalendar start count interval →
        ∃ shifts, buildShifts dates defaultSize [o] = .ok shifts ∧
          shifts.map Shift.size = (List.range count).map fun i =>
            if interval ∣ i + 1 then size else defaultSize) ∧
      (count ≠ 0 → HitsPastCalendar start count interval →
        buildShifts dates defaultSize [o] = .error (.yearRange 10000)) := by
  refine ⟨everyWeeks interval size, make_everyWeeks interval hsize, ?_⟩
  have hlength := (shiftDates_ok hdates).1
  rcases Nat.eq_zero_or_pos count with rfl | hpositive
  · obtain rfl := List.length_eq_zero_iff.mp hlength
    exact ⟨fun _ => ⟨[], buildShifts_of_hitsOf hdefault rfl, rfl⟩, fun hzero => absurd rfl hzero⟩
  have hsome : dates ≠ [] := by
    rintro rfl
    rw [List.length_nil] at hlength
    omega
  obtain ⟨hfirst, last, hlast, hend⟩ := shiftDates_ends hdates hsome
  have hbefore := (hinside start (List.mem_of_mem_head? hfirst)).1
  have hafter := (hinside last (List.mem_of_getLast? hlast)).2
  obtain ⟨hpast, hbuilt⟩ :=
    Override.occurrences_everyWeeks hinterval size hbefore hend hafter
  refine ⟨fun hinside => ?_, fun _ hover => ?_⟩
  · obtain ⟨days, hdays, hhits⟩ := hbuilt (hinside.resolve_left hpositive.ne')
    exact buildShifts_everyWeeks hsize hdefault hdates hlast hdays hhits
  · exact buildShifts_single_error hdefault hfirst hlast (hpast hover)

open Sample in
theorem every_kth_shift_sample :
    ∃ o, Override.make ("FREQ=WEEKLY;INTERVAL=" ++ toString 2) (some 9) = .ok o ∧
      ∃ shifts, buildShifts [week 1, week 2, week 3] 4 [o] = .ok shifts ∧
        shifts.map Shift.size = [4, 9, 4] := by
  have hnear : ¬ HitsPastCalendar (week 1) 3 2 := by decide
  obtain ⟨o, ho, hbuilt, -⟩ := @every_kth_shift _ 2 3 9 4 (week 1) _ (by decide) (by decide)
    (by decide) shiftDates_weeks (by decide)
  exact ⟨o, ho, hbuilt (.inr hnear)⟩

namespace Sample

/-- The last Saturday that has two more in the calendar. -/
def saturday : Day := ⟨lastDayNumber - 13, by decide, by decide⟩

end Sample

open Sample in
theorem no_shifts_at_calendar_end :
    ∃ o dates, Override.make ("FREQ=WEEKLY;INTERVAL=" ++ toString 1) (some 9) = .ok o ∧
      shiftDates saturday 1 = .ok dates ∧
      (∀ day ∈ dates, 7 < day.number ∧ day.number + 7 ≤ lastDayNumber) ∧
      buildShifts dates 4 [o] = .error (.yearRange 10000) := by
  have hdates : shiftDates saturday 1 = .ok [saturday] :=
    toOption_eq_some_iff.mp (by decide +kernel)
  have hpast : HitsPastCalendar saturday 1 1 := by decide
  have hfault := (@Override.occurrences_everyWeeks 1 1 saturday saturday (by decide) 9 (by decide)
    (by decide) (by decide)).1 hpast
  exact ⟨everyWeeks 1 9, [saturday], make_everyWeeks 1 (by decide), hdates, by decide,
    buildShifts_single_error (by decide) rfl rfl hfault⟩

end Rostering
