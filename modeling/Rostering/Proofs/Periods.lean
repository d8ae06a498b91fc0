import Rostering.Proofs.Basic
import Rostering.Proofs.CivilDays
import Rostering.Recurrence.Expansion

namespace Rostering

open Calendar YearDay

/-! The periods of a rule come one after the other: each is a run of days, and the next starts no
earlier than this one's last day, unless it lies before the start altogether. -/

namespace Period

def days (p : Period) : List Int := p.offsets.map fun offset : Nat => firstDay p.year + offset

def Timed (p : Period) : Prop := ∀ time ∈ p.times, 0 ≤ time ∧ time < secondsPerDay

/-- A period of some days in a row. -/
def Spans (p : Period) (first : Int) (count : Nat) : Prop :=
  p.days = (List.range count).map fun i : Nat => first + i

theorem Spans.mem_iff {p : Period} {first : Int} {count : Nat} (hspans : p.Spans first count)
    {n : Int} : n ∈ p.days ↔ first ≤ n ∧ n < first + count := by
  rw [hspans, List.mem_map]
  constructor
  · rintro ⟨i, hi, rfl⟩
    have := List.mem_range.mp hi
    omega
  · intro hn
    exact ⟨(n - first).toNat, List.mem_range.mpr (by omega), by omega⟩

/-- No day of a period comes after one of a later period, those before the anchor apart. -/
def Precedes (anchor : Day) (p later : Period) : Prop :=
  ∀ n ∈ p.days, ∀ m ∈ later.days, (anchor.number : Int) ≤ m → n ≤ m

theorem Spans.precedes {anchor : Day} {p later : Period} {first next : Int} {count more : Nat}
    (hspans : p.Spans first count) (hlater : later.Spans next more)
    (hafter : first + count ≤ next + 1 ∨ next + more ≤ anchor.number) :
    p.Precedes anchor later := by
  intro n hn m hm hanchor
  have := hspans.mem_iff.mp hn
  have := hlater.mem_iff.mp hm
  omega

theorem Spans.pairwise {p : Period} {first : Int} {count : Nat} (hspans : p.Spans first count) :
    p.offsets.Pairwise (· < ·) := by
  have hdays : p.days.Pairwise (· < ·) := by
    rw [hspans, List.pairwise_map]
    exact List.pairwise_lt_range.imp fun h => by omega
  exact (List.pairwise_map.mp hdays).imp fun h => by omega

end Period

theorem secondOfDay_ok {hour minute second time : Int}
    (h : secondOfDay hour minute second = .ok time) : 0 ≤ time ∧ time < secondsPerDay := by
  unfold secondOfDay at h
  split at h
  · cases h
  · split at h
    · cases h
    · split at h
      · cases h
      · split at h
        · cases h
        · obtain rfl := Except.ok.inj h
          simp only [secondsPerDay]
          omega

theorem timesOfDay_ok {hours minutes seconds times : List Int}
    (h : timesOfDay hours minutes seconds = .ok times) {time : Int} (htime : time ∈ times) :
    0 ≤ time ∧ time < secondsPerDay := by
  obtain ⟨⟨_, _, _⟩, -, hsecond⟩ := (mem_of_mapM_eq_ok h).mp htime
  exact secondOfDay_ok hsecond

namespace Rule

variable {rule : Rule} {anchor : Day} {start : Start} {times : List Int} {k later : Nat}
  {p q : Period}

theorem daysFrom_spans {number : Int} {count : Nat} (h : daysFrom number count times = .period p) :
    p.Spans number count ∧ p.times = times := by
  have hfirst := daysBeforeYear_yearOf_lt number
  rw [daysFrom] at h
  split at h
  · cases h
  · obtain rfl := Step.period.inj h
    refine ⟨?_, rfl⟩
    rw [Period.Spans, Period.days, List.map_map]
    refine List.map_congr_left fun i _ => ?_
    simp only [Function.comp_apply, firstDay]
    omega

theorem yearlyPeriod_spans (h : rule.yearlyPeriod anchor times k = .period p) :
    p.times = times ∧ p.Spans (firstDay (anchor.civil.year + rule.interval * k))
      (yearLength (anchor.civil.year + rule.interval * k)) := by
  simp only [yearlyPeriod] at h
  split at h
  · cases h
  · split at h
    · cases h
    · obtain rfl := Step.period.inj h
      exact ⟨rfl, rfl⟩

/-- The months before a month, counted from year 0. -/
def monthsBefore (anchor : Day) (distance : Int) : Int :=
  12 * anchor.civil.year + anchor.civil.month - 1 + distance

theorem monthlyPeriod_spans (h : rule.monthlyPeriod anchor times k = .period p) :
    p.times = times ∧ ∃ (year : Int) (month : Nat), 1 ≤ month ∧ month ≤ 12 ∧
      12 * year + month - 1 = monthsBefore anchor (rule.interval * k) ∧
      p.Spans (firstDay year + daysBeforeMonth year month) (monthLength year month) := by
  simp only [monthlyPeriod] at h
  split at h
  · cases h
  · split at h
    · cases h
    · obtain rfl := Step.period.inj h
      refine ⟨rfl, monthsBefore anchor (rule.interval * k) / 12,
        (monthsBefore anchor (rule.interval * k) % 12).toNat + 1, ?_, ?_, ?_, ?_⟩
      · exact Nat.le_add_left 1 _
      · omega
      · omega
      · rw [Period.Spans, Period.days, List.map_map]
        refine List.map_congr_left fun i _ => ?_
        simp only [Function.comp_apply, monthsBefore]
        omega

/-- How many days of its week lie before the anchor. -/
def intoWeek (rule : Rule) (anchor : Day) : Nat := (anchor.weekday + 7 - rule.weekStart) % 7

theorem weeklyPeriod_spans (h : rule.weeklyPeriod anchor times k = .period p) :
    p.times = times ∧
      (k = 0 ∧ p.Spans anchor.number (7 - rule.intoWeek anchor) ∨
        k ≠ 0 ∧ 0 ≤ rule.interval ∧
          p.Spans (anchor.number - rule.intoWeek anchor + 7 * (rule.interval * k)) 7) := by
  simp only [weeklyPeriod] at h
  split at h
  · next hk =>
      obtain ⟨hspans, htimes⟩ := daysFrom_spans h
      exact ⟨htimes, .inl ⟨by omega, hspans⟩⟩
  · next hk =>
      split at h
      · cases h
      · next hinterval =>
          obtain ⟨hspans, htimes⟩ := daysFrom_spans h
          rw [Int.mul_assoc] at hspans
          exact ⟨htimes, .inr ⟨by omega, by omega, hspans⟩⟩

theorem dailyPeriod_spans (h : rule.dailyPeriod anchor times k = .period p) :
    p.times = times ∧ 0 ≤ rule.interval * k ∧ p.Spans (anchor.number + rule.interval * k) 1 := by
  rw [dailyPeriod] at h
  split at h
  · cases h
  · next hnonneg =>
      obtain ⟨hspans, htimes⟩ := daysFrom_spans h
      exact ⟨htimes, Int.not_lt.mp hnonneg, hspans⟩

theorem withinDayPeriod_spans {unit : Int} (h : rule.withinDayPeriod start unit k = .period p) :
    rule.stepTimes start (rule.stepSecond start unit k % secondsPerDay) = .ok p.times ∧
      0 ≤ rule.stepSecond start unit k ∧
      p.Spans (start.day.number + rule.stepSecond start unit k / secondsPerDay) 1 := by
  simp only [withinDayPeriod] at h
  split at h
  · cases h
  · next hnonneg =>
      split at h
      · cases h
      · next times htimes =>
          obtain ⟨hspans, rfl⟩ := daysFrom_spans h
          exact ⟨htimes, Int.not_lt.mp hnonneg, hspans⟩

theorem interval_mul_lt (hinterval : 0 < rule.interval) (hlt : k < later) :
    rule.interval * k < rule.interval * later :=
  Int.mul_lt_mul_of_pos_left (by omega) hinterval

theorem interval_mul_neg (hinterval : rule.interval < 0) (hlt : k < later) :
    rule.interval * later < 0 :=
  Int.mul_neg_of_neg_of_pos hinterval (by omega)

theorem yearlyPeriod_precedes (hinterval : rule.interval ≠ 0) (hlt : k < later)
    (hp : rule.yearlyPeriod anchor times k = .period p)
    (hq : rule.yearlyPeriod anchor times later = .period q) : p.Precedes anchor q := by
  refine (yearlyPeriod_spans hp).2.precedes (yearlyPeriod_spans hq).2 ?_
  simp only [firstDay]
  rcases Int.lt_or_gt_of_ne hinterval with hneg | hpos
  · have hlater := interval_mul_neg hneg hlt
    have hend := @yearEnd_le (anchor.civil.year + rule.interval * later) anchor.civil.year
      (by omega)
    have hstart : daysBeforeYear anchor.civil.year < anchor.number :=
      daysBeforeYear_yearOf_lt anchor.number
    omega
  · have hlater := interval_mul_lt hpos hlt
    have hend := @yearEnd_le (anchor.civil.year + rule.interval * k)
      (anchor.civil.year + rule.interval * later) (by omega)
    omega

/-- A month ends before any later one starts, be it of the same year or not. -/
theorem monthEnd_le_firstDay {year next : Int} {month following : Nat} (hmonth : 1 ≤ month)
    (hmonths : month ≤ 12) (hfollowing : 1 ≤ following)
    (hlt : 12 * year + month < 12 * next + following) (hlast : following ≤ 12) :
    firstDay year + daysBeforeMonth year month + monthLength year month ≤
      firstDay next + daysBeforeMonth next following := by
  simp only [firstDay]
  rcases Int.lt_or_le year next with hyear | hyear
  · have hend := yearEnd_le hyear
    have hsucc := daysBeforeMonth_succ year hmonth
    have hwithin := daysBeforeMonth_le_yearLength year (month + 1)
    omega
  · obtain rfl : year = next := by omega
    have hnext : month < following := by omega
    have hend := monthEnd_le year hmonth hnext
    omega

theorem monthlyPeriod_precedes (hinterval : rule.interval ≠ 0) (hlt : k < later)
    (hp : rule.monthlyPeriod anchor times k = .period p)
    (hq : rule.monthlyPeriod anchor times later = .period q) : p.Precedes anchor q := by
  obtain ⟨-, year, month, hmonth, hmonths, hbefore, hspans⟩ := monthlyPeriod_spans hp
  obtain ⟨-, next, following, hfollowing, hlast, hnext, hqspans⟩ := monthlyPeriod_spans hq
  refine hspans.precedes hqspans ?_
  obtain ⟨hnumber, hfirst, htwelve, hday⟩ := civilOf_number anchor.number
  rw [monthsBefore] at hbefore hnext
  rcases Int.lt_or_gt_of_ne hinterval with hneg | hpos
  · have hlater := interval_mul_neg hneg hlt
    have hahead : 12 * next + following < 12 * anchor.civil.year + anchor.civil.month := by omega
    have hend : firstDay next + daysBeforeMonth next following + monthLength next following ≤
        firstDay anchor.civil.year + daysBeforeMonth anchor.civil.year anchor.civil.month :=
      monthEnd_le_firstDay hfollowing hlast hfirst hahead htwelve
    have hanchor : daysBeforeYear anchor.civil.year +
        daysBeforeMonth anchor.civil.year anchor.civil.month + anchor.civil.day =
          anchor.number := hnumber
    have hdays : 1 ≤ anchor.civil.day := hday
    simp only [firstDay] at hend ⊢
    omega
  · have hlater := interval_mul_lt hpos hlt
    have hahead : 12 * year + month < 12 * next + following := by omega
    have hend := monthEnd_le_firstDay hmonth hmonths hfollowing hahead hlast
    omega

theorem weeklyPeriod_precedes (hinterval : rule.interval ≠ 0) (hlt : k < later)
    (hp : rule.weeklyPeriod anchor times k = .period p)
    (hq : rule.weeklyPeriod anchor times later = .period q) : p.Precedes anchor q := by
  have hinto : rule.intoWeek anchor < 7 := Nat.mod_lt _ (by omega)
  rcases (weeklyPeriod_spans hq).2 with ⟨hzero, -⟩ | ⟨-, hnonneg, hqspans⟩
  · omega
  · have hpositive : 0 < rule.interval := by omega
    have hlater := interval_mul_lt hpositive hlt
    rcases (weeklyPeriod_spans hp).2 with ⟨rfl, hspans⟩ | ⟨-, -, hspans⟩
    · exact hspans.precedes hqspans (by omega)
    · exact hspans.precedes hqspans (by omega)

theorem dailyPeriod_precedes (hinterval : rule.interval ≠ 0) (hlt : k < later)
    (hp : rule.dailyPeriod anchor times k = .period p)
    (hq : rule.dailyPeriod anchor times later = .period q) : p.Precedes anchor q := by
  obtain ⟨-, hnonneg, hqspans⟩ := dailyPeriod_spans hq
  refine (dailyPeriod_spans hp).2.2.precedes hqspans ?_
  rcases Int.lt_or_gt_of_ne hinterval with hneg | hpos
  · have := interval_mul_neg hneg hlt
    omega
  · have := interval_mul_lt hpos hlt
    omega

theorem stepSecond_lt {unit : Int} (hunit : 0 < unit) (hinterval : rule.interval < 0) :
    rule.stepSecond start unit k < secondsPerDay := by
  have hback : rule.interval * k * unit ≤ 0 :=
    Int.mul_nonpos_of_nonpos_of_nonneg
      (Int.mul_nonpos_of_nonpos_of_nonneg hinterval.le (Int.natCast_nonneg k)) hunit.le
  have hsecond := start.second.isLt
  simp only [stepSecond, secondsPerDay]
  omega

theorem withinDayPeriod_precedes {unit : Int} (hunit : 0 < unit) (hinterval : rule.interval ≠ 0)
    (hlt : k < later) (hp : rule.withinDayPeriod start unit k = .period p)
    (hq : rule.withinDayPeriod start unit later = .period q) : p.Precedes start.day q := by
  obtain ⟨-, hfirst, hspans⟩ := withinDayPeriod_spans hp
  obtain ⟨-, hnext, hqspans⟩ := withinDayPeriod_spans hq
  refine hspans.precedes hqspans (.inl ?_)
  rcases Int.lt_or_gt_of_ne hinterval with hneg | hpos
  · -- Steps back within the day of the start do not leave it.
    rw [Int.ediv_eq_zero_of_lt hfirst (stepSecond_lt hunit hneg),
      Int.ediv_eq_zero_of_lt hnext (stepSecond_lt hunit hneg)]
    omega
  · have hsteps : rule.stepSecond start unit k ≤ rule.stepSecond start unit later := by
      have := Int.mul_le_mul_of_nonneg_right (interval_mul_lt hpos hlt).le hunit.le
      simp only [stepSecond]
      omega
    have := Int.ediv_le_ediv (c := secondsPerDay) (by decide) hsteps
    omega

theorem stepTimes_ok {second : Int} (hsecond : 0 ≤ second ∧ second < secondsPerDay)
    (h : rule.stepTimes start second = .ok times) {time : Int} (htime : time ∈ times) :
    0 ≤ time ∧ time < secondsPerDay := by
  simp only [stepTimes] at h
  split at h
  · obtain rfl := Except.ok.inj h
    cases htime
  · split at h
    · exact timesOfDay_ok h htime
    · exact timesOfDay_ok h htime
    · obtain rfl := Except.ok.inj h
      obtain rfl := List.mem_singleton.mp htime
      exact hsecond

theorem withinDayPeriod_timed {unit : Int} (h : rule.withinDayPeriod start unit k = .period p) :
    p.Timed := fun _ htime =>
  stepTimes_ok ⟨Int.emod_nonneg _ (by decide), Int.emod_lt_of_pos _ (by decide)⟩
    (withinDayPeriod_spans h).1 htime

theorem expandFrom_timed (rule : Rule) (start : Start) :
    ∀ time ∈ (rule.expandFrom start).times, 0 ≤ time ∧ time < secondsPerDay := by
  intro time htime
  rw [expandFrom] at htime
  cases hday : rule.dayTimes start with
  | error fault => simp [hday, Except.toOption] at htime
  | ok times =>
      rw [hday] at htime
      exact timesOfDay_ok hday htime

theorem standingStep_ne_period : rule.standingStep anchor ≠ .period p := by
  rw [standingStep]
  split <;> exact fun h => nomatch h

end Rule

namespace Expansion

variable {e : Expansion} {k later : Nat} {p q : Period}

theorem periodAt_spans (h : e.periodAt k = .period p) : ∃ first count, p.Spans first count := by
  rw [periodAt] at h
  split at h
  · exact absurd h Rule.standingStep_ne_period
  · split at h
    case h_1 => exact ⟨_, _, (Rule.yearlyPeriod_spans h).2⟩
    case h_2 =>
      obtain ⟨-, _, _, -, -, -, hspans⟩ := Rule.monthlyPeriod_spans h
      exact ⟨_, _, hspans⟩
    case h_3 =>
      rcases (Rule.weeklyPeriod_spans h).2 with ⟨-, hspans⟩ | ⟨-, -, hspans⟩
      · exact ⟨_, _, hspans⟩
      · exact ⟨_, _, hspans⟩
    case h_4 => exact ⟨_, _, (Rule.dailyPeriod_spans h).2.2⟩
    all_goals exact ⟨_, _, (Rule.withinDayPeriod_spans h).2.2⟩

theorem periodAt_timed (htimes : ∀ time ∈ e.times, 0 ≤ time ∧ time < secondsPerDay)
    (h : e.periodAt k = .period p) : p.Timed := by
  have hown : p.times = e.times → p.Timed := fun heq time htime => htimes time (heq ▸ htime)
  rw [periodAt] at h
  split at h
  · exact absurd h Rule.standingStep_ne_period
  · split at h
    case h_1 => exact hown (Rule.yearlyPeriod_spans h).1
    case h_2 => exact hown (Rule.monthlyPeriod_spans h).1
    case h_3 => exact hown (Rule.weeklyPeriod_spans h).1
    case h_4 => exact hown (Rule.dailyPeriod_spans h).1
    all_goals exact Rule.withinDayPeriod_timed h

theorem periodAt_precedes (hlt : k < later) (hp : e.periodAt k = .period p)
    (hq : e.periodAt later = .period q) : p.Precedes e.start.day q := by
  rw [periodAt] at hp hq
  split at hq
  · exact absurd hq Rule.standingStep_ne_period
  · next hmoves =>
      have hinterval : e.rule.interval ≠ 0 := fun hzero => hmoves ⟨by omega, hzero⟩
      rw [if_neg fun h => hinterval h.2] at hp
      cases hfrequency : e.rule.frequency <;> rw [hfrequency] at hp hq
      case yearly => exact Rule.yearlyPeriod_precedes hinterval hlt hp hq
      case monthly => exact Rule.monthlyPeriod_precedes hinterval hlt hp hq
      case weekly => exact Rule.weeklyPeriod_precedes hinterval hlt hp hq
      case daily => exact Rule.dailyPeriod_precedes hinterval hlt hp hq
      all_goals exact Rule.withinDayPeriod_precedes (by decide) hinterval hlt hp hq

end Expansion

end Rostering
