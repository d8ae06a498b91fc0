import Rostering.Proofs.Hits

namespace Rostering

open Calendar

/-! A rule leaves the calendar, or fails, before it has made as many steps as the calendar has
seconds. So the bound on its steps is never met, and a higher one makes no difference. -/

namespace Rule

variable {rule : Rule} {anchor : Day} {start : Start} {times : List Int} {k : Nat} {p : Period}

theorem le_interval_mul (hinterval : 0 < rule.interval) (k : Nat) :
    (k : Int) ≤ rule.interval * k := by
  have := Int.mul_le_mul_of_nonneg_right (show 1 ≤ rule.interval by omega) (Int.natCast_nonneg k)
  omega

theorem interval_mul_le_neg (hinterval : rule.interval < 0) (k : Nat) :
    rule.interval * k ≤ -k := by
  have := Int.mul_le_mul_of_nonneg_right (show rule.interval ≤ -1 by omega) (Int.natCast_nonneg k)
  omega

theorem yearOf_inside (anchor : Day) : 1 ≤ anchor.civil.year ∧ anchor.civil.year ≤ 9999 := by
  have hfirst := anchor.one_le
  have hlast := anchor.le_last
  have hyear : anchor.civil.year = yearOf anchor.number := rfl
  rw [hyear]
  simp only [yearOf, lastDayNumber] at *
  omega

theorem le_last_of_daysFrom {number : Int} {count : Nat}
    (h : daysFrom number count times = .period p) : number ≤ lastDayNumber := by
  rw [daysFrom] at h
  split at h
  · cases h
  · next hinside => exact Int.not_lt.mp hinside

theorem yearlyPeriod_step_lt (hinterval : rule.interval ≠ 0)
    (h : rule.yearlyPeriod anchor times k = .period p) : k < lastDayNumber := by
  obtain ⟨hfirst, hlast⟩ := yearOf_inside anchor
  simp only [yearlyPeriod] at h
  split at h
  · cases h
  · split at h
    · cases h
    · rcases Int.lt_or_gt_of_ne hinterval with hneg | hpos
      · have := interval_mul_le_neg hneg k
        simp only [lastDayNumber]
        omega
      · have := le_interval_mul hpos k
        simp only [lastDayNumber]
        omega

theorem monthlyPeriod_step_lt (hinterval : rule.interval ≠ 0)
    (h : rule.monthlyPeriod anchor times k = .period p) : k < lastDayNumber := by
  obtain ⟨hfirst, hlast⟩ := yearOf_inside anchor
  obtain ⟨-, hmonth, hmonths, -⟩ := civilOf_number anchor.number
  have hcivil : 1 ≤ anchor.civil.month ∧ anchor.civil.month ≤ 12 := ⟨hmonth, hmonths⟩
  simp only [monthlyPeriod] at h
  split at h
  · cases h
  · split at h
    · cases h
    · rcases Int.lt_or_gt_of_ne hinterval with hneg | hpos
      · have := interval_mul_le_neg hneg k
        simp only [lastDayNumber]
        omega
      · have := le_interval_mul hpos k
        simp only [lastDayNumber]
        omega

theorem weeklyPeriod_step_le (hinterval : rule.interval ≠ 0)
    (h : rule.weeklyPeriod anchor times k = .period p) : k ≤ lastDayNumber := by
  have hanchor := anchor.one_le
  simp only [weeklyPeriod] at h
  split at h
  · omega
  · split at h
    · cases h
    · have hsteps := le_interval_mul (show 0 < rule.interval by omega) k
      have hlast := le_last_of_daysFrom h
      rw [Int.mul_assoc] at hlast
      omega

theorem dailyPeriod_step_lt (hinterval : rule.interval ≠ 0)
    (h : rule.dailyPeriod anchor times k = .period p) : k < lastDayNumber := by
  have hanchor := anchor.one_le
  rw [dailyPeriod] at h
  split at h
  · cases h
  · have hlast := le_last_of_daysFrom h
    rcases Int.lt_or_gt_of_ne hinterval with hneg | hpos
    · have := interval_mul_le_neg hneg k
      simp only [lastDayNumber]
      omega
    · have := le_interval_mul hpos k
      omega

theorem withinDayPeriod_step_lt {unit : Int} (hunit : 0 < unit) (hinterval : rule.interval ≠ 0)
    (h : rule.withinDayPeriod start unit k = .period p) : k < lastDayNumber * 86400 := by
  obtain ⟨-, hnonneg, -⟩ := withinDayPeriod_spans h
  have hsecond := start.second.isLt
  rcases Int.lt_or_gt_of_ne hinterval with hneg | hpos
  · have hback : rule.interval * k * unit ≤ -k := by
      have hsteps := Int.mul_le_mul_of_nonneg_right (interval_mul_le_neg hneg k) hunit.le
      have := Int.mul_le_mul_of_nonneg_left (show 1 ≤ unit by omega) (Int.natCast_nonneg k)
      rw [Int.neg_mul] at hsteps
      omega
    simp only [stepSecond] at hnonneg
    simp only [lastDayNumber]
    omega
  · have hahead : (k : Int) ≤ rule.stepSecond start unit k := by
      have hsteps := le_interval_mul hpos k
      have := Int.mul_le_mul_of_nonneg_left (show 1 ≤ unit by omega)
        (show 0 ≤ rule.interval * k by omega)
      simp only [stepSecond]
      omega
    have hanchor := start.day.one_le
    simp only [withinDayPeriod] at h
    split at h
    · cases h
    · split at h
      · cases h
      · have hlast := le_last_of_daysFrom h
        simp only [secondsPerDay] at hlast
        omega

end Rule

namespace Expansion

variable {e : Expansion} {p : Period}

theorem periodAt_step_lt {k : Nat} (h : e.periodAt k = .period p) : k < lastDayNumber * 86400 := by
  have hmany : lastDayNumber < lastDayNumber * 86400 := by decide
  rw [periodAt] at h
  split at h
  · exact absurd h Rule.standingStep_ne_period
  · next hmoves =>
      by_cases hzero : k = 0
      · omega
      have hinterval : e.rule.interval ≠ 0 := fun hstands => hmoves ⟨hzero, hstands⟩
      split at h
      case h_1 => exact (Rule.yearlyPeriod_step_lt hinterval h).trans hmany
      case h_2 => exact (Rule.monthlyPeriod_step_lt hinterval h).trans hmany
      case h_3 => exact (Rule.weeklyPeriod_step_le hinterval h).trans_lt hmany
      case h_4 => exact (Rule.dailyPeriod_step_lt hinterval h).trans hmany
      all_goals exact Rule.withinDayPeriod_step_lt (by decide) hinterval h

/-- While a step may find a period, the steps that are left reach past the last that does. -/
theorem walk_more {bound fuel k : Nat}
    (hbound : ∀ (k : Nat) (p : Period), e.periodAt k = .period p → k < bound)
    (hfuel : 0 < fuel) (henough : bound < k + fuel) (more : Nat) (count : Option Int) :
    e.walk (fuel + more) k count = e.walk fuel k count := by
  induction fuel generalizing k count with
  | zero => omega
  | succ fuel ih =>
      rw [Nat.add_right_comm, walk, walk]
      cases hperiod : e.periodAt k with
      | past => rfl
      | standing => rfl
      | fault cause => rfl
      | period p =>
          have hstep := hbound k p hperiod
          cases hdays : e.rule.daysIn p with
          | error cause => simp only [hdays]
          | ok days =>
              simp only [hdays]
              refine congrArg (e.takeHits · count _) (funext fun count => ?_)
              cases hafter : e.stepAfter k days with
              | error cause => rfl
              | ok later =>
                  have hlater := lt_stepAfter hafter
                  exact ih (by omega) (by omega) count

theorem timeline_eq_walk {fuel : Nat} (hfuel : maxSteps ≤ fuel) (e : Expansion) :
    e.timeline = e.walk fuel 0 e.rule.count := by
  have hmany : lastDayNumber * 86400 < maxSteps := by decide
  have henough : lastDayNumber * 86400 < 0 + maxSteps := (Nat.zero_add maxSteps).symm ▸ hmany
  rw [← Nat.add_sub_of_le hfuel, timeline]
  exact (walk_more (fun _ _ => periodAt_step_lt) (Nat.zero_lt_of_lt hmany) henough _ _).symm

end Expansion

end Rostering
