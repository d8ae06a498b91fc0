import Rostering.Proofs.Hits
import Rostering.Proofs.Refusals
import Rostering.Proofs.RuleLines
import Mathlib.Data.List.Forall2

namespace Rostering

open Text

/-! The days that an override hits do not depend on where the rotation ends: a longer rotation
begins with the shifts of the shorter one. -/

theorem exists_mapM_forall₂ {f g : α → Except ε β} {R : β → β → Prop} {xs : List α}
    (hrelated : ∀ x ∈ xs, ∀ b, g x = .ok b → ∃ a, f x = .ok a ∧ R a b) {bs : List β}
    (h : xs.mapM g = .ok bs) : ∃ as, xs.mapM f = .ok as ∧ List.Forall₂ R as bs := by
  induction xs generalizing bs with
  | nil =>
      rw [List.mapM_nil, pure_eq_ok] at h
      exact ⟨[], rfl, h ▸ .nil⟩
  | cons x rest ih =>
      simp only [List.mapM_cons, bind_eq_ok, pure_eq_ok] at h
      obtain ⟨b, hb, bs, hbs, rfl⟩ := h
      obtain ⟨a, ha, hab⟩ := hrelated x List.mem_cons_self b hb
      obtain ⟨as, has, hall⟩ := ih (fun y hy => hrelated y (List.mem_cons_of_mem _ hy)) hbs
      exact ⟨a :: as, by rw [List.mapM_cons, ha, has]; rfl, .cons hab hall⟩

namespace Day

theorem plus_ok {d later : Day} {distance : Int} (h : d.plus distance = .ok later) :
    (later.number : Int) = d.number + distance := by
  rw [plus] at h
  split at h
  · cases h
  · split at h
    · next day hday =>
        obtain rfl := Except.ok.inj h
        exact (ofNumber?_eq_some_iff.mp hday).symm
    · cases h

end Day

namespace Override

variable {o : Override} {first last later : Day}

/-- An override can be set out over a rotation: the calendar has a week before and after it, and in
between the rules and dates have their hits. -/
structure Expands (o : Override) (first last : Day) : Prop where
  before : leadDays < first.number
  after : last.number + leadDays ≤ lastDayNumber
  readings : ∀ anchor stop : Day, first.plus (-leadDays) = .ok anchor →
    last.plus leadDays = .ok stop → ∃ readings, o.readings anchor stop = .ok readings

theorem occurrences_eq_ok_iff {days : List Day} :
    o.occurrences first last = .ok days ↔ ∃ anchor stop readings,
      first.plus (-leadDays) = .ok anchor ∧ last.plus leadDays = .ok stop ∧
        o.readings anchor stop = .ok readings ∧ daysOf readings = days := by
  simp only [occurrences, bind_eq_ok, pure_eq_ok]
  exact ⟨fun ⟨anchor, hanchor, stop, hstop, readings, h⟩ =>
      ⟨anchor, stop, readings, hanchor, hstop, h⟩,
    fun ⟨anchor, stop, readings, hanchor, hstop, h⟩ =>
      ⟨anchor, hanchor, stop, hstop, readings, h⟩⟩

theorem occurrences_ok_iff :
    (∃ days, o.occurrences first last = .ok days) ↔ o.Expands first last := by
  constructor
  · rintro ⟨days, h⟩
    obtain ⟨anchor, stop, readings, hanchor, hstop, hreadings, -⟩ := occurrences_eq_ok_iff.mp h
    have hlead := Day.plus_ok hanchor
    have htrail := Day.plus_ok hstop
    refine ⟨?_, ?_, fun anchor' stop' hanchor' hstop' => ?_⟩
    · have := anchor.one_le
      omega
    · have := stop.le_last
      omega
    · obtain rfl := Except.ok.inj (hanchor.symm.trans hanchor')
      obtain rfl := Except.ok.inj (hstop.symm.trans hstop')
      exact ⟨readings, hreadings⟩
  · rintro ⟨hbefore, hafter, hexpands⟩
    obtain ⟨anchor, hanchor⟩ : ∃ anchor, first.plus (-leadDays) = .ok anchor :=
      Day.exists_plus (by omega) (by have := first.le_last; simp only [leadDays]; omega)
    obtain ⟨stop, hstop⟩ : ∃ stop, last.plus leadDays = .ok stop :=
      Day.exists_plus (by simp only [leadDays]; omega) (by omega)
    obtain ⟨readings, hreadings⟩ := hexpands anchor stop hanchor hstop
    exact ⟨_, occurrences_eq_ok_iff.mpr ⟨anchor, stop, readings, hanchor, hstop, hreadings, rfl⟩⟩

theorem mem_daysOf {readings : List Int} {day : Day} :
    day ∈ daysOf readings ↔ ∃ t ∈ readings, t / microsPerDay = day.number := by
  simp [daysOf, risingOnce, Day.ofNumber?_eq_some_iff]

/-- A window that ends earlier sees a part of the days, and all before the day of its end. -/
theorem occurrences_cut {wider : List Day} (hle : last.number ≤ later.number)
    (h : o.occurrences first later = .ok wider) :
    ∃ days, o.occurrences first last = .ok days ∧ days ⊆ wider ∧
      ∀ day : Day, (day.number : Int) < last.number + leadDays → (day ∈ days ↔ day ∈ wider) := by
  obtain ⟨anchor, stop, readings, hanchor, hstop, hreadings, rfl⟩ := occurrences_eq_ok_iff.mp h
  have htrail := Day.plus_ok hstop
  obtain ⟨final, hfinal⟩ : ∃ final, last.plus leadDays = .ok final :=
    Day.exists_plus (by simp only [leadDays]; omega) (by have := stop.le_last; omega)
  have hnumber := Day.plus_ok hfinal
  have hends : final.number * microsPerDay ≤ stop.number * microsPerDay := by
    have hle : (final.number : Int) ≤ stop.number := by omega
    exact Int.mul_le_mul_of_nonneg_right hle (by decide)
  obtain ⟨readings', hreadings', hfewer, hsame⟩ :=
    Timeline.within_narrower (o.schedule.timeline_rises anchor) hends hreadings
  refine ⟨daysOf readings', occurrences_eq_ok_iff.mpr
    ⟨anchor, final, readings', hanchor, hfinal, hreadings', rfl⟩, fun day hday => ?_,
    fun day hday => ?_⟩
  · obtain ⟨t, ht, hnumber⟩ := mem_daysOf.mp hday
    exact mem_daysOf.mpr ⟨t, hfewer ht, hnumber⟩
  · rw [mem_daysOf, mem_daysOf]
    -- Of the window's last day only the midnight lies within it, hence the days before that one.
    refine exists_congr fun t => and_congr_left fun ht => hsame t (Int.lt_of_not_ge fun hge => ?_)
    have hlate : (final.number : Int) ≤ t / microsPerDay :=
      (Int.le_ediv_iff_mul_le (by decide)).mpr hge
    rw [ht] at hlate
    omega

/-- The days that two windows from one first shift have in common. -/
theorem occurrences_narrower {wider : List Day} (hle : last.number ≤ later.number)
    (h : o.occurrences first later = .ok wider) :
    ∃ days, o.occurrences first last = .ok days ∧
      ∀ day : Day, (day.number : Int) < last.number + leadDays → (day ∈ days ↔ day ∈ wider) := by
  obtain ⟨days, hdays, -, hsame⟩ := occurrences_cut hle h
  exact ⟨days, hdays, hsame⟩

end Override

namespace Rotation

variable {dates more : List Day} {overrides : List Override}

theorem planOf_congr {size : Int} {day : Day} {hits hits' : List Hits}
    (h : List.Forall₂ (fun hit hit' => hit.1 = hit'.1 ∧ (day ∈ hit.2 ↔ day ∈ hit'.2)) hits hits') :
    planOf size hits day = planOf size hits' day := by
  rw [planOf, planOf]
  generalize ({ size } : Plan) = plan
  induction h generalizing plan with
  | nil => rfl
  | @cons hit hit' _ _ hhead _ ih =>
      obtain ⟨hsame, hday⟩ := hhead
      have htest : hit.2.contains day = hit'.2.contains day := by
        rw [Bool.eq_iff_iff, List.contains_iff_mem, List.contains_iff_mem, hday]
      rw [List.filter_cons, List.filter_cons, htest]
      split
      · rw [List.foldl_cons, List.foldl_cons, hsame]
        exact ih _
      · exact ih plan

theorem last_le_of_sorted {last later : Day}
    (hsorted : (dates ++ more).Pairwise fun day next => day.number ≤ next.number)
    (hlast : dates.getLast? = some last) (hlater : (dates ++ more).getLast? = some later) :
    last.number ≤ later.number := by
  rw [List.getLast?_append, hlast] at hlater
  cases hmore : more.getLast? with
  | none => simp_all
  | some day =>
      obtain rfl : day = later := by simpa [hmore] using hlater
      exact (List.pairwise_append.mp hsorted).2.2 last (List.mem_of_getLast? hlast) day
        (List.mem_of_getLast? hmore)

theorem le_last_of_sorted {last : Day}
    (hsorted : dates.Pairwise fun day next => day.number ≤ next.number)
    (hlast : dates.getLast? = some last) : ∀ day ∈ dates, day.number ≤ last.number := by
  obtain ⟨before, rfl⟩ := List.getLast?_eq_some_iff.mp hlast
  intro day hday
  rcases List.mem_append.mp hday with hday | hday
  · exact (List.pairwise_append.mp hsorted).2.2 day hday last (List.mem_singleton_self _)
  · rw [List.mem_singleton.mp hday]

/-- Every override can be set out over the rotation of some dates. -/
def Expands (dates : List Day) (overrides : List Override) : Prop :=
  ∀ o ∈ overrides, ∀ first last : Day, dates.head? = some first → dates.getLast? = some last →
    o.Expands first last

theorem exists_hitsOf (h : Expands dates overrides) :
    ∃ hits, hitsOf dates overrides = .ok hits := by
  rw [hitsOf]
  split
  · next first last hfirst hlast =>
      refine (FaultsOnly.mapM fun o ho => ?_).exists_ok
      obtain ⟨days, hdays⟩ := Override.occurrences_ok_iff.mpr (h o ho first last hfirst hlast)
      rw [hdays]
      exact .ok _
  · exact ⟨[], rfl⟩

/-- Over fewer dates overrides hit the same of them. -/
theorem hitsOf_narrower (hdates : dates ≠ [])
    (hsorted : (dates ++ more).Pairwise fun day next => day.number ≤ next.number)
    {wider : List Hits} (h : hitsOf (dates ++ more) overrides = .ok wider) :
    ∃ hits, hitsOf dates overrides = .ok hits ∧
      List.Forall₂ (fun hit hit' => hit.1 = hit'.1 ∧ ∀ day ∈ dates, day ∈ hit.2 ↔ day ∈ hit'.2)
        hits wider := by
  obtain ⟨first, hfirst⟩ : ∃ first, dates.head? = some first :=
    Option.ne_none_iff_exists'.mp (List.head?_eq_none_iff.not.mpr hdates)
  obtain ⟨last, hlast⟩ : ∃ last, dates.getLast? = some last :=
    Option.ne_none_iff_exists'.mp (List.getLast?_eq_none_iff.not.mpr hdates)
  obtain ⟨later, hlater⟩ : ∃ later, (dates ++ more).getLast? = some later :=
    Option.ne_none_iff_exists'.mp (by simp [hdates])
  have hwindow := last_le_of_sorted hsorted hlast hlater
  have hinside := le_last_of_sorted (List.pairwise_append.mp hsorted).1 hlast
  simp only [hitsOf, List.head?_append, hfirst, hlater, Option.some_or] at h
  simp only [hitsOf, hfirst, hlast]
  refine exists_mapM_forall₂ (fun o _ hit hhit => ?_) h
  simp only [bind_eq_ok, pure_eq_ok] at hhit
  obtain ⟨days, hdays, rfl⟩ := hhit
  obtain ⟨days', hdays', hsame⟩ := Override.occurrences_narrower hwindow hdays
  refine ⟨(o, days'), by rw [hdays']; rfl, rfl, fun day hday => hsame day ?_⟩
  have hle := hinside day hday
  simp only [Override.leadDays]
  omega

theorem buildShifts_of_hitsOf {size : Int} (hsize : 0 ≤ size) {hits : List Hits}
    (h : hitsOf dates overrides = .ok hits) :
    buildShifts dates size overrides =
      .ok (dates.zipIdx.map fun (day, i) => (planOf size hits day).shift day i) := by
  rw [buildShifts, if_neg (Int.not_lt.mpr hsize), h]
  rfl

theorem buildShifts_append {size : Int} (hsize : 0 ≤ size) (hdates : dates ≠ [])
    (hsorted : (dates ++ more).Pairwise fun day next => day.number ≤ next.number)
    (hexpands : Expands (dates ++ more) overrides) :
    ∃ shifts later, buildShifts dates size overrides = .ok shifts ∧
      buildShifts (dates ++ more) size overrides = .ok (shifts ++ later) ∧
      later.length = more.length := by
  obtain ⟨wider, hwider⟩ := exists_hitsOf hexpands
  obtain ⟨hits, hhits, hsame⟩ := hitsOf_narrower hdates hsorted hwider
  refine ⟨_, (more.zipIdx dates.length).map fun (day, i) => (planOf size wider day).shift day i,
    buildShifts_of_hitsOf hsize hhits, ?_, by simp⟩
  rw [buildShifts_of_hitsOf hsize hwider, List.zipIdx_append, List.map_append, Nat.zero_add]
  refine congrArg Except.ok (congrArg (· ++ _) (List.map_congr_left fun (day, i) hday => ?_))
  have hmem : day ∈ dates := List.fst_mem_of_mem_zipIdx hday
  exact congrArg (Plan.shift · day i)
    (planOf_congr (hsame.imp fun _ _ hhit => ⟨hhit.1, hhit.2 day hmem⟩)).symm

end Rotation

/-- Where a rotation ends has no influence on what overrides make of it up to there. An override
hits the same days before a week past the earlier of two ends, so that further dates at the end
leave the shifts of the dates before them as they are. -/
theorem longer_rotation_agrees :
    (∀ (o : Override) (first last later : Day), last.number ≤ later.number →
      o.Expands first later →
      ∃ days wider, o.occurrences first last = .ok days ∧ o.occurrences first later = .ok wider ∧
        ∀ day : Day, day.number < last.number + 7 → (day ∈ days ↔ day ∈ wider)) ∧
    ∀ (dates more : List Day) (size : Int) (overrides : List Override), dates ≠ [] →
      ((dates ++ more).Pairwise fun day next => day.number ≤ next.number) →
      Rotation.Expands (dates ++ more) overrides →
      (0 ≤ size → ∃ shifts later, buildShifts dates size overrides = .ok shifts ∧
        buildShifts (dates ++ more) size overrides = .ok (shifts ++ later) ∧
        later.length = more.length) ∧
      (size < 0 → buildShifts dates size overrides = .error (.defaultSize size) ∧
        buildShifts (dates ++ more) size overrides = .error (.defaultSize size)) := by
  refine ⟨fun o first last later hle hexpands => ?_,
    fun dates more size overrides hdates hsorted hexpands => ⟨fun hsize => ?_, fun hsize => ?_⟩⟩
  · obtain ⟨wider, hwider⟩ := Override.occurrences_ok_iff.mpr hexpands
    obtain ⟨days, hdays, hsame⟩ := Override.occurrences_narrower hle hwider
    refine ⟨days, wider, hdays, hwider, fun day hday => hsame day ?_⟩
    simp only [Override.leadDays]
    omega
  · exact Rotation.buildShifts_append hsize hdates hsorted hexpands
  · constructor <;> (rw [buildShifts, if_pos hsize]; rfl)

namespace Sample

theorem everyOther_expands : everyOther.Expands (week 1) (week 3) where
  before := by decide
  after := by decide
  readings anchor stop := varied_expands (.real .one) everyOther (List.mem_singleton_self _)
    (week 1) (week 3) anchor stop rfl rfl

/-- Every other week and in a week between, but not in one of the former. -/
def fortnights : Override where
  ruleText := "DTSTART:19170715\nRRULE:FREQ=WEEKLY;INTERVAL=2\nRDATE:19170722\nEXDATE:19170729"
  schedule :=
    { start := some { day := week 0 }
      rules := [{ frequency := .weekly, interval := 2 }]
      dates := [{ day := week 1 }]
      exDates := [{ day := week 2 }] }
  closed := true

theorem make_fortnights : Override.make fortnights.ruleText none [] true = .ok fortnights := by
  have hwords : words (upper fortnights.ruleText).toList = ["DTSTART:19170715".toList,
      "RRULE:FREQ=WEEKLY;INTERVAL=2".toList, "RDATE:19170722".toList,
      "EXDATE:19170729".toList] := by decide +kernel
  have hread : Schedule.ofText fortnights.ruleText = .ok fortnights.schedule :=
    Schedule.ofText_of_ofLines hwords (by decide +kernel) fun hmark =>
      absurd hmark (by decide +kernel)
  have hkept : Override.normalized fortnights.ruleText = fortnights.ruleText := by decide +kernel
  rw [Override.make_eq_ok_iff, hkept]
  exact ⟨⟨by decide, by simp⟩, rfl, hread, rfl, rfl, rfl⟩

theorem fortnights_expands : fortnights.Expands (week 1) (week 3) := by
  obtain ⟨days, hdays, -⟩ : ∃ days, fortnights.occurrences (week 1) (week 3) = .ok days ∧
      days.filter (· ∈ [week 1, week 2, week 3]) = [week 1] :=
    exists_ok_of_toOption_map (by decide +kernel)
  exact Override.occurrences_ok_iff.mp ⟨days, hdays⟩

end Sample

open Sample in
theorem longer_rotation_agrees_sample :
    Override.make fortnights.ruleText none [] true = .ok fortnights ∧
    (∃ days wider, fortnights.occurrences (week 1) (week 2) = .ok days ∧
      fortnights.occurrences (week 1) (week 3) = .ok wider ∧ (week 2 ∈ days ↔ week 2 ∈ wider)) ∧
    ∃ shifts later, buildShifts [week 1, week 2] 2 [everyOther, fortnights] = .ok shifts ∧
      buildShifts [week 1, week 2, week 3] 2 [everyOther, fortnights] = .ok (shifts ++ later) ∧
      later.length = 1 := by
  obtain ⟨hhits, hshifts⟩ := longer_rotation_agrees
  refine ⟨make_fortnights, ?_, ?_⟩
  · obtain ⟨days, wider, hdays, hwider, hsame⟩ :=
      hhits fortnights (week 1) (week 2) (week 3) (by decide) fortnights_expands
    exact ⟨days, wider, hdays, hwider, hsame (week 2) (by decide)⟩
  · refine (hshifts [week 1, week 2] [week 3] 2 [everyOther, fortnights] (by decide) (by decide) ?_).1
      (by decide)
    intro o ho first last hfirst hlast
    obtain rfl : week 1 = first := Option.some.inj hfirst
    obtain rfl : week 3 = last := Option.some.inj hlast
    rcases List.mem_cons.mp ho with rfl | ho
    · exact everyOther_expands
    · rw [List.mem_singleton.mp ho]
      exact fortnights_expands

end Rostering
