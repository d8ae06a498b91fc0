import Rostering.Proofs.Periods
import Rostering.Proofs.Timelines
import Rostering.Recurrence.Schedule

namespace Rostering

open YearDay

/-! The hits of a rule come day by day, and so do those of a schedule of rules and dates. -/

/-- Of two instants in a list, the later one falls on no earlier day. -/
def RisesByDay (instants : List (Except Fault Instant)) : Prop :=
  instants.Pairwise fun x y =>
    ∀ s t, x = .ok s → y = .ok t → s / secondsPerDay ≤ t / secondsPerDay

namespace Rule

variable {rule : Rule} {p : Period} {days : List Nat}

theorem instantOf_ok {year : Int} {offset : Nat} {time t : Int}
    (h : instantOf year offset time = .ok t) :
    t = (firstDay year + offset) * secondsPerDay + time := by
  simp only [instantOf] at h
  split at h
  · cases h
  · exact (Except.ok.inj h).symm

theorem instantOf_day {year : Int} {offset : Nat} {time t : Int}
    (htime : 0 ≤ time ∧ time < secondsPerDay) (h : instantOf year offset time = .ok t) :
    t / secondsPerDay = firstDay year + offset := by
  rw [instantOf_ok h, Int.add_comm, Int.add_mul_ediv_right _ _ (by decide),
    Int.ediv_eq_zero_of_lt htime.1 htime.2, Int.zero_add]

theorem daysIn_sublist (h : rule.daysIn p = .ok days) : days.Sublist p.offsets := by
  simp only [daysIn, check_eq_ok, bind_eq_ok, pure_eq_ok] at h
  obtain ⟨-, _, -, _, -, rfl⟩ := h
  exact List.filter_sublist

theorem mem_of_itemAt? {items : List α} {position : Int} {item : α}
    (h : itemAt? items position = some item) : item ∈ items := by
  rw [itemAt?] at h
  split at h
  · exact List.mem_of_getElem? h
  · split at h
    · exact List.mem_of_getElem? h
    · cases h

theorem atPosition?_mem {times : List Int} {position : Int} {day : Nat} {time : Int}
    (h : atPosition? days times position = some (day, time)) : day ∈ days ∧ time ∈ times := by
  simp only [atPosition?] at h
  split at h
  · next hday htime =>
      obtain ⟨rfl, rfl⟩ := Prod.mk.inj (Option.some.inj h)
      exact ⟨mem_of_itemAt? hday, mem_of_itemAt? htime⟩
  · cases h

/-- Every instant of a period falls on one of the days that were chosen. -/
theorem instantsOf_day (htimed : p.Timed) {t : Instant} (h : .ok t ∈ rule.instantsOf p days) :
    ∃ offset ∈ days, t / secondsPerDay = firstDay p.year + offset := by
  simp only [instantsOf] at h
  split at h
  · obtain ⟨offset, hoffset, h⟩ := List.mem_flatMap.mp h
    obtain ⟨time, htime, h⟩ := List.mem_map.mp h
    exact ⟨offset, hoffset, instantOf_day (htimed time htime) h⟩
  · split at h
    · next instants hinstants =>
        obtain ⟨t', ht, heq⟩ := List.mem_map.mp h
        obtain rfl := Except.ok.inj heq
        have hmem : t' ∈ instants := by simpa [risingOnce] using ht
        obtain ⟨⟨day, time⟩, hchosen, hinstant⟩ := (mem_of_mapM_eq_ok hinstants).mp hmem
        obtain ⟨position, -, hposition⟩ := List.mem_filterMap.mp hchosen
        obtain ⟨hday, htime⟩ := atPosition?_mem hposition
        exact ⟨day, hday, instantOf_day (htimed time htime) hinstant⟩
    · simp at h

theorem instantsOf_rises (htimed : p.Timed) (hdays : days.Pairwise (· < ·)) :
    RisesByDay (rule.instantsOf p days) := by
  simp only [RisesByDay, instantsOf]
  split
  · rw [List.pairwise_flatMap]
    constructor
    · intro day _
      rw [List.pairwise_map]
      refine List.pairwise_of_forall_mem_list fun first hfirst second hsecond s t hs ht => ?_
      rw [instantOf_day (htimed first hfirst) hs, instantOf_day (htimed second hsecond) ht]
    · refine hdays.imp fun {day next} hlt x hx y hy s t hs ht => ?_
      obtain ⟨time, htime, rfl⟩ := List.mem_map.mp hx
      obtain ⟨time', htime', rfl⟩ := List.mem_map.mp hy
      rw [instantOf_day (htimed time htime) hs, instantOf_day (htimed time' htime') ht]
      omega
  · split
    · next instants _ =>
        rw [List.pairwise_map]
        refine (IndexSet.ofList instants).ascending.imp fun hlt s t hs ht => ?_
        obtain rfl := Except.ok.inj hs
        obtain rfl := Except.ok.inj ht
        exact Int.ediv_le_ediv (by decide) hlt.le
    · exact List.pairwise_singleton _ _

end Rule

theorem Start.midnight_le_instant (start : Start) :
    start.day.number * secondsPerDay ≤ start.instant :=
  Int.le_add_of_nonneg_right (Int.natCast_nonneg _)

namespace Expansion

variable {e : Expansion} {k fuel : Nat} {count : Option Int} {p : Period} {days : List Nat}

section

variable {next : Option Int → Timeline Instant} {instants : List (Except Fault Instant)}

theorem all_takeHits {P : Instant → Prop}
    (hinstants : ∀ t, .ok t ∈ instants → e.start.instant ≤ t → P t)
    (hnext : ∀ count, (next count).All P) : (e.takeHits next count instants).All P := by
  induction instants generalizing count with
  | nil => exact hnext count
  | cons first rest ih =>
      have hrest {count : Option Int} : (e.takeHits next count rest).All P :=
        ih fun t ht => hinstants t (List.mem_cons_of_mem _ ht)
      cases first with
      | error cause => trivial
      | ok t =>
          rw [takeHits]
          split
          · trivial
          · trivial
          · split
            · exact hrest
            · next hstart =>
                split
                · trivial
                · exact ⟨hinstants t List.mem_cons_self (Int.not_lt.mp hstart), hrest⟩

theorem pairwise_takeHits (hrises : RisesByDay instants)
    (hnext : ∀ count, (next count).Pairwise fun s t => s / secondsPerDay ≤ t / secondsPerDay)
    (hafter : ∀ t, .ok t ∈ instants → ∀ count,
      (next count).All fun t' => t / secondsPerDay ≤ t' / secondsPerDay) :
    (e.takeHits next count instants).Pairwise fun s t => s / secondsPerDay ≤ t / secondsPerDay := by
  induction instants generalizing count with
  | nil => exact hnext count
  | cons first rest ih =>
      obtain ⟨hfirst, hrest⟩ := List.pairwise_cons.mp hrises
      have hlater {count : Option Int} : (e.takeHits next count rest).Pairwise fun s t =>
          s / secondsPerDay ≤ t / secondsPerDay :=
        ih hrest fun t ht => hafter t (List.mem_cons_of_mem _ ht)
      cases first with
      | error cause => trivial
      | ok t =>
          rw [takeHits]
          split
          · trivial
          · trivial
          · split
            · exact hlater
            · split
              · trivial
              · refine ⟨all_takeHits (fun t' ht' _ => hfirst _ ht' t t' rfl rfl) ?_, hlater⟩
                exact hafter t List.mem_cons_self

end

theorem lt_stepAfter {later : Nat} (h : e.stepAfter k days = .ok later) : k < later := by
  rw [stepAfter] at h
  split at h
  · obtain rfl := Except.ok.inj h
    exact Nat.lt_succ_self k
  · next unit _ =>
      split at h
      · cases h
      · split at h
        · cases h
        · split at h
          · cases hsteps : e.stepsToDayEnd unit k with
            | error cause => simp [hsteps] at h
            | ok steps =>
                simp only [hsteps, Except.map_ok, Except.ok.injEq] at h
                omega
          · obtain rfl := Except.ok.inj h
            exact Nat.lt_succ_self k

/-- What a walk does at a step: it is over, or it takes hits from a period and goes on at a later
step. -/
theorem walk_succ_cases (e : Expansion) (fuel k : Nat) (count : Option Int) :
    e.walk (fuel + 1) k count = .ended ∨
    (∃ cause, e.walk (fuel + 1) k count = .broken cause) ∨
    ∃ p days next, e.periodAt k = .period p ∧ e.rule.daysIn p = .ok days ∧
      e.walk (fuel + 1) k count = e.takeHits next count (e.rule.instantsOf p days) ∧
      ∀ count, (∃ cause, next count = .broken cause) ∨
        ∃ later, k < later ∧ next count = e.walk fuel later count := by
  rw [walk]
  cases hperiod : e.periodAt k with
  | past => exact .inl rfl
  | standing =>
      by_cases hcount : count = e.rule.count
      · exact .inr (.inl ⟨_, if_pos hcount⟩)
      · exact .inl (if_neg hcount)
  | fault cause => exact .inr (.inl ⟨cause, rfl⟩)
  | period p =>
      cases hdays : e.rule.daysIn p with
      | error cause => exact .inr (.inl ⟨cause, by simp only [hdays]⟩)
      | ok days =>
          simp only [hdays]
          refine .inr (.inr ⟨p, days, _, rfl, hdays, rfl, fun count => ?_⟩)
          cases hafter : e.stepAfter k days with
          | error cause => exact .inl ⟨cause, rfl⟩
          | ok later => exact .inr ⟨later, lt_stepAfter hafter, rfl⟩

/-- An instant falls on a day of the k-th period or a later one, at the start or after it. -/
def Reaches (e : Expansion) (k : Nat) (t : Instant) : Prop :=
  e.start.instant ≤ t ∧ ∃ later, k ≤ later ∧ ∃ p, e.periodAt later = .period p ∧
    t / secondsPerDay ∈ p.days

theorem Reaches.mono {k later : Nat} {t : Instant} (hle : k ≤ later) (h : e.Reaches later t) :
    e.Reaches k t := by
  obtain ⟨hstart, further, hfurther, hday⟩ := h
  exact ⟨hstart, further, hle.trans hfurther, hday⟩

theorem Reaches.day_le {later : Nat} {t : Instant} {n : Int} (hlt : k < later)
    (h : e.Reaches later t) (hperiod : e.periodAt k = .period p) (hn : n ∈ p.days) :
    n ≤ t / secondsPerDay := by
  obtain ⟨hstart, further, hfurther, q, hq, hday⟩ := h
  exact periodAt_precedes (hlt.trans_le hfurther) hperiod hq n hn _ hday
    ((Int.le_ediv_iff_mul_le (by decide)).mpr (e.start.midnight_le_instant.trans hstart))

variable (htimes : ∀ time ∈ e.times, 0 ≤ time ∧ time < secondsPerDay)

include htimes

theorem mem_days_of_instantsOf (hperiod : e.periodAt k = .period p)
    (hdays : e.rule.daysIn p = .ok days) {t : Instant}
    (ht : .ok t ∈ e.rule.instantsOf p days) : t / secondsPerDay ∈ p.days := by
  obtain ⟨offset, hoffset, hday⟩ := Rule.instantsOf_day (periodAt_timed htimes hperiod) ht
  rw [hday]
  exact List.mem_map.mpr ⟨offset, (Rule.daysIn_sublist hdays).subset hoffset, rfl⟩

theorem periodAt_rises (hperiod : e.periodAt k = .period p)
    (hdays : e.rule.daysIn p = .ok days) : RisesByDay (e.rule.instantsOf p days) := by
  obtain ⟨_, _, hspans⟩ := periodAt_spans hperiod
  exact Rule.instantsOf_rises (periodAt_timed htimes hperiod)
    (hspans.pairwise.sublist (Rule.daysIn_sublist hdays))

theorem all_walk (fuel k : Nat) (count : Option Int) :
    (e.walk fuel k count).All (e.Reaches k) := by
  induction fuel generalizing k count with
  | zero => trivial
  | succ fuel ih =>
      rcases walk_succ_cases e fuel k count with
        hover | ⟨cause, hbroken⟩ | ⟨p, days, next, hperiod, hdays, htake, hnext⟩
      · rw [hover]
        trivial
      · rw [hbroken]
        trivial
      · rw [htake]
        refine all_takeHits (fun t ht hstart => ⟨hstart, k, Nat.le_refl k, p, hperiod,
          mem_days_of_instantsOf htimes hperiod hdays ht⟩) fun count => ?_
        rcases hnext count with ⟨cause, hbroken⟩ | ⟨later, hlater, hwalk⟩
        · rw [hbroken]
          trivial
        · rw [hwalk]
          exact (ih later count).imp fun _ => Reaches.mono hlater.le

/-- What comes from later periods falls on no earlier day than what a period offers. -/
theorem pairwise_walk (fuel k : Nat) (count : Option Int) :
    (e.walk fuel k count).Pairwise fun s t => s / secondsPerDay ≤ t / secondsPerDay := by
  induction fuel generalizing k count with
  | zero => trivial
  | succ fuel ih =>
      rcases walk_succ_cases e fuel k count with
        hover | ⟨cause, hbroken⟩ | ⟨p, days, next, hperiod, hdays, htake, hnext⟩
      · rw [hover]
        trivial
      · rw [hbroken]
        trivial
      · rw [htake]
        refine pairwise_takeHits (periodAt_rises htimes hperiod hdays) (fun count => ?_)
          fun t ht count => ?_
        · rcases hnext count with ⟨cause, hbroken⟩ | ⟨later, -, hwalk⟩
          · rw [hbroken]
            trivial
          · rw [hwalk]
            exact ih later count
        · rcases hnext count with ⟨cause, hbroken⟩ | ⟨later, hlater, hwalk⟩
          · rw [hbroken]
            trivial
          · rw [hwalk]
            refine (all_walk htimes fuel later count).imp fun t' ht' => ht'.day_le hlater hperiod ?_
            exact mem_days_of_instantsOf htimes hperiod hdays ht

end Expansion

theorem Start.pointOf_day (start : Start) (t : Instant) :
    (start.pointOf t).day = t / secondsPerDay := by
  have hday : microsPerDay = secondsPerDay * microsPerSecond := by decide
  rw [Point.day, Start.pointOf, hday]
  exact Int.mul_ediv_mul_of_pos_left _ _ (by decide)

theorem Rule.timeline_rises (rule : Rule) (start : Start) :
    ((rule.expandFrom start).timeline.map start.pointOf).Rises := by
  rw [Timeline.Rises, Timeline.pairwise_map]
  refine (Expansion.pairwise_walk (expandFrom_timed rule start) _ _ _).imp fun s t hle hzone => ?_
  rw [Start.pointOf_day, Start.pointOf_day]
  exact ⟨hzone, hle⟩

namespace Schedule

theorem insertPoint_ok {p : Point} {points inserted : List Point}
    (h : insertPoint p points = .ok inserted) (hpoints : points.Pairwise Point.DayLE) :
    inserted.Pairwise Point.DayLE ∧ ∀ q : Point, q.DayLE p → (∀ r ∈ points, q.DayLE r) →
      ∀ r ∈ inserted, q.DayLE r := by
  induction points generalizing inserted with
  | nil =>
      obtain rfl := Except.ok.inj h
      exact ⟨List.pairwise_singleton _ _, by simp⟩
  | cons first rest ih =>
      obtain ⟨hfirst, hrest⟩ := List.pairwise_cons.mp hpoints
      simp only [insertPoint, bind_eq_ok] at h
      obtain ⟨earlier, hlt, h⟩ := h
      cases earlier with
      | true =>
          simp only [if_true, bind_eq_ok, pure_eq_ok] at h
          obtain ⟨tail, htail, rfl⟩ := h
          obtain ⟨hsorted, hbounds⟩ := ih htail hrest
          refine ⟨List.pairwise_cons.mpr
            ⟨hbounds first (Point.DayLE.of_lt hlt) hfirst, hsorted⟩, fun q hp hq r hr => ?_⟩
          rcases List.mem_cons.mp hr with rfl | hr
          · exact hq r List.mem_cons_self
          · exact hbounds q hp (fun r hr => hq r (List.mem_cons_of_mem _ hr)) r hr
      | false =>
          obtain rfl := pure_eq_ok.mp h
          have hbefore := Point.DayLE.of_not_lt hlt
          refine ⟨List.pairwise_cons.mpr ⟨fun r hr => ?_, hpoints⟩, fun q hp hq r hr => ?_⟩
          · rcases List.mem_cons.mp hr with rfl | hr
            · exact hbefore
            · exact hbefore.trans (hfirst r hr)
          · rcases List.mem_cons.mp hr with rfl | hr
            · exact hp
            · exact hq r hr

theorem sorted_rises {stamps : List Stamp} {points : List Point}
    (h : sorted stamps = .ok points) : points.Pairwise Point.DayLE := by
  induction stamps generalizing points with
  | nil =>
      obtain rfl := Except.ok.inj h
      exact .nil
  | cons stamp rest ih =>
      rw [sorted, List.foldrM_cons] at h
      obtain ⟨tail, htail, hinsert⟩ := bind_eq_ok.mp h
      exact (insertPoint_ok hinsert (ih htail)).1

theorem gather_rises (start : Start) (rules : List Rule) (dates : List Stamp) :
    (gather start rules dates).Rises := by
  refine Timeline.rises_mergeAll fun timeline htimeline => ?_
  rcases List.mem_cons.mp htimeline with rfl | hrule
  · cases hdates : sorted dates with
    | error cause => trivial
    | ok points => exact Timeline.pairwise_ofList (sorted_rises hdates)
  · obtain ⟨rule, -, rfl⟩ := List.mem_map.mp hrule
    exact rule.timeline_rises start

theorem timeline_rises (s : Schedule) (anchor : Day) : (s.timeline anchor).Rises :=
  (gather_rises _ _ _).exclude

end Schedule

end Rostering
