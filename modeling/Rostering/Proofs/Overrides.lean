import Rostering.Proofs.Seats
import Rostering.Proofs.Windows

namespace Rostering

/-! What overrides make of a rotation, told from those that hit a day taken together and not from
one after the other. -/

/-- Whether an override hits a day of a rotation from a first to a last shift. -/
def Override.hits (o : Override) (first last day : Day) : Bool :=
  (o.occurrences first last).toOption.any fun days => days.contains day

namespace Rotation

/-- The overrides that hit a day in the rotation of some dates, in their order. -/
def overridesOn (dates : List Day) (overrides : List Override) (day : Day) : List Override :=
  match dates.head?, dates.getLast? with
  | some first, some last => overrides.filter fun o => o.hits first last day
  | _, _ => []

variable {dates : List Day} {overrides : List Override}

/-- People are added as they come, so a person whom one override names twice is added once too. -/
theorem addNew_eraseDups (people more : List String) :
    addNew people.eraseDups more = (people ++ more).eraseDups := by
  induction more generalizing people with
  | nil => rw [List.append_nil, addNew, List.foldl_nil]
  | cons p rest ih =>
      have hstep : (if people.eraseDups.contains p then people.eraseDups
          else people.eraseDups ++ [p]) = (people ++ [p]).eraseDups := by
        rw [List.eraseDups_append]
        by_cases hp : p ∈ people <;> simp [List.removeAll, List.eraseDups_cons, hp]
      rw [addNew, List.foldl_cons, ← addNew, hstep, ih, List.append_assoc, List.singleton_append]

/-- Each part of a plan has its own law: the last size wins, people are joined, closing is for
good. -/
theorem foldl_apply_eq (applied : List Override) (size : Int) (people : List String)
    (closed : Bool) :
    applied.foldl Plan.apply ⟨size, people.eraseDups, closed⟩ =
      { size := (applied.filterMap Override.size).getLast?.getD size
        preallocated := (people ++ applied.flatMap Override.preallocated).eraseDups
        closed := closed || applied.any Override.closed } := by
  induction applied generalizing size people closed with
  | nil => simp
  | cons o rest ih =>
      have hsize : ((o :: rest).filterMap Override.size).getLast?.getD size =
          (rest.filterMap Override.size).getLast?.getD (o.size.getD size) := by
        cases ho : o.size <;> simp [ho, List.getLast?_cons]
      rw [List.foldl_cons, Plan.apply, addNew_eraseDups, ih, hsize, List.flatMap_cons,
        List.any_cons, List.append_assoc, Bool.or_assoc]

theorem hitsOf_ok_iff :
    (∃ hits, hitsOf dates overrides = .ok hits) ↔ ∀ first last : Day, dates.head? = some first →
      dates.getLast? = some last → ∀ o ∈ overrides, ∃ days, o.occurrences first last = .ok days := by
  constructor
  · rintro ⟨hits, h⟩ first last hfirst hlast o ho
    simp only [hitsOf, hfirst, hlast] at h
    obtain ⟨hit, hhit⟩ := exists_ok_of_mapM_eq_ok h ho
    obtain ⟨days, hdays, -⟩ := bind_eq_ok.mp hhit
    exact ⟨days, hdays⟩
  · intro hall
    exact exists_hitsOf fun o ho first last hfirst hlast =>
      Override.occurrences_ok_iff.mp (hall first last hfirst hlast o ho)

theorem map_fst_filter_hitsOf {hits : List Hits} (h : hitsOf dates overrides = .ok hits)
    (day : Day) :
    (hits.filter fun hit => hit.2.contains day).map Prod.fst = overridesOn dates overrides day := by
  cases hfirst : dates.head? with
  | none =>
      rw [hitsOf, hfirst] at h
      obtain rfl := Except.ok.inj h
      rw [overridesOn, hfirst]
      rfl
  | some first =>
      cases hlast : dates.getLast? with
      | none =>
          rw [hitsOf, hfirst, hlast] at h
          obtain rfl := Except.ok.inj h
          rw [overridesOn, hfirst, hlast]
          rfl
      | some last =>
          simp only [hitsOf, hfirst, hlast] at h
          simp only [overridesOn, hfirst, hlast]
          clear hfirst hlast
          induction overrides generalizing hits with
          | nil =>
              rw [List.mapM_nil, pure_eq_ok] at h
              simp [← h]
          | cons o rest ih =>
              simp only [List.mapM_cons, bind_eq_ok, pure_eq_ok] at h
              obtain ⟨_, ⟨days, hdays, rfl⟩, tail, htail, rfl⟩ := h
              have hhit : o.hits first last day = days.contains day := by
                rw [Override.hits, hdays]
                rfl
              rw [List.filter_cons, List.filter_cons, hhit, ← ih htail]
              split <;> rfl

theorem planOf_eq {hits : List Hits} (h : hitsOf dates overrides = .ok hits) (size : Int)
    (day : Day) :
    planOf size hits day =
      { size := ((overridesOn dates overrides day).filterMap Override.size).getLast?.getD size
        preallocated :=
          ((overridesOn dates overrides day).flatMap Override.preallocated).eraseDups
        closed := (overridesOn dates overrides day).any Override.closed } := by
  rw [planOf, ← List.foldl_map (f := Prod.fst) (g := Plan.apply), map_fst_filter_hitsOf h]
  exact foldl_apply_eq _ size [] false

end Rotation

/-- A new shift that follows the overrides that hit its day. -/
structure Shift.Follows (s : Shift) (applied : List Override) (defaultSize : Int) (day : Day)
    (index : Nat) : Prop where
  day_eq : s.day = day
  index_eq : s.index = index
  placements_eq : s.placements = []
  teamLead_eq : s.teamLead = none
  maleCount_eq : s.maleCount = 0
  closed : (∃ o ∈ applied, o.closed = true) → s.size = 0 ∧ s.preallocated = []
  preallocated_eq : (∀ o ∈ applied, o.closed = false) →
    s.preallocated = (applied.flatMap Override.preallocated).eraseDups
  size_eq : (∀ o ∈ applied, o.closed = false) →
    s.size = max ((applied.filterMap Override.size).getLast?.getD defaultSize)
      s.preallocated.length

open Rotation

theorem buildShifts_ok_iff {dates : List Day} {size : Int} {overrides : List Override}
    (hsize : 0 ≤ size) :
    (∃ shifts, buildShifts dates size overrides = .ok shifts) ↔
      ∃ hits, hitsOf dates overrides = .ok hits := by
  constructor
  · rintro ⟨shifts, h⟩
    simp only [buildShifts, check_eq_ok, bind_eq_ok] at h
    obtain ⟨-, hits, hhits, -⟩ := h
    exact ⟨hits, hhits⟩
  · rintro ⟨hits, hhits⟩
    exact ⟨_, buildShifts_of_hitsOf hsize hhits⟩

theorem buildShifts_follows {dates : List Day} {size : Int} {overrides : List Override}
    {shifts : List Shift} (h : buildShifts dates size overrides = .ok shifts) {k : Nat} {day : Day}
    (hday : dates[k]? = some day) :
    ∃ s, shifts[k]? = some s ∧ s.Follows (overridesOn dates overrides day) size day k := by
  simp only [buildShifts, check_eq_ok, bind_eq_ok, pure_eq_ok] at h
  obtain ⟨-, hits, hhits, rfl⟩ := h
  refine ⟨(planOf size hits day).shift day k, by simp [List.getElem?_zipIdx, hday], ?_⟩
  rw [planOf_eq hhits, Plan.shift]
  cases hclosed : (overridesOn dates overrides day).any Override.closed with
  | true =>
      obtain ⟨o, ho, hshut⟩ := List.any_eq_true.mp hclosed
      constructor
      case closed => exact fun _ => ⟨rfl, rfl⟩
      case preallocated_eq => exact fun hnone => absurd hshut (by simp [hnone o ho])
      case size_eq => exact fun hnone => absurd hshut (by simp [hnone o ho])
      all_goals rfl
  | false =>
      constructor
      case closed =>
        rintro ⟨o, ho, hshut⟩
        exact absurd hshut (List.any_eq_false.mp hclosed o ho)
      all_goals intros; rfl

variable {request : Request} {outcome : Outcome}

theorem generate_full_shift_eq (h : generate request = .ok outcome) :
    ∃ shifts, buildShifts request.dates request.defaultSize request.overrides = .ok shifts ∧
      ∀ (k : Nat) (s : Shift), shifts[k]? = some s → s.isFull = true →
        outcome.rota.shifts[k]? = some s := by
  obtain ⟨start, report, final, hprepare, hfill, rfl⟩ := generate_eq_ok_iff.mp h
  simp only [Request.prepare, bind_eq_ok, pure_eq_ok] at hprepare
  obtain ⟨_, -, _, -, shifts, hshifts, hpair⟩ := hprepare
  obtain ⟨rfl, -⟩ := Prod.mk.inj hpair
  exact ⟨shifts, hshifts, fun k s hs hfull => (Rota.fillShifts_picks hfill).full_shift_eq hs hfull⟩

/-- The issues of a generated rota that name a shift are those of the shift itself, or there is
somebody placed on it. -/
theorem generate_issue_on (h : generate request = .ok outcome) {k : Nat} {s : Shift}
    (hshift : outcome.rota.shifts[k]? = some s) {issue : Issue} (hissue : issue ∈ outcome.issues)
    (hindex : issue.shiftIndex = some (k : Int)) :
    issue ∈ Audit.shiftIssues s ∨ s.placements ≠ [] := by
  obtain ⟨_, -, -, houtcome⟩ := generate_ok h
  rw [houtcome] at hissue
  rcases Audit.of_mem_audit hissue hindex with ⟨t, ht, htk, hfound⟩ | ⟨g, hg, hheld, hclosed⟩
  · obtain ⟨j, hj⟩ := List.getElem?_of_mem ht
    obtain rfl : k = j := by
      have := generate_index_eq h hj
      omega
    exact Option.some.inj (hshift.symm.trans hj) ▸ hfound
  · exact absurd (((generate_coherent h).group_sound g hg).available _ hheld) hclosed

/-- A shift that has no seats and nobody on it gives an audit nothing to report. -/
theorem Audit.shiftIssues_seatless (day : Day) (index : Int) :
    shiftIssues { day, index, size := 0 } = [] := by
  simp [shiftIssues, sizeIssues, doubleBookings, distinctKeys, leadIssues, leadIds,
    Shift.currentSize, Shift.headcount, Shift.groupKeys]

theorem Shift.Follows.eq_seatless {s : Shift} {applied : List Override} {size : Int} {day : Day}
    {k : Nat} (hfollows : s.Follows applied size day k) (hclosed : ∃ o ∈ applied, o.closed = true) :
    s = { day, index := k, size := 0 } := by
  obtain ⟨day', index, size', placements, preallocated, teamLead, maleCount⟩ := s
  obtain ⟨rfl, rfl⟩ := hfollows.closed hclosed
  obtain rfl : day' = day := hfollows.day_eq
  obtain rfl : index = k := hfollows.index_eq
  obtain rfl : placements = [] := hfollows.placements_eq
  obtain rfl : teamLead = none := hfollows.teamLead_eq
  obtain rfl : maleCount = 0 := hfollows.maleCount_eq
  rfl

/-- Shifts are built wherever every override can be set out over the rotation, and each follows the
overrides that hit its day: closed by any of them, or else with all their people, each once, and
the last size given, raised to these people. A closed shift comes out of a run as it went in, and
no issue is reported on it. -/
theorem overrides_applied {size : Int} (hsize : 0 ≤ size) (dates : List Day)
    (overrides : List Override) :
    ((∃ shifts, buildShifts dates size overrides = .ok shifts) ↔
      ∀ first last : Day, dates.head? = some first → dates.getLast? = some last →
        ∀ o ∈ overrides, ∃ days, o.occurrences first last = .ok days) ∧
    (∀ shifts, buildShifts dates size overrides = .ok shifts → shifts.length = dates.length ∧
      ∀ (k : Nat) (day : Day), dates[k]? = some day → ∃ s, shifts[k]? = some s ∧
        s.Follows (overridesOn dates overrides day) size day k ∧
        (s.currentSize : Int) ≤ s.size) ∧
    ∀ (request : Request) (outcome : Outcome), request.dates = dates →
      request.defaultSize = size → request.overrides = overrides →
      generate request = .ok outcome → ∀ (k : Nat) (day : Day), dates[k]? = some day →
        (∃ o ∈ overridesOn dates overrides day, o.closed = true) →
        outcome.rota.shifts[k]? = some { day, index := k, size := 0 } ∧
          ∀ issue ∈ outcome.issues, issue.shiftIndex ≠ some (k : Int) := by
  refine ⟨(buildShifts_ok_iff hsize).trans hitsOf_ok_iff, fun shifts h => ?_, ?_⟩
  · obtain ⟨hlength, hprepared⟩ := buildShifts_ok h
    refine ⟨hlength, fun k day hday => ?_⟩
    obtain ⟨s, hs, hfollows⟩ := buildShifts_follows h hday
    refine ⟨s, hs, hfollows, ?_⟩
    have hroom := (hprepared k s hs).preallocated_le
    rwa [Shift.currentSize, hfollows.placements_eq]
  · rintro request outcome rfl rfl rfl h k day hday hclosed
    obtain ⟨shifts, hshifts, hkept⟩ := generate_full_shift_eq h
    obtain ⟨s, hs, hfollows⟩ := buildShifts_follows hshifts hday
    obtain rfl := hfollows.eq_seatless hclosed
    have hshift := hkept k _ hs rfl
    refine ⟨hshift, fun issue hissue hindex => ?_⟩
    rcases generate_issue_on h hshift hissue hindex with hown | hplaced
    · rw [Audit.shiftIssues_seatless] at hown
      cases hown
    · exact hplaced rfl

namespace Sample

def shut : Override where
  ruleText := "FREQ=MONTHLY;BYMONTHDAY=22"
  schedule := { rules := [{ frequency := .monthly, monthDays := [22] }] }
  closed := true

def crammed : Override where
  ruleText := "FREQ=WEEKLY;INTERVAL=2"
  schedule := { rules := [{ frequency := .weekly, interval := 2 }] }
  size := some 1
  preallocated := ["ada", "cy", "ada"]

def patched : Request where
  volunteers := [cy]
  responses := [⟨"cy", true, .empty⟩]
  dates := [week 1, week 2, week 1]
  defaultSize := 3
  overrides := [shut, pinning, crammed]

theorem prepare_patched : patched.prepare.toOption.map (·.1) =
    some { shifts := [⟨week 1, 0, 0, [], [], none, 0⟩, ⟨week 2, 1, 2, [], ["cy", "ada"], none, 0⟩,
             ⟨week 1, 2, 0, [], [], none, 0⟩]
           groups := [⟨"individual_cy", [cy], .ofList [0, 1, 2], [], 0⟩] } := by
  simp only [Request.prepare, resolve, Resolution.decisions,
    Resolution.groupKeys_eq_insertionSort]
  decide +kernel

theorem generate_patched : ∃ outcome, generate patched = .ok outcome ∧ outcome.rota =
    { shifts := [⟨week 1, 0, 0, [], [], none, 0⟩, ⟨week 2, 1, 2, [], ["cy", "ada"], none, 0⟩,
        ⟨week 1, 2, 0, [], [], none, 0⟩]
      groups := [⟨"individual_cy", [cy], .ofList [0, 1, 2], [], 0⟩] } :=
  exists_generate prepare_patched (by decide +kernel)

end Sample

open Sample in
theorem overrides_applied_sample :
    overridesOn patched.dates patched.overrides (week 1) = [shut, pinning] ∧
    ∃ shifts, buildShifts patched.dates 3 patched.overrides = .ok shifts ∧
      (∃ s, shifts[1]? = some s ∧ s.Follows [pinning, crammed] 3 (week 2) 1 ∧
        (s.currentSize : Int) ≤ s.size) ∧
      ∃ outcome, generate patched = .ok outcome ∧
        outcome.rota.shifts[2]? = some { day := week 1, index := 2, size := 0 } ∧
        ∀ issue ∈ outcome.issues, issue.shiftIndex ≠ some 2 := by
  have hfirst : overridesOn patched.dates patched.overrides (week 1) = [shut, pinning] := by
    decide +kernel
  have hsecond : overridesOn patched.dates patched.overrides (week 2) = [pinning, crammed] := by
    decide +kernel
  have hsize : (0 : Int) ≤ 3 := by decide
  obtain ⟨-, hbuilt, hrun⟩ := overrides_applied hsize patched.dates patched.overrides
  obtain ⟨outcome, h, -⟩ := generate_patched
  obtain ⟨shifts, hshifts, -⟩ := generate_full_shift_eq h
  obtain ⟨hempty, hclean⟩ := hrun patched outcome rfl rfl rfl h 2 (week 1) rfl
    ⟨shut, hfirst ▸ List.mem_cons_self, rfl⟩
  refine ⟨hfirst, shifts, hshifts, ?_, outcome, h, hempty, hclean⟩
  exact hsecond ▸ (hbuilt shifts hshifts).2 1 (week 2) rfl

end Rostering
