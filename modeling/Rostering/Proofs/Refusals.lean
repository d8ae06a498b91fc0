import Rostering.Proofs.Measured
import Mathlib.Algebra.Order.Field.Basic
import Mathlib.Algebra.Order.Field.Rat

namespace Rostering

/-! Which requests are refused, and why. Once past its checks and its roster a request has an
outcome: nothing that a run comes to can stop it. -/

namespace Number

def InUnit (target : Number) : Prop := ∃ q, target.value? = some q ∧ 0 < q ∧ q ≤ 1

theorem isTarget_iff_inUnit {target : Number} : target.IsTarget ↔ target.InUnit := by
  have hunit : (0 : Rat) < Binary64.stepsPerUnit := Nat.cast_pos.mpr Binary64.stepsPerUnit_pos
  constructor
  · intro htarget
    cases target with
    | int n =>
        obtain rfl := htarget.int_eq
        exact ⟨1, rfl, by decide, by decide⟩
    | real x =>
        obtain ⟨_, ⟨-⟩, hfrequency⟩ := htarget
        obtain ⟨steps, rfl, hpositive, hle⟩ := Fairness.isFrequency_iff.mp hfrequency
        refine ⟨(steps : Int) / Binary64.stepsPerUnit, rfl, div_pos ?_ hunit, ?_⟩
        · exact_mod_cast hpositive
        · rw [div_le_one hunit]
          exact_mod_cast hle
  · rintro ⟨q, hvalue, hpositive, hle⟩
    cases target with
    | int n =>
        obtain rfl : (n : Rat) = q := Option.some.inj hvalue
        obtain rfl : n = 1 := by
          have hfirst : 0 < n := by exact_mod_cast hpositive
          have hsecond : n ≤ 1 := by exact_mod_cast hle
          omega
        exact ⟨.one, toOption_eq_some_iff.mp (by decide +kernel), by decide +kernel⟩
    | real x =>
        cases x with
        | nan => cases hvalue
        | infinite negative => cases hvalue
        | finite negative steps =>
            obtain rfl := Option.some.inj hvalue
            rw [div_pos_iff_of_pos_right hunit] at hpositive
            rw [div_le_one hunit] at hle
            have hfirst : 0 < Binary64.signedSteps negative steps := by exact_mod_cast hpositive
            have hsecond : Binary64.signedSteps negative steps ≤ Binary64.stepsPerUnit := by
              exact_mod_cast hle
            refine ⟨_, rfl, Fairness.isFrequency_iff.mpr ⟨steps, ?_⟩⟩
            cases negative with
            | true =>
                simp only [Binary64.signedSteps, if_true] at hfirst
                omega
            | false =>
                simp only [Binary64.signedSteps, Bool.false_eq_true, if_false] at hfirst hsecond
                exact ⟨rfl, by omega, by omega⟩

end Number

/-- The dates leave a week before and after them in the calendar. -/
def Request.Inside (request : Request) : Prop :=
  ∀ day ∈ request.dates,
    Override.leadDays < day.number ∧ day.number + Override.leadDays ≤ lastDayNumber

/-- From a week before the first date to a week after the last, every override can be set out. -/
def Request.Expands (request : Request) : Prop :=
  ∀ o ∈ request.overrides, ∀ first last anchor stop : Day,
    request.dates.head? = some first → request.dates.getLast? = some last →
    first.plus (-Override.leadDays) = .ok anchor → last.plus Override.leadDays = .ok stop →
    ∃ readings, o.readings anchor stop = .ok readings

/-- What a request is refused for: the first check that it fails, or else a roster of which nobody
may be placed. -/
inductive Request.Refused (request : Request) : Fault → Prop
  | noDates (hdates : request.dates = []) : Refused request (.unrunnable .noDates)
  | noVolunteers (hdates : request.dates ≠ []) (hvolunteers : request.volunteers = []) :
      Refused request (.unrunnable .noVolunteers)
  | negativeSize (hdates : request.dates ≠ []) (hvolunteers : request.volunteers ≠ [])
      (hsize : request.defaultSize < 0) :
      Refused request (.unrunnable (.negativeSize request.defaultSize))
  | negativeCap (hdates : request.dates ≠ []) (hvolunteers : request.volunteers ≠ [])
      (hsize : 0 ≤ request.defaultSize) (hcap : request.cap < 0) :
      Refused request (.unrunnable (.negativeCap request.cap))
  | badFrequency (hdates : request.dates ≠ []) (hvolunteers : request.volunteers ≠ [])
      (hsize : 0 ≤ request.defaultSize) (hcap : 0 ≤ request.cap)
      (htarget : ¬ request.target.InUnit) {x : Binary64} (hshown : request.target.toReal = .ok x) :
      Refused request (.unrunnable (.badFrequency (Fairness.frequencyText x)))
  | nobodyEligible (hdates : request.dates ≠ []) (hvolunteers : request.volunteers ≠ [])
      (hsize : 0 ≤ request.defaultSize) (hcap : 0 ≤ request.cap)
      (htarget : request.target.InUnit)
      (hnobody : ∀ key ∈ request.volunteers.map Volunteer.effectiveKey,
        ¬ Resolution.Verdict request.responses request.dates.length
          (Resolution.membersOf request.volunteers key) none) :
      Refused request .nobodyEligible

/-- A target that is an integer beyond all doubles, or more shifts or people than a double can
count for certain. -/
def Request.Oversized (request : Request) : Prop :=
  request.target.toReal = .error .outOfRange ∨ request.Overlong ∨
    safeCount < request.volunteers.length

theorem Day.exists_plus {day : Day} {distance : Int} (hleast : 1 ≤ day.number + distance)
    (hmost : day.number + distance ≤ lastDayNumber) : ∃ later, day.plus distance = .ok later := by
  have hday := day.le_last
  have hnear : ¬ (distance < -maxDistance ∨ maxDistance < distance) := by
    simp only [maxDistance, lastDayNumber] at *
    omega
  have hvalid : 1 ≤ (day.number + distance).toNat ∧
      (day.number + distance).toNat ≤ lastDayNumber := by
    omega
  rw [plus, if_neg hnear, ofNumber?, dif_pos hvalid]
  exact ⟨_, rfl⟩

namespace Request

variable {request : Request} {fault : Fault}

theorem exists_shifts (hsize : 0 ≤ request.defaultSize) (hinside : request.Inside)
    (hexpands : request.Expands) :
    ∃ shifts, buildShifts request.dates request.defaultSize request.overrides = .ok shifts := by
  have hweek : Override.leadDays = 7 := rfl
  have hhits : FaultsOnly (fun _ => False) (Rotation.hitsOf request.dates request.overrides) := by
    rw [Rotation.hitsOf]
    split
    · next first last hfirst hlast =>
        obtain ⟨hlead, hroom⟩ := hinside first (List.mem_of_head? hfirst)
        obtain ⟨-, htrail⟩ := hinside last (List.mem_of_getLast? hlast)
        obtain ⟨anchor, hanchor⟩ : ∃ anchor, first.plus (-Override.leadDays) = .ok anchor :=
          Day.exists_plus (by omega) (by omega)
        obtain ⟨stop, hstop⟩ : ∃ stop, last.plus Override.leadDays = .ok stop :=
          Day.exists_plus (by omega) (by omega)
        refine FaultsOnly.mapM fun o ho => ?_
        obtain ⟨readings, hreadings⟩ :=
          hexpands o ho first last anchor stop hfirst hlast hanchor hstop
        have hdays : o.occurrences first last = .ok (Override.daysOf readings) := by
          simp only [Override.occurrences, hanchor, hstop, hreadings, bind, Except.bind]
          rfl
        rw [hdays]
        exact .ok _
    · exact FaultsOnly.ok _
  obtain ⟨hits, hhits⟩ := hhits.exists_ok
  rw [buildShifts, if_neg (Int.not_lt.mpr hsize), hhits]
  exact ⟨_, rfl⟩

theorem generate_of_check (hcheck : request.check = .error fault) :
    generate request = .error fault := by
  rw [generate_eq, prepare, hcheck]
  rfl

section

variable (hdates : request.dates ≠ []) (hvolunteers : request.volunteers ≠ [])
  (hsize : 0 ≤ request.defaultSize) (hcap : 0 ≤ request.cap)
include hdates hvolunteers hsize hcap

theorem check_eq :
    request.check = (do
      let target ← request.target.toReal
      if !Fairness.isFrequency target then
        throw (.unrunnable (.badFrequency (Fairness.frequencyText target)))) := by
  rw [check, if_neg (List.isEmpty_iff.not.mpr hdates),
    if_neg (List.isEmpty_iff.not.mpr hvolunteers), if_neg (Int.not_lt.mpr hsize),
    if_neg (Int.not_lt.mpr hcap)]

theorem check_of_toReal {x : Binary64} (hreal : request.target.toReal = .ok x) :
    request.check = if Fairness.isFrequency x then .ok ()
      else .error (.unrunnable (.badFrequency (Fairness.frequencyText x))) := by
  rw [check_eq hdates hvolunteers hsize hcap, hreal]
  change (if (!Fairness.isFrequency x) = true then throw _ else _) = _
  cases Fairness.isFrequency x <;> rfl

theorem check_of_inUnit (htarget : request.target.InUnit) : request.check = .ok () := by
  obtain ⟨x, hreal, hfrequency⟩ := Number.isTarget_iff_inUnit.mpr htarget
  rw [check_of_toReal hdates hvolunteers hsize hcap hreal, if_pos hfrequency]

end

theorem Refused.generate_eq (hrefused : request.Refused fault) :
    generate request = .error fault := by
  cases hrefused with
  | noDates hdates =>
      apply generate_of_check
      rw [check, if_pos (List.isEmpty_iff.mpr hdates)]
      rfl
  | noVolunteers hdates hvolunteers =>
      apply generate_of_check
      rw [check, if_neg (List.isEmpty_iff.not.mpr hdates),
        if_pos (List.isEmpty_iff.mpr hvolunteers)]
      rfl
  | negativeSize hdates hvolunteers hsize =>
      apply generate_of_check
      rw [check, if_neg (List.isEmpty_iff.not.mpr hdates),
        if_neg (List.isEmpty_iff.not.mpr hvolunteers), if_pos hsize]
      rfl
  | negativeCap hdates hvolunteers hsize hcap =>
      apply generate_of_check
      rw [check, if_neg (List.isEmpty_iff.not.mpr hdates),
        if_neg (List.isEmpty_iff.not.mpr hvolunteers), if_neg (Int.not_lt.mpr hsize), if_pos hcap]
      rfl
  | @badFrequency hdates hvolunteers hsize hcap htarget x hshown =>
      have hfrequency : ¬ Fairness.isFrequency x = true :=
        fun h => htarget (Number.isTarget_iff_inUnit.mp ⟨x, hshown, h⟩)
      apply generate_of_check
      rw [check_of_toReal hdates hvolunteers hsize hcap hshown, if_neg hfrequency]
  | nobodyEligible hdates hvolunteers hsize hcap htarget hnobody =>
      have hresolve : resolve request.volunteers request.responses request.dates.length
          request.history = .error .nobodyEligible :=
        Resolution.resolve_eq_error_iff.mpr ⟨rfl, hnobody⟩
      rw [Rostering.generate_eq, prepare, check_of_inUnit hdates hvolunteers hsize hcap htarget,
        hresolve]
      rfl

/-- A request that is not refused runs, unless it is oversized. -/
theorem generate_ok_or (hinside : request.Inside) (hexpands : request.Expands)
    (hcheck : request.check = .ok ()) {key : String}
    (hkey : key ∈ request.volunteers.map Volunteer.effectiveKey)
    (heligible : Resolution.Verdict request.responses request.dates.length
      (Resolution.membersOf request.volunteers key) none) :
    (∃ outcome, generate request = .ok outcome) ∨
      request.Oversized ∧ generate request = .error .outOfRange := by
  obtain ⟨-, -, hsize, -⟩ := check_ok hcheck
  obtain ⟨shifts, hshifts⟩ := exists_shifts hsize hinside hexpands
  cases hresolve : resolve request.volunteers request.responses request.dates.length
      request.history with
  | error fault =>
      exact absurd heligible ((Resolution.resolve_eq_error_iff.mp hresolve).2 key hkey)
  | ok resolved =>
      obtain ⟨groups, report⟩ := resolved
      obtain ⟨start, hprepare⟩ : ∃ start, request.prepare = .ok (start, report) := by
        rw [prepare, hcheck, hresolve, hshifts]
        exact ⟨_, rfl⟩
      -- All before the run has gone well, so only the run can fail, and that for want of range.
      have hprepares := prepare_ok hprepare
      have hrun := hprepares.run_faults (prepare_target hprepare) request.policy
        (List.range request.dates.length)
      cases hfill : (List.range request.dates.length).foldlM (Rota.fillShift request.policy)
          start with
      | ok final =>
          exact .inl ⟨_, generate_eq_ok_iff.mpr ⟨start, report, final, hprepare, hfill, rfl⟩⟩
      | error fault =>
          obtain ⟨rfl, hlarge⟩ := hrun fault hfill
          refine .inr ⟨.inr (hlarge.imp_left fun hlong => ?_), ?_⟩
          · rw [Rota.Overlong, hprepares.history_eq, hprepares.shifts_length] at hlong
            exact hlong
          · rw [Rostering.generate_eq, hprepare]
            simp only [bind, Except.bind, hfill]

theorem refused_or (request : Request) :
    (∃ fault, request.Refused fault) ∨
    (request.Oversized ∧ generate request = .error .outOfRange) ∨
    request.check = .ok () ∧ ∃ key ∈ request.volunteers.map Volunteer.effectiveKey,
      Resolution.Verdict request.responses request.dates.length
        (Resolution.membersOf request.volunteers key) none := by
  by_cases hdates : request.dates = []
  · exact .inl ⟨_, .noDates hdates⟩
  by_cases hvolunteers : request.volunteers = []
  · exact .inl ⟨_, .noVolunteers hdates hvolunteers⟩
  by_cases hsize : request.defaultSize < 0
  · exact .inl ⟨_, .negativeSize hdates hvolunteers hsize⟩
  by_cases hcap : request.cap < 0
  · exact .inl ⟨_, .negativeCap hdates hvolunteers (Int.not_lt.mp hsize) hcap⟩
  rw [Int.not_lt] at hsize hcap
  by_cases htarget : request.target.InUnit
  · by_cases hnobody : ∀ key ∈ request.volunteers.map Volunteer.effectiveKey,
        ¬ Resolution.Verdict request.responses request.dates.length
          (Resolution.membersOf request.volunteers key) none
    · exact .inl ⟨_, .nobodyEligible hdates hvolunteers hsize hcap htarget hnobody⟩
    · push Not at hnobody
      exact .inr (.inr ⟨check_of_inUnit hdates hvolunteers hsize hcap htarget, hnobody⟩)
  · rcases (Number.toReal_overflows request.target).exists_ok_or with ⟨x, hx⟩ | hrange
    · exact .inl ⟨_, .badFrequency hdates hvolunteers hsize hcap htarget hx⟩
    · refine .inr (.inl ⟨.inl hrange, generate_of_check ?_⟩)
      rw [check_eq hdates hvolunteers hsize hcap, hrange]
      rfl

end Request

/-- A request whose dates leave a week on either side and whose rules can be set out is refused for
the first check that it fails or because nobody may be placed, and for nothing else: any other has
an outcome. Only a request beyond what doubles count is out of range. -/
theorem refused_exactly {request : Request} (hinside : request.Inside)
    (hexpands : request.Expands) :
    (request.Oversized ∧ generate request = .error .outOfRange) ∨
    ((∀ fault, generate request = .error fault ↔ request.Refused fault) ∧
      ((∃ outcome, generate request = .ok outcome) ↔ ∀ fault, ¬ request.Refused fault)) := by
  rcases request.refused_or with ⟨fault, hrefused⟩ | hlarge | ⟨hcheck, key, hkey, heligible⟩
  · have hgenerate := hrefused.generate_eq
    refine .inr ⟨fun other => ⟨fun h => ?_, Request.Refused.generate_eq⟩, ?_⟩
    · rw [hgenerate] at h
      exact Except.error.inj h ▸ hrefused
    · refine iff_of_false ?_ fun hnone => hnone fault hrefused
      rintro ⟨outcome, h⟩
      rw [hgenerate] at h
      cases h
  · exact .inl hlarge
  · rcases Request.generate_ok_or hinside hexpands hcheck hkey heligible with ⟨outcome, h⟩ | hlarge
    · have hnone : ∀ fault, ¬ request.Refused fault := by
        intro fault hrefused
        rw [hrefused.generate_eq] at h
        cases h
      refine .inr ⟨fun fault => iff_of_false ?_ (hnone fault), iff_of_true ⟨outcome, h⟩ hnone⟩
      rw [h]
      exact fun h => nomatch h
    · exact .inl hlarge

namespace Sample

def everyOther : Override where
  ruleText := "FREQ=WEEKLY;INTERVAL=2"
  schedule := { rules := [{ frequency := .weekly, interval := 2 }] }
  size := some 1

def varied (target : Number) : Request := { input with overrides := [everyOther], target }

theorem varied_inside (target : Number) : (varied target).Inside := by
  have hall : ∀ day ∈ [week 1, week 2, week 3],
      Override.leadDays < day.number ∧ day.number + Override.leadDays ≤ lastDayNumber := by decide
  exact hall

theorem varied_expands (target : Number) : (varied target).Expands := by
  intro o ho first last anchor stop hfirst hlast hanchor hstop
  obtain rfl := List.mem_singleton.mp ho
  obtain rfl : week 1 = first := Option.some.inj hfirst
  obtain rfl : week 3 = last := Option.some.inj hlast
  obtain rfl : week 0 = anchor := Except.ok.inj hanchor
  obtain rfl : ⟨700028, by decide, by decide⟩ = stop := Except.ok.inj hstop
  have hhits : (everyOther.readings (week 0) ⟨700028, by decide, by decide⟩).toOption.map
      List.length = some 3 := by
    decide +kernel
  obtain ⟨readings, hreadings, -⟩ := exists_ok_of_toOption_map hhits
  exact ⟨readings, hreadings⟩

theorem varied_not_oversized (x : Binary64) : ¬ (varied (.real x)).Oversized := by
  rintro (htarget | hlong | hmany)
  · cases htarget
  · have hfew : ¬ safeCount < input.history.length + input.dates.length := by decide +kernel
    exact hfew hlong
  · have hfew : ¬ safeCount < input.volunteers.length := by decide +kernel
    exact hfew hmany

theorem varied_not_refused (fault : Fault) : ¬ (varied (.real .one)).Refused fault := by
  intro hrefused
  cases hrefused with
  | noDates hdates => cases hdates
  | noVolunteers _ hvolunteers => cases hvolunteers
  | negativeSize _ _ hsize => exact absurd hsize (by decide)
  | negativeCap _ _ _ hcap => exact absurd hcap (by decide)
  | badFrequency _ _ _ _ htarget =>
      exact htarget (Number.isTarget_iff_inUnit.mp ⟨.one, rfl, by decide +kernel⟩)
  | nobodyEligible _ _ _ _ _ hnobody =>
      have hjudge : Resolution.judge input.responses 3
          (Resolution.membersOf input.volunteers "red") = .ok (.ofList [1, 2]) :=
        toOption_eq_some_iff.mp (by decide +kernel)
      exact hnobody "red" (by decide) (Resolution.judge_ok_iff.mp ⟨_, hjudge⟩)

end Sample

open Sample in
theorem refused_exactly_sample :
    (varied (.real .one)).Inside ∧ (varied (.real .one)).Expands ∧
      (∃ outcome, generate (varied (.real .one)) = .ok outcome) ∧
      generate (varied (.real .nan)) = .error (.unrunnable (.badFrequency "nan")) := by
  refine ⟨varied_inside _, varied_expands _, ?_, ?_⟩
  · rcases refused_exactly (varied_inside (.real .one)) (varied_expands _) with
      ⟨hlarge, -⟩ | ⟨-, houtcome⟩
    · exact absurd hlarge (varied_not_oversized .one)
    · exact houtcome.mpr varied_not_refused
  · have hvalue : ¬ (varied (.real .nan)).target.InUnit := fun ⟨_, hq, _⟩ => nomatch hq
    have htext : Fairness.frequencyText .nan = "nan" := by decide
    rcases refused_exactly (varied_inside (.real .nan)) (varied_expands _) with
      ⟨hlarge, -⟩ | ⟨hfault, -⟩
    · exact absurd hlarge (varied_not_oversized .nan)
    · rw [hfault, ← htext]
      exact .badFrequency (by decide) (by decide) (by decide) (by decide) hvalue rfl

end Rostering
