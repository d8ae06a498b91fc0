import Rostering.Proofs.Generated
import Rostering.Proofs.Lockstep
import Rostering.Proofs.PlainRequest
import Rostering.Proofs.Reading

namespace Rostering

/-! The target under which a rota is generated steers no pick. What all groups are owed moves by one
amount, and so do all their ranks. -/

/-- So many shifts can be counted in a double for certain. -/
def safeCount : Nat := Nat.pow 2 1023

theorem targetAllocations_safeCount {x : Binary64} (hfrequency : Fairness.isFrequency x = true) :
    ∃ due, targetAllocations 0 safeCount (.real x) = .ok due := by
  obtain ⟨steps, rfl, hsteps⟩ := Fairness.finite_of_isFrequency hfrequency
  have hcount : Number.realOfInt (0 + safeCount) =
      .ok (.finite false (safeCount * Binary64.stepsPerUnit)) := by
    decide +kernel
  have hwhole : ∃ sign steps, Binary64.ofSteps false
      (safeCount * Binary64.stepsPerUnit * Binary64.stepsPerUnit) Binary64.stepsPerUnit =
        .finite sign steps :=
    ⟨false, safeCount * Binary64.stepsPerUnit, by decide +kernel⟩
  have hproduct := (Binary64.ofSteps_finite_of_le
    (Nat.mul_le_mul_left (safeCount * Binary64.stepsPerUnit) hsteps) hwhole).2
  obtain ⟨due, hdue⟩ := Number.floor_real_ok_iff.mpr ⟨_, _, hproduct⟩
  refine ⟨due, ?_⟩
  simp only [targetAllocations, Number.mul, Number.combine, Number.toReal, bind_eq_ok, pure_eq_ok]
  exact ⟨_, ⟨_, hcount, _, rfl, rfl⟩, hdue⟩

/-- A target makes a whole number of any shifts that can be counted. -/
theorem targetAllocations_ok_or {target : Number} (htarget : target.IsTarget)
    (historical current : Nat) :
    (∃ due, targetAllocations historical current target = .ok due) ∨
      targetAllocations historical current target = .error .outOfRange ∧
        safeCount < historical + current := by
  cases target with
  | int share => exact .inl ⟨_, rfl⟩
  | real share =>
      by_cases hcount : historical + current ≤ safeCount
      · obtain ⟨x, hreal, hfrequency⟩ := htarget
        obtain rfl : share = x := Except.ok.inj hreal
        obtain ⟨due, hdue⟩ := targetAllocations_safeCount hfrequency
        have hsum : (historical : Int) + (safeCount - historical : Nat) = 0 + safeCount := by omega
        rw [targetAllocations, ← hsum] at hdue
        exact .inl (targetAllocations_ok_of_le (by omega) hdue)
      · rcases (targetAllocations_overflows htarget.isFinite historical current).exists_ok_or with
          hok | hrange
        · exact .inl hok
        · exact .inr ⟨hrange, by omega⟩

def Rota.aim (rota : Rota) (target : Number) : Rota := { rota with target }

def Request.aim (request : Request) (target : Number) : Request := { request with target }

def Outcome.aim (outcome : Outcome) (target : Number) : Outcome :=
  { outcome with rota := outcome.rota.aim target }

theorem Outcome.ofRota_aim (rota : Rota) (target : Number) (criteria : List Criterion)
    (report : ResolutionReport) :
    ofRota (rota.aim target) criteria report = (ofRota rota criteria report).aim target := rfl

namespace Rota

/-- More shifts, those of the history included, than can be counted for certain. -/
def Overlong (rota : Rota) : Prop := safeCount < rota.history.length + rota.shifts.length

/-- The one fault that a target can end with, in a rota with too many shifts. -/
def Overflowed (rota : Rota) (fault : Fault) : Prop := fault = .outOfRange ∧ rota.Overlong

variable {policy : Policy} {target : Number} {rota start : Rota} {g : Group} {s : Shift}

theorem overflowed_eq_of_blank_eq {after : Rota} (hblank : after.blank = rota.blank) :
    after.Overflowed = rota.Overflowed := by
  funext fault
  rw [Overflowed, Overflowed, Overlong, Overlong, history_eq_of_blank_eq hblank,
    shifts_length_eq_of_blank_eq hblank]

theorem bonus_aim (hkinds : ∀ c ∈ policy.criteria, c.kind ≠ .currentRotaUrgency) :
    (rota.aim target).bonus policy.criteria g s = rota.bonus policy.criteria g s := by
  apply bonus_eq_of_readsSame
  intro c hc
  constructor
  case need_eq => exact fun hneed => absurd hneed (hkinds c hc)
  case men_eq => exact fun _ => ⟨rfl, rfl⟩
  all_goals rfl

/-- What all groups are owed comes from one target. -/
theorem exists_due_or (htarget : rota.target.IsTarget) :
    (∃ due, ∀ g, rota.desiredRemaining g = .ok (due - g.totalCount)) ∨
      rota.Overlong ∧ ∀ g, rota.desiredRemaining g = .error .outOfRange := by
  rcases targetAllocations_ok_or htarget rota.history.length rota.shifts.length with
    ⟨due, hdue⟩ | ⟨hrange, hmany⟩
  · refine .inl ⟨due, fun g => ?_⟩
    simp only [desiredRemaining, Rostering.desiredRemaining, hdue]
    rfl
  · refine .inr ⟨hmany, fun g => ?_⟩
    simp only [desiredRemaining, Rostering.desiredRemaining, hrange]
    rfl

/-- Under two targets what a group is owed differs by one amount for all, unless there are too many
shifts for one of the two. -/
theorem desiredRemaining_aim (hold : rota.target.IsTarget) (hnew : target.IsTarget) :
    (∃ due due', ∀ g, rota.desiredRemaining g = .ok (due - g.totalCount) ∧
      (rota.aim target).desiredRemaining g = .ok (due' - g.totalCount)) ∨
    rota.Overlong ∧ ((∀ g, rota.desiredRemaining g = .error .outOfRange) ∨
      ∀ g, (rota.aim target).desiredRemaining g = .error .outOfRange) := by
  have hnew' : (rota.aim target).target.IsTarget := hnew
  rcases exists_due_or hold with ⟨due, hdue⟩ | ⟨hmany, hrange⟩
  · rcases exists_due_or hnew' with ⟨due', hdue'⟩ | ⟨hmany, hrange⟩
    · exact .inl ⟨due, due', fun g => ⟨hdue g, hdue' g⟩⟩
    · exact .inr ⟨hmany, .inr hrange⟩
  · exact .inr ⟨hmany, .inl hrange⟩

theorem exists_desiredRemaining_concur (hold : rota.target.IsTarget) (hnew : target.IsTarget) :
    ∃ c, ∀ g, Concur rota.Overflowed rota.Overflowed (fun d d' => d' = d - c)
      (rota.desiredRemaining g) ((rota.aim target).desiredRemaining g) := by
  rcases desiredRemaining_aim hold hnew with ⟨due, due', hdue⟩ | ⟨hmany, hrange | hrange⟩
  · refine ⟨due - due', fun g => ?_⟩
    rw [(hdue g).1, (hdue g).2]
    exact .ok (by omega)
  · refine ⟨0, fun g => ?_⟩
    rw [hrange]
    exact .left ⟨rfl, hmany⟩ _
  · refine ⟨0, fun g => ?_⟩
    rw [hrange]
    exact .right ⟨rfl, hmany⟩ _

theorem inStep_aim (hkinds : ∀ c ∈ policy.criteria, c.kind ≠ .currentRotaUrgency)
    (hold : rota.target.IsTarget) (hnew : target.IsTarget) :
    InStep rota.Overflowed rota.Overflowed policy id rota s (rota.aim target) s := by
  obtain ⟨c, howed⟩ := exists_desiredRemaining_concur hold hnew
  refine InStep.of_groups (c := c) rfl rfl rfl fun i g h hg hh => ?_
  obtain rfl : g = h := Option.some.inj (hg.symm.trans hh)
  exact ⟨rfl, rfl, rankOf_concur rfl rfl rfl (bonus_aim hkinds).symm (howed g)⟩

theorem lockstep_aim (hkinds : ∀ c ∈ policy.criteria, c.kind ≠ .currentRotaUrgency)
    (hold : start.target.IsTarget) (hnew : target.IsTarget) (j : Nat) :
    Lockstep start.Overflowed start.Overflowed policy id j
      (fun a b => b = a.aim target ∧ a.blank = start.blank) := by
  constructor
  case shift =>
    rintro a _ ⟨rfl, hblank⟩
    cases hshift : a.shifts[j]? with
    | none => exact .inl ⟨rfl, hshift⟩
    | some s =>
        refine .inr ⟨s, s, rfl, hshift, ?_⟩
        rw [← overflowed_eq_of_blank_eq hblank]
        exact inStep_aim hkinds (target_eq_of_blank_eq hblank ▸ hold) hnew
  case join =>
    rintro a _ i g h s t ⟨rfl, hblank⟩ hg hh hs ht
    obtain rfl : g = h := Option.some.inj (hg.symm.trans hh)
    obtain rfl : s = t := Option.some.inj (hs.symm.trans ht)
    exact ⟨rfl, (blank_join hg hs).trans hblank⟩

theorem fillShifts_aim (hkinds : ∀ c ∈ policy.criteria, c.kind ≠ .currentRotaUrgency)
    (hold : start.target.IsTarget) (hnew : target.IsTarget) (order : List Nat) :
    Concur start.Overflowed start.Overflowed
      (fun a b => b = a.aim target ∧ a.blank = start.blank)
      (order.foldlM (fillShift policy) start)
      (order.foldlM (fillShift policy) (start.aim target)) :=
  fillShifts_concur (fun j _ => lockstep_aim hkinds hold hnew j) ⟨rfl, rfl⟩

end Rota

variable {request : Request} {outcome : Outcome} {target : Number}

theorem Request.prepare_aim {start : Rota} {report : ResolutionReport}
    (h : request.prepare = .ok (start, report)) (hcheck : (request.aim target).check = .ok ()) :
    (request.aim target).prepare = .ok (start.aim target, report) := by
  simp only [prepare, bind_eq_ok, pure_eq_ok] at h ⊢
  obtain ⟨_, -, ⟨groups, resolved⟩, hresolve, shifts, hshifts, hpair⟩ := h
  obtain ⟨rfl, rfl⟩ := Prod.mk.inj hpair
  exact ⟨_, hcheck, _, hresolve, _, hshifts, rfl⟩

theorem Request.prepare_target {start : Rota} {report : ResolutionReport}
    (h : request.prepare = .ok (start, report)) : start.target.IsTarget := by
  simp only [prepare, bind_eq_ok, pure_eq_ok] at h
  obtain ⟨_, hcheck, _, -, _, -, hpair⟩ := h
  obtain ⟨rfl, -⟩ := Prod.mk.inj hpair
  exact target_isTarget hcheck

def Request.Overlong (request : Request) : Prop :=
  safeCount < request.history.length + request.dates.length

theorem generate_target (h : generate request = .ok outcome) : outcome.rota.target.IsTarget := by
  obtain ⟨start, report, final, hprepare, hfill, rfl⟩ := generate_eq_ok_iff.mp h
  have htarget : final.target = start.target :=
    Rota.target_eq_of_blank_eq (Rota.fillShifts_picks hfill).blank_eq
  exact htarget ▸ Request.prepare_target hprepare

theorem generate_aim (h : generate request = .ok outcome)
    (hkinds : ∀ c ∈ request.policy.criteria, c.kind ≠ .currentRotaUrgency)
    (hcheck : (request.aim target).check = .ok ()) :
    generate (request.aim target) = .ok (outcome.aim target) ∨
      generate (request.aim target) = .error .outOfRange ∧ request.Overlong := by
  obtain ⟨start, report, final, hprepare, hfill, rfl⟩ := generate_eq_ok_iff.mp h
  have hprepares := Request.prepare_ok hprepare
  have hnew : target.IsTarget := Request.target_isTarget hcheck
  have hrun := Rota.fillShifts_aim hkinds (Request.prepare_target hprepare) hnew
    (List.range request.dates.length)
  rw [hfill] at hrun
  rcases hrun.of_ok_left with ⟨_, hfill', rfl, -⟩ | ⟨_, hfill', rfl, hmany⟩
  · left
    exact generate_eq_ok_iff.mpr ⟨_, report, _, Request.prepare_aim hprepare hcheck, hfill',
      (Outcome.ofRota_aim final target request.policy.criteria report).symm⟩
  · right
    rw [Rota.Overlong, hprepares.history_eq, hprepares.shifts_length] at hmany
    refine ⟨?_, hmany⟩
    rw [generate_eq, Request.prepare_aim hprepare hcheck]
    change ((List.range request.dates.length).foldlM (Rota.fillShift request.policy)
      (start.aim target) >>= _) = _
    rw [hfill']
    rfl

/-- A request that is generated from is generated from under any other target with the same picks.
All that moves is what the groups are owed, by one amount for all. Only shifts beyond counting can
be in the way of this. -/
theorem target_steers_no_pick (h : generate request = .ok outcome)
    (hkinds : ∀ c ∈ request.policy.criteria, c.kind ≠ .currentRotaUrgency)
    (hcheck : (request.aim target).check = .ok ()) :
    (generate (request.aim target) = .ok (outcome.aim target) ∨
      generate (request.aim target) = .error .outOfRange ∧ request.Overlong) ∧
    (∃ c, ∀ g d d', outcome.rota.desiredRemaining g = .ok d →
      (outcome.rota.aim target).desiredRemaining g = .ok d' → d' = d - c) ∧
    (request.Overlong ∨ ∀ g, ∃ d d', outcome.rota.desiredRemaining g = .ok d ∧
      (outcome.rota.aim target).desiredRemaining g = .ok d') := by
  have hnew : target.IsTarget := Request.target_isTarget hcheck
  refine ⟨generate_aim h hkinds hcheck, ?_⟩
  rcases Rota.desiredRemaining_aim (generate_target h) hnew with
    ⟨due, due', hdue⟩ | ⟨hmany, hrange⟩
  · refine ⟨⟨due - due', fun g d d' hd hd' => ?_⟩, .inr fun g => ⟨_, _, hdue g⟩⟩
    obtain rfl := Except.ok.inj ((hdue g).1.symm.trans hd)
    obtain rfl := Except.ok.inj ((hdue g).2.symm.trans hd')
    omega
  · refine ⟨⟨0, fun g d d' hd hd' => ?_⟩, .inl ?_⟩
    · rcases hrange with hrange | hrange
      · simp [hrange] at hd
      · simp [hrange] at hd'
    · have hprepares := generate_prepares h
      rw [Request.Overlong, ← hprepares.history_eq, ← hprepares.shifts_length]
      simpa [Rota.Overlong, Rota.blank] using hmany

theorem target_steers_no_pick_sample :
    ∃ outcome, generate Sample.input = .ok outcome ∧ outcome.rota = Sample.final ∧
      (Sample.input.aim (.int 1)).check = .ok () ∧
      generate (Sample.input.aim (.int 1)) = .ok (outcome.aim (.int 1)) ∧
      ∀ g, ∃ d, Sample.final.desiredRemaining g = .ok d ∧
        (Sample.final.aim (.int 1)).desiredRemaining g = .ok (d + 2) := by
  obtain ⟨outcome, h, hfinal⟩ := Sample.generate_input
  have hcheck : (Sample.input.aim (.int 1)).check = .ok () :=
    toOption_eq_some_iff.mp (by decide +kernel)
  have hfew : ¬ Sample.input.Overlong := Nat.not_lt.mpr (by decide +kernel)
  obtain ⟨hgenerate, ⟨c, hmove⟩, howed⟩ := target_steers_no_pick h (by decide) hcheck
  rw [hfinal] at hmove howed
  have hamount : c = -2 := by
    have hcy := hmove ⟨"individual_cy", [Sample.cy], .ofList [0, 1, 2], [2], 1⟩ 0 2
      (toOption_eq_some_iff.mp (by decide +kernel)) (toOption_eq_some_iff.mp (by decide +kernel))
    omega
  refine ⟨outcome, h, hfinal, hcheck, hgenerate.resolve_right fun hlost => hfew hlost.2, ?_⟩
  intro g
  obtain ⟨d, d', hd, hd'⟩ := howed.resolve_left hfew g
  obtain rfl := hmove g d d' hd hd'
  exact ⟨d, hd, by rw [hd', hamount]; rfl⟩

end Rostering
