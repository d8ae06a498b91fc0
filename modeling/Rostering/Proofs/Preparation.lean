import Rostering.Generation
import Rostering.Proofs.Picks
import Mathlib.Data.List.Sort
import Mathlib.Data.String.Basic

namespace Rostering

/-! The rota that a request prepares: the groups that its roster resolves into and the shifts that
its dates and overrides make, all of them empty. -/

theorem pairwise_lt_mergeSort_eraseDups (texts : List String) :
    (texts.eraseDups.mergeSort fun a b => decide (a ≤ b)).Pairwise (· < ·) := by
  have hnodup : (texts.eraseDups.mergeSort fun a b => decide (a ≤ b)).Nodup :=
    (List.mergeSort_perm _ _).nodup_iff.mpr (nodup_eraseDups _)
  have hsorted : (texts.eraseDups.mergeSort fun a b => decide (a ≤ b)).Pairwise
      fun a b => decide (a ≤ b) = true := by
    apply List.pairwise_mergeSort
    · intro a b c hab hbc
      rw [decide_eq_true_eq] at *
      exact le_trans hab hbc
    · intro a b
      rw [Bool.or_eq_true, decide_eq_true_eq, decide_eq_true_eq]
      exact le_total a b
  refine (hsorted.and hnodup).imp fun {a b} hab => ?_
  exact lt_of_le_of_ne (of_decide_eq_true hab.1) hab.2

namespace Resolution

theorem nodup_groupKeys (volunteers : List Volunteer) : (groupKeys volunteers).Nodup :=
  (List.mergeSort_perm _ _).nodup_iff.mpr (nodup_eraseDups _)

theorem mem_membersOf {volunteers : List Volunteer} {key : String} {v : Volunteer} :
    v ∈ membersOf volunteers key ↔ v ∈ volunteers ∧ v.effectiveKey = key := by
  simp [membersOf]

/-- The order of the keys by a sort that computes. -/
theorem groupKeys_eq_insertionSort (volunteers : List Volunteer) :
    groupKeys volunteers =
      (volunteers.map Volunteer.effectiveKey).eraseDups.insertionSort (· ≤ ·) :=
  List.mergeSort_eq_insertionSort _ _

/-- A group may be placed if it has one lead at most, an answer and a shift left. -/
theorem judge_eq_ok_iff {responses : List Response} {total : Nat} {members : List Volunteer}
    {available : IndexSet} :
    judge responses total members = .ok available ↔
      members.countP Volunteer.isTeamLead ≤ 1 ∧ answers responses members ≠ [] ∧
        (availableShifts (answers responses members) total).isEmpty = false ∧
          available = availableShifts (answers responses members) total := by
  rw [judge]
  split
  · next hleads => simp [Nat.not_le.mpr hleads]
  · next hleads =>
      split
      · next hnone => simp [List.isEmpty_iff.mp hnone]
      · next hsome =>
          split
          · next hempty => simp [hempty]
          · next hopen =>
              simp [Nat.not_lt.mp hleads, List.isEmpty_iff.not.mp hsome, hopen, eq_comm]

theorem toOption_judge {responses : List Response} {total : Nat} {members : List Volunteer} :
    (judge responses total members).toOption =
      if members.countP Volunteer.isTeamLead ≤ 1 ∧ answers responses members ≠ [] then
        (some (availableShifts (answers responses members) total)).filter fun s => !s.isEmpty
      else none := by
  cases hjudge : judge responses total members with
  | ok available =>
      obtain ⟨hleads, hanswered, hopen, rfl⟩ := judge_eq_ok_iff.mp hjudge
      rw [if_pos ⟨hleads, hanswered⟩, Option.filter_some_pos (by simp [hopen])]
      rfl
  | error reason =>
      split
      · next hresolvable =>
          cases hempty : (availableShifts (answers responses members) total).isEmpty with
          | true => simp [Option.filter, hempty, Except.toOption]
          | false =>
              have hok := judge_eq_ok_iff.mpr ⟨hresolvable.1, hresolvable.2, hempty, rfl⟩
              simp [hjudge] at hok
      · rfl

/-- The groups of a roster that may be placed. -/
def candidates (volunteers : List Volunteer) (responses : List Response) (total : Nat)
    (history : List Shift) : List Group :=
  (groupKeys volunteers).filterMap fun key =>
    (judge responses total (membersOf volunteers key)).toOption.map
      (groupOf volunteers history key)

theorem resolve_eq {volunteers : List Volunteer} {responses : List Response} {total : Nat}
    {history : List Shift} : resolve volunteers responses total history =
    if (candidates volunteers responses total history).isEmpty then .error .nobodyEligible
    else .ok (candidates volunteers responses total history,
      reportOf (decisions volunteers responses total)) := by
  simp only [resolve, candidates, decisions, List.filterMap_map]
  rw [List.filterMap_congr (g := fun key =>
    (judge responses total (membersOf volunteers key)).toOption.map
      (groupOf volunteers history key))]
  · rfl
  · intro key _
    cases hjudge : judge responses total (membersOf volunteers key) <;>
      simp [hjudge, Except.toOption]

/-- A group as it comes out of the resolution of a roster. -/
structure Resolved (volunteers : List Volunteer) (responses : List Response) (total : Nat)
    (history : List Shift) (g : Group) : Prop where
  members_eq : g.members = membersOf volunteers g.key
  judged : judge responses total g.members = .ok g.available
  allocated_eq : g.allocated = []
  historicalCount_eq : g.historicalCount = countWorked history g.key

end Resolution

open Resolution in
theorem resolve_ok {volunteers : List Volunteer} {responses : List Response} {total : Nat}
    {history : List Shift} {groups : List Group} {report : ResolutionReport}
    (h : resolve volunteers responses total history = .ok (groups, report)) :
    (groups.map Group.key).Nodup ∧
      ∀ g ∈ groups, Resolved volunteers responses total history g := by
  rw [resolve_eq] at h
  split at h
  · simp at h
  · obtain ⟨rfl, -⟩ := Prod.mk.inj (Except.ok.inj h)
    constructor
    · rw [List.Nodup, List.pairwise_map, candidates, List.pairwise_filterMap]
      refine (nodup_groupKeys volunteers).imp fun {key other} hne g hg g' hg' => ?_
      obtain ⟨_, -, rfl⟩ := Option.map_eq_some_iff.mp hg
      obtain ⟨_, -, rfl⟩ := Option.map_eq_some_iff.mp hg'
      exact hne
    · intro g hg
      obtain ⟨key, -, hgroup⟩ := List.mem_filterMap.mp hg
      obtain ⟨available, hjudge, rfl⟩ := Option.map_eq_some_iff.mp hgroup
      exact ⟨rfl, toOption_eq_some_iff.mp hjudge, rfl, rfl⟩

namespace Rotation

@[simp] theorem Plan.shift_index (plan : Plan) (day : Day) (index : Int) :
    (plan.shift day index).index = index := by
  rw [Plan.shift]
  split <;> rfl

theorem Plan.shift_blank (plan : Plan) (day : Day) (index : Int) :
    (plan.shift day index).blank = plan.shift day index := by
  rw [Plan.shift]
  split <;> rfl

theorem Plan.preallocated_le_size (plan : Plan) (day : Day) (index : Int) :
    ((plan.shift day index).preallocated.length : Int) ≤ (plan.shift day index).size := by
  rw [Plan.shift]
  split
  · simp
  · exact Int.le_max_right _ _

end Rotation

theorem Rota.shiftOrder_eq_range {rota : Rota}
    (hindex : ∀ (j : Nat) (s : Shift), rota.shifts[j]? = some s → s.index = j) :
    rota.shiftOrder = List.range rota.shifts.length := by
  refine List.mergeSort_of_pairwise (List.pairwise_lt_range.imp_of_mem fun {i j} hi hj hlt => ?_)
  rw [List.mem_range] at hi hj
  have hfirst := hindex i _ (List.getElem?_eq_getElem hi)
  have hsecond := hindex j _ (List.getElem?_eq_getElem hj)
  simp only [List.getElem?_eq_getElem hi, List.getElem?_eq_getElem hj, Option.elim_some,
    hfirst, hsecond, decide_eq_true_eq]
  omega

/-- An empty shift at a position, with room for those fixed beforehand. -/
structure Shift.Prepared (s : Shift) (j : Nat) : Prop where
  index_eq : s.index = j
  blank_eq : s.blank = s
  preallocated_le : (s.preallocated.length : Int) ≤ s.size

open Rotation in
theorem buildShifts_ok {dates : List Day} {size : Int} {overrides : List Override}
    {shifts : List Shift} (h : buildShifts dates size overrides = .ok shifts) :
    shifts.length = dates.length ∧ ∀ (j : Nat) (s : Shift), shifts[j]? = some s → s.Prepared j := by
  simp only [buildShifts, check_eq_ok, bind_eq_ok, pure_eq_ok] at h
  obtain ⟨-, hits, -, rfl⟩ := h
  refine ⟨by simp, fun j s hs => ?_⟩
  simp only [List.getElem?_map, List.getElem?_zipIdx, Option.map_map,
    Option.map_eq_some_iff, Function.comp_apply, Nat.zero_add] at hs
  obtain ⟨day, -, rfl⟩ := hs
  exact ⟨Plan.shift_index _ _ _, Plan.shift_blank _ _ _, Plan.preallocated_le_size _ _ _⟩

theorem Request.check_ok {request : Request} (h : request.check = .ok ()) :
    request.dates ≠ [] ∧ request.volunteers ≠ [] ∧ 0 ≤ request.defaultSize ∧
      0 ≤ request.cap := by
  simp only [Request.check, check_eq_ok, List.isEmpty_iff, Int.not_lt] at h
  exact ⟨h.1, h.2.1, h.2.2.1, h.2.2.2.1⟩

open Resolution in
/-- What a run starts from. -/
structure Request.Prepares (request : Request) (start : Rota) : Prop where
  keys_nodup : (start.groups.map Group.key).Nodup
  resolved : ∀ g ∈ start.groups,
    Resolved request.volunteers request.responses request.dates.length request.history g
  shifts_length : start.shifts.length = request.dates.length
  prepared : ∀ (j : Nat) (s : Shift), start.shifts[j]? = some s → s.Prepared j
  history_eq : start.history = request.history
  cap_eq : start.cap = request.cap
  cap_nonneg : 0 ≤ request.cap

theorem Request.prepare_ok {request : Request} {start : Rota} {report : ResolutionReport}
    (h : request.prepare = .ok (start, report)) : request.Prepares start := by
  simp only [Request.prepare, bind_eq_ok, pure_eq_ok] at h
  obtain ⟨_, hcheck, ⟨groups, _⟩, hresolve, shifts, hshifts, hpair⟩ := h
  obtain ⟨rfl, rfl⟩ := Prod.mk.inj hpair
  obtain ⟨hkeys, hresolved⟩ := resolve_ok hresolve
  obtain ⟨hlength, hprepared⟩ := buildShifts_ok hshifts
  exact ⟨hkeys, hresolved, hlength, hprepared, rfl, rfl, (Request.check_ok hcheck).2.2.2⟩

namespace Request.Prepares

variable {request : Request} {start : Rota}

theorem blank_eq (hprepares : request.Prepares start) : start.blank = start := by
  have hgroups : start.groups.map Group.blank = start.groups := by
    refine (List.map_congr_left fun g hg => ?_).trans (List.map_id _)
    rw [Group.blank, ← (hprepares.resolved g hg).allocated_eq, id]
  have hshifts : start.shifts.map Shift.blank = start.shifts := by
    refine (List.map_congr_left fun s hs => ?_).trans (List.map_id _)
    obtain ⟨j, hj⟩ := List.getElem?_of_mem hs
    exact (hprepares.prepared j s hj).blank_eq
  rw [Rota.blank, hgroups, hshifts]

theorem allocated_eq_nil (hprepares : request.Prepares start) :
    ∀ g ∈ start.groups, g.allocated = [] :=
  fun g hg => (hprepares.resolved g hg).allocated_eq

theorem exists_shift_of_available (hprepares : request.Prepares start) {i : Int} {g : Group}
    (hg : g ∈ start.groups) (hi : i ∈ g.available) :
    ∃ s ∈ start.shifts, s.index = i := by
  have havailable := (Resolution.judge_eq_ok_iff.mp (hprepares.resolved g hg).judged).2.2.2
  rw [havailable, Resolution.availableShifts, IndexSet.mem_below] at hi
  obtain ⟨j, rfl⟩ := Int.eq_ofNat_of_zero_le hi.1
  have hj : j < start.shifts.length := by
    rw [hprepares.shifts_length]
    omega
  exact ⟨_, List.getElem_mem hj,
    (hprepares.prepared j _ (List.getElem?_eq_getElem hj)).index_eq⟩

theorem shiftOrder_eq (hprepares : request.Prepares start) :
    start.shiftOrder = List.range request.dates.length := by
  rw [← hprepares.shifts_length]
  exact Rota.shiftOrder_eq_range fun j s hs => (hprepares.prepared j s hs).index_eq

end Request.Prepares

theorem generate_eq (request : Request) :
    generate request = do
      let (start, report) ← request.prepare
      let rota ← (List.range request.dates.length).foldlM (Rota.fillShift request.policy) start
      return .ofRota rota request.policy.criteria report := by
  rw [generate, generateUnder]
  cases hprepare : request.prepare with
  | error fault => rfl
  | ok prepared =>
      obtain ⟨start, report⟩ := prepared
      have horder := (Request.prepare_ok hprepare).shiftOrder_eq
      rw [← horder]
      rfl

theorem generate_eq_ok_iff {request : Request} {outcome : Outcome} :
    generate request = .ok outcome ↔ ∃ start report final,
      request.prepare = .ok (start, report) ∧
      (List.range request.dates.length).foldlM (Rota.fillShift request.policy) start = .ok final ∧
        outcome = .ofRota final request.policy.criteria report := by
  rw [generate_eq, bind_eq_ok]
  constructor
  · intro h
    obtain ⟨⟨start, report⟩, hprepare, h⟩ := h
    obtain ⟨final, hfill, hfinal⟩ := bind_eq_ok.mp h
    exact ⟨start, report, final, hprepare, hfill, (pure_eq_ok.mp hfinal).symm⟩
  · intro h
    obtain ⟨start, report, final, hprepare, hfill, rfl⟩ := h
    exact ⟨_, hprepare, bind_eq_ok.mpr ⟨final, hfill, rfl⟩⟩

theorem exists_generate {request : Request} {start final : Rota}
    (hprepare : request.prepare.toOption.map (·.1) = some start)
    (hfill : ((List.range request.dates.length).foldlM
      (Rota.fillShift request.policy) start).toOption = some final) :
    ∃ outcome, generate request = .ok outcome ∧ outcome.rota = final := by
  obtain ⟨⟨rota, report⟩, hprepared, rfl⟩ := exists_ok_of_toOption_map hprepare
  refine ⟨.ofRota final request.policy.criteria report, ?_, rfl⟩
  exact generate_eq_ok_iff.mpr ⟨rota, report, final, hprepared, toOption_eq_some_iff.mp hfill, rfl⟩

theorem generate_ok {request : Request} {outcome : Outcome}
    (h : generate request = .ok outcome) :
    ∃ start, request.Prepares start ∧ start.allocate request.policy = .ok outcome.rota ∧
      outcome = .ofRota outcome.rota request.policy.criteria outcome.report := by
  simp only [generate, generateUnder, bind_eq_ok, pure_eq_ok] at h
  obtain ⟨⟨start, report⟩, hprepare, tieBreak, htieBreak, rota, hallocate, rfl⟩ := h
  obtain rfl := Except.ok.inj htieBreak
  exact ⟨start, Request.prepare_ok hprepare, hallocate, rfl⟩

end Rostering
