import Rostering.Proofs.Beginning
import Rostering.Proofs.PlainRequest
import Rostering.Proofs.Spacing

namespace Rostering

/-! More dates at the end of a rotation leave its beginning as it is. -/

theorem IndexSet.below_of_below {few many : Nat} (hle : few ≤ many) (test : Int → Bool) :
    below few (fun i => decide (i ∈ below many test)) = below few test := by
  rw [below, IndexSet.mk.injEq]
  apply List.filter_congr
  intro i hi
  obtain ⟨k, hk, rfl⟩ := List.mem_map.mp hi
  rw [List.mem_range] at hk
  rw [Bool.eq_iff_iff, decide_eq_true_iff, mem_below]
  exact ⟨fun hmem => hmem.2.2,
    fun htest => ⟨Int.natCast_nonneg k, Int.ofNat_lt.mpr (by omega), htest⟩⟩

theorem IndexSet.isEmpty_below {s : IndexSet} (bound : Nat) (hempty : s.isEmpty = true) :
    (below bound fun i => decide (i ∈ s)).isEmpty = true := by
  have hnone : ∀ i, i ∉ s := by
    intro i hi
    rw [← mem_toList, List.isEmpty_iff.mp hempty] at hi
    simp at hi
  simp [isEmpty, below, hnone]

namespace Resolution

variable {volunteers : List Volunteer} {responses : List Response} {history : List Shift}
  {few many : Nat}

/-- Over fewer shifts a group is open to those of them that it is open to anyhow. -/
theorem judge_few (hle : few ≤ many) (members : List Volunteer) (key : String) :
    (judge responses few members).toOption.map (groupOf volunteers history key) =
      (((judge responses many members).toOption.map (groupOf volunteers history key)).map
        (Group.within few)).filter fun g => !g.available.isEmpty := by
  have hfew : IndexSet.below few (fun i => decide
      (i ∈ availableShifts (answers responses members) many)) =
        availableShifts (answers responses members) few :=
    IndexSet.below_of_below hle _
  rw [toOption_judge, toOption_judge]
  split
  · cases hempty : (availableShifts (answers responses members) many).isEmpty with
    | true =>
        have hnone := IndexSet.isEmpty_below few hempty
        rw [hfew] at hnone
        simp [Option.filter, hempty, hnone]
    | false => simp [Option.filter, hempty, Group.within, groupOf, hfew]
  · rfl

theorem candidates_few (hle : few ≤ many) :
    candidates volunteers responses few history =
      ((candidates volunteers responses many history).map (Group.within few)).filter
        fun g => !g.available.isEmpty := by
  rw [candidates, candidates, List.map_filterMap, List.filter_filterMap]
  apply List.filterMap_congr
  intro key _
  exact judge_few hle (membersOf volunteers key) key

end Resolution

/-- Where the items that a filter keeps stand in the list. -/
theorem exists_positions_of_filter (test : α → Bool) (xs : List α) :
    ∃ σ : Nat → Nat, StrictMono σ ∧ (∀ i, (xs.filter test)[i]? = xs[σ i]?) ∧
      ∀ k x, xs[k]? = some x → test x = true → k ∈ Set.range σ := by
  induction xs with
  | nil => exact ⟨id, strictMono_id, by simp, by simp⟩
  | cons x rest ih =>
      obtain ⟨σ, hmono, hkept, hreached⟩ := ih
      cases hx : test x with
      | false =>
          refine ⟨fun i => σ i + 1, fun _ _ hlt => Nat.succ_lt_succ (hmono hlt), ?_, ?_⟩
          · simpa [hx] using hkept
          · intro k y hk hy
            cases k with
            | zero =>
                obtain rfl : x = y := by simpa using hk
                simp [hx] at hy
            | succ k =>
                obtain ⟨i, rfl⟩ := hreached k y (by simpa using hk) hy
                exact ⟨i, rfl⟩
      | true =>
          refine ⟨fun i => i.casesOn 0 fun i => σ i + 1, ?_, ?_, ?_⟩
          · apply strictMono_nat_of_lt_succ
            intro i
            cases i with
            | zero => exact Nat.succ_pos _
            | succ i => exact Nat.succ_lt_succ (hmono (Nat.lt_succ_self i))
          · intro i
            cases i with
            | zero => simp [hx]
            | succ i => simpa [List.filter_cons, hx] using hkept i
          · intro k y hk hy
            cases k with
            | zero => exact ⟨0, rfl⟩
            | succ k =>
                obtain ⟨i, rfl⟩ := hreached k y (by simpa using hk) hy
                exact ⟨i + 1, rfl⟩

namespace Request

def extend (request : Request) (more : List Day) : Request :=
  { request with dates := request.dates ++ more }

variable {request : Request} {more : List Day}

theorem check_extend (hdates : request.dates ≠ []) :
    (request.extend more).check = request.check := by
  simp [check, extend, hdates]

/-- Groups that only the further dates bring in are missing without them. -/
theorem plainStart_groups_eq (request : Request) (more : List Day) :
    request.plainStart.groups = ((request.extend more).plainStart.groups.map
      (Group.within request.dates.length)).filter fun g => !g.available.isEmpty := by
  apply Resolution.candidates_few
  simp [extend]

theorem within_mem_plainStart {g : Group} {i : Int}
    (hg : g ∈ (request.extend more).plainStart.groups)
    (hi : i ∈ (g.within request.dates.length).available) :
    g.within request.dates.length ∈ request.plainStart.groups := by
  rw [plainStart_groups_eq request more, List.mem_filter]
  exact ⟨List.mem_map_of_mem hg, by simp [IndexSet.isEmpty_eq_false_iff.mpr ⟨i, hi⟩]⟩

theorem plainStart_shifts_eq :
    request.plainStart.shifts =
      (request.extend more).plainStart.shifts.take request.dates.length := by
  simp only [plainStart, extend, List.zipIdx_append, List.map_append]
  rw [List.take_left' (by simp)]

theorem plainStart_beginning : ∃ σ,
    Rota.Beginning request.dates.length σ request.plainStart (request.extend more).plainStart := by
  obtain ⟨σ, hmono, hkept, hreached⟩ := exists_positions_of_filter (fun g => !g.available.isEmpty)
    ((request.extend more).plainStart.groups.map (Group.within request.dates.length))
  refine ⟨σ, ?_⟩
  constructor
  case mono => exact hmono
  case groups_eq =>
    intro i
    rw [plainStart_groups_eq request more, hkept, List.getElem?_map]
  case reached =>
    intro k g i hg hi
    apply hreached k (g.within request.dates.length)
    · rw [List.getElem?_map, hg, Option.map_some]
    · simp [IndexSet.isEmpty_eq_false_iff.mpr ⟨i, hi⟩]
  case shifts_eq => exact plainStart_shifts_eq
  case index_eq =>
    intro j s hs
    simp only [plainStart, List.getElem?_map, List.getElem?_zipIdx, Option.map_map,
      Option.map_eq_some_iff, Function.comp_apply, Nat.zero_add] at hs
    obtain ⟨day, -, rfl⟩ := hs
    exact Rotation.Plan.shift_index _ _ _
  case history_eq => rfl
  case cap_eq => rfl
  case target_eq => rfl

end Request

variable {request : Request} {more : List Day} {long : Outcome}

/-- Who is free on none of the first dates is on none of their shifts. -/
theorem generate_extend_nobody (hoverrides : request.overrides = [])
    (h : generate (request.extend more) = .ok long) (hnone : request.plainStart.groups = []) :
    ∀ s ∈ long.rota.shifts.take request.dates.length, s.placements = [] := by
  intro s hs
  obtain ⟨j, hj, rfl⟩ := List.mem_take_iff_getElem.mp hs
  have hshift := List.getElem?_eq_getElem (Nat.lt_of_lt_of_le hj (Nat.min_le_right _ _))
  have hindex := generate_index_eq h hshift
  refine List.eq_nil_iff_forall_not_mem.mpr fun p hp => ?_
  obtain ⟨g, hg, hheld, -⟩ := ((generate_coherent h).mem_placements_iff (generate_closed h)
    (List.mem_of_getElem? hshift)).mp hp
  have havailable := ((generate_coherent h).group_sound g hg).available _ hheld
  have hplain : (request.extend more).overrides = [] := hoverrides
  obtain ⟨-, -, hfill⟩ := (Request.generate_iff hplain).mp ⟨long, h, rfl⟩
  obtain ⟨first, hfirst, hsame⟩ := Rota.exists_group_of_mem_blank
    (Rota.fillShifts_picks hfill).blank_eq.symm hg
  have hopen : first.available = g.available := by
    simpa [Group.blank] using congrArg Group.available hsame
  have hwithin : long.rota.shifts[j].index ∈ (first.within request.dates.length).available := by
    rw [Group.mem_within_available, hopen]
    exact ⟨by omega, by omega, havailable⟩
  have hmem := Request.within_mem_plainStart hfirst hwithin
  simp [hnone] at hmem

theorem generate_of_extend (hdates : request.dates ≠ []) (hoverrides : request.overrides = [])
    (hkinds : ∀ c ∈ request.policy.criteria, c.kind ∈ CriterionKind.selfContained)
    (h : generate (request.extend more) = .ok long) :
    (∃ short, generate request = .ok short ∧
      short.rota.shifts = long.rota.shifts.take request.dates.length) ∨
    (generate request = .error .nobodyEligible ∧
      ∀ s ∈ long.rota.shifts.take request.dates.length, s.placements = []) := by
  have hplain : (request.extend more).overrides = [] := hoverrides
  obtain ⟨hcheck, -, hfill⟩ := (Request.generate_iff hplain).mp ⟨long, h, rfl⟩
  rw [Request.check_extend hdates] at hcheck
  by_cases hnone : request.plainStart.groups = []
  · right
    exact ⟨Request.generate_nobody hoverrides hcheck hnone,
      generate_extend_nobody hoverrides h hnone⟩
  · left
    obtain ⟨σ, hbegins⟩ : ∃ σ, Rota.Beginning request.dates.length σ request.plainStart
        (request.extend more).plainStart := Request.plainStart_beginning
    have hlength : (request.extend more).dates.length = request.dates.length + more.length :=
      List.length_append
    rw [hlength, List.range_add, foldlM_append_eq_ok] at hfill
    obtain ⟨middle, hfirst, hlater⟩ := hfill
    obtain ⟨final, hshort, hend⟩ :=
      hbegins.fillShifts hkinds (fun j hj => List.mem_range.mp hj) hfirst
    obtain ⟨short, hgenerate, rfl⟩ := (Request.generate_iff hoverrides).mpr ⟨hcheck, hnone, hshort⟩
    refine ⟨short, hgenerate, ?_⟩
    rw [hend.shifts_eq]
    apply List.ext_getElem?
    intro j
    by_cases hj : j < request.dates.length
    · have hkept : j ∉ (List.range more.length).map (request.dates.length + ·) := by
        simp only [List.mem_map, not_exists, not_and]
        omega
      rw [List.getElem?_take_of_lt hj, List.getElem?_take_of_lt hj,
        (Rota.fillShifts_picks hlater).shift_eq hkept]
    · simp [hj]

theorem generate_extend_of_generate (hdates : request.dates ≠ [])
    (hoverrides : request.overrides = [])
    (hkinds : ∀ c ∈ request.policy.criteria, c.kind ∈ CriterionKind.selfContained)
    {short : Outcome} (h : generate request = .ok short) :
    OnlyOverflows (generate (request.extend more)) := by
  obtain ⟨hcheck, hsome, -⟩ := (Request.generate_iff hoverrides).mp ⟨short, h, rfl⟩
  apply Request.generate_overflows
  · exact hoverrides
  · rwa [Request.check_extend hdates]
  · intro hnone
    apply hsome
    rw [Request.plainStart_groups_eq request more, hnone]
    rfl
  · exact hkinds

/-- Generating for more dates changes nothing about the shifts of the first ones, and only numbers
too large for a double can keep it from going on. Where nobody is free on the first dates, the
longer rota leaves their shifts empty. -/
theorem extension_keeps_beginning (hdates : request.dates ≠ [])
    (hoverrides : request.overrides = [])
    (hkinds : ∀ c ∈ request.policy.criteria, c.kind ∈ CriterionKind.selfContained)
    (more : List Day) :
    (∀ short, generate request = .ok short →
      (∃ long, generate (request.extend more) = .ok long ∧
        short.rota.shifts = long.rota.shifts.take request.dates.length) ∨
      generate (request.extend more) = .error .outOfRange) ∧
    (∀ long, generate (request.extend more) = .ok long →
      (∃ short, generate request = .ok short ∧
        short.rota.shifts = long.rota.shifts.take request.dates.length) ∨
      (generate request = .error .nobodyEligible ∧
        ∀ s ∈ long.rota.shifts.take request.dates.length, s.placements = [])) := by
  constructor
  · intro short hshort
    have hfails : OnlyOverflows (generate (request.extend more)) :=
      generate_extend_of_generate hdates hoverrides hkinds hshort
    rcases hfails.exists_ok_or with ⟨long, hlong⟩ | hrange
    · left
      refine ⟨long, hlong, ?_⟩
      rcases generate_of_extend hdates hoverrides hkinds hlong with
        ⟨short', hshort', hsame⟩ | ⟨hnobody, -⟩
      · obtain rfl := Except.ok.inj (hshort.symm.trans hshort')
        exact hsame
      · simp [hshort] at hnobody
    · exact .inr hrange
  · exact fun long hlong => generate_of_extend hdates hoverrides hkinds hlong

def Sample.opening : Request := { input with dates := input.dates.take 2 }

theorem extension_keeps_beginning_sample :
    ∃ long, generate (Sample.opening.extend [Sample.week 3]) = .ok long ∧
      ∃ short, generate Sample.opening = .ok short ∧
        short.rota.shifts = long.rota.shifts.take 2 ∧
        short.rota.shifts = Sample.final.shifts.take 2 := by
  obtain ⟨long, h, hfinal⟩ := Sample.generate_input
  have hlong : generate (Sample.opening.extend [Sample.week 3]) = .ok long := h
  have hkinds : ∀ c ∈ Sample.opening.policy.criteria, c.kind ∈ CriterionKind.selfContained := by
    decide
  obtain ⟨-, hbackward⟩ := extension_keeps_beginning (by decide) rfl hkinds [Sample.week 3]
  rcases hbackward long hlong with ⟨short, hshort, hsame⟩ | ⟨-, hnobody⟩
  · refine ⟨long, hlong, short, hshort, hsame, ?_⟩
    rw [hsame, hfinal]
    rfl
  · have hplaced := hnobody ⟨Sample.week 2, 1, 2, [⟨"red", ["ada", "bob"], 1, some "ada"⟩], [],
      some Sample.ada, 1⟩
    rw [hfinal] at hplaced
    exact absurd (hplaced (by decide)) (by simp)

end Rostering
