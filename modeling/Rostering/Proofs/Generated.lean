import Rostering.Proofs.Coherence
import Rostering.Proofs.Preparation

namespace Rostering

/-! Generated rotas are coherent, and their two sides record the same placements: every entry on a
shift is that of a group of the rota, and every index that a group holds is that of a shift. -/

structure Rota.Closed (rota : Rota) : Prop where
  placed : ∀ s ∈ rota.shifts, ∀ p ∈ s.placements, ∃ g ∈ rota.groups, p = .ofGroup g
  held : ∀ g ∈ rota.groups, ∀ i ∈ g.allocated, ∃ s ∈ rota.shifts, s.index = i

namespace Rota

variable {rota after : Rota} {criteria : List Criterion} {positions : List Nat}

/-- The entries of a shift are exactly those of the groups that hold it. -/
theorem Coherent.mem_placements_iff (hcoherent : rota.Coherent) (hclosed : rota.Closed)
    {s : Shift} (hs : s ∈ rota.shifts) {p : Placement} :
    p ∈ s.placements ↔ ∃ g ∈ rota.groups, s.index ∈ g.allocated ∧ p = .ofGroup g := by
  constructor
  · intro hp
    obtain ⟨g, hg, rfl⟩ := hclosed.placed s hs p hp
    exact ⟨g, hg, (hcoherent.linked g hg s hs).mpr (List.mem_map_of_mem hp), rfl⟩
  · intro hfound
    obtain ⟨g, hg, hholds, rfl⟩ := hfound
    obtain ⟨p, hp, hkey⟩ := List.mem_map.mp ((hcoherent.linked g hg s hs).mp hholds)
    exact hcoherent.entry g hg s hs p hp hkey ▸ hp

theorem exists_group_of_mem_blank (hblank : after.blank = rota.blank) {g : Group}
    (hg : g ∈ rota.groups) : ∃ g' ∈ after.groups, g'.blank = g.blank := by
  obtain ⟨i, hi⟩ := List.getElem?_of_mem hg
  obtain ⟨g', hg', hsame⟩ := exists_group_of_blank_eq hblank.symm hi
  exact ⟨g', List.mem_of_getElem? hg', hsame⟩

theorem ofGroup_eq_of_blank_eq {g g' : Group} (hblank : g'.blank = g.blank) :
    Placement.ofGroup g' = .ofGroup g := by
  rw [show Placement.ofGroup g' = .ofGroup g'.blank from rfl, hblank]
  rfl

/-- Picks put on the shifts only entries of groups of the rota. -/
theorem Picks.placed (hpicks : Picks criteria positions rota after)
    (hstart : ∀ s ∈ rota.shifts, ∀ p ∈ s.placements, ∃ g ∈ rota.groups, p = .ofGroup g) :
    ∀ s ∈ after.shifts, ∀ p ∈ s.placements, ∃ g ∈ after.groups, p = .ofGroup g := by
  refine hpicks.preserves (P := fun between => ∀ s ∈ between.shifts, ∀ p ∈ s.placements,
    ∃ g ∈ between.groups, p = .ofGroup g) (fun before next j hpick hplaced => ?_) hstart
  have hkept : ∀ g ∈ before.groups, ∃ g' ∈ next.groups, Placement.ofGroup g = .ofGroup g' := by
    intro g hg
    obtain ⟨g', hg', hsame⟩ := exists_group_of_mem_blank hpick.blank_eq hg
    exact ⟨g', hg', (ofGroup_eq_of_blank_eq hsame).symm⟩
  have hold : ∀ s ∈ before.shifts, ∀ p ∈ s.placements, ∃ g ∈ next.groups, p = .ofGroup g := by
    intro s hs p hp
    obtain ⟨g, hg, rfl⟩ := hplaced s hs p hp
    exact hkept g hg
  obtain @⟨i, g, s, hgroup, hshift, -, -⟩ := hpick
  intro t ht p hp
  rcases List.mem_or_eq_of_mem_set ht with ht | rfl
  · exact hold t ht p hp
  · rcases List.mem_append.mp hp with hp | hp
    · exact hold s (List.mem_of_getElem? hshift) p hp
    · obtain rfl := List.mem_singleton.mp hp
      exact hkept g (List.mem_of_getElem? hgroup)

end Rota

namespace Request.Prepares

variable {request : Request} {start : Rota}

theorem indices_eq (hprepares : request.Prepares start) :
    start.shifts.map Shift.index = (List.range start.shifts.length).map Int.ofNat := by
  apply List.ext_getElem (by simp)
  intro j hj _
  rw [List.length_map] at hj
  simpa using (hprepares.prepared j _ (List.getElem?_eq_getElem hj)).index_eq

theorem coherent (hprepares : request.Prepares start) : start.Coherent := by
  have hempty : ∀ s ∈ start.shifts, s.placements = [] ∧ s.teamLead = none ∧ s.maleCount = 0 ∧
      (s.preallocated.length : Int) ≤ s.size := by
    intro s hs
    obtain ⟨j, hj⟩ := List.getElem?_of_mem hs
    have hprepared := hprepares.prepared j s hj
    rw [← hprepared.blank_eq]
    exact ⟨rfl, rfl, rfl, hprepared.preallocated_le⟩
  have hnone := hprepares.allocated_eq_nil
  constructor
  case keys_nodup => exact hprepares.keys_nodup
  case indices_nodup =>
    rw [hprepares.indices_eq]
    exact List.nodup_range.map fun _ _ h => Int.ofNat.inj h
  case shift_sound =>
    intro s hs
    obtain ⟨hplacements, hlead, hmen, hsize⟩ := hempty s hs
    constructor <;> simp [hplacements, hlead, hmen, Shift.currentSize, Shift.groupKeys,
      Shift.headcount, Shift.countMen, hsize]
  case group_sound =>
    intro g hg
    have hcap : 0 ≤ start.cap := hprepares.cap_eq ▸ hprepares.cap_nonneg
    constructor <;> simp [hnone g hg, hcap]
  case linked =>
    intro g hg s hs
    simp [hnone g hg, Shift.groupKeys, (hempty s hs).1]
  case entry =>
    intro g _ s hs p hp
    simp [(hempty s hs).1] at hp

end Request.Prepares

variable {request : Request} {outcome : Outcome}

/-- Less its placements, a generated rota is one that the request prepares. -/
theorem generate_prepares (h : generate request = .ok outcome) :
    request.Prepares outcome.rota.blank := by
  obtain ⟨start, hprepares, hallocate, -⟩ := generate_ok h
  rw [(Rota.allocate_picks hallocate).blank_eq, hprepares.blank_eq]
  exact hprepares

theorem generate_coherent (h : generate request = .ok outcome) : outcome.rota.Coherent := by
  obtain ⟨start, hprepares, hallocate, -⟩ := generate_ok h
  exact hprepares.coherent.allocate hallocate

theorem generate_closed (h : generate request = .ok outcome) : outcome.rota.Closed := by
  obtain ⟨start, hprepares, hallocate, -⟩ := generate_ok h
  constructor
  case placed =>
    refine (Rota.allocate_picks hallocate).placed fun s hs p hp => ?_
    obtain ⟨j, hj⟩ := List.getElem?_of_mem hs
    rw [← (hprepares.prepared j s hj).blank_eq] at hp
    simp [Shift.blank] at hp
  case held =>
    intro g hg i hi
    have havailable := ((generate_coherent h).group_sound g hg).available i hi
    obtain ⟨s, hs, rfl⟩ := (generate_prepares h).exists_shift_of_available
      (List.mem_map_of_mem hg) havailable
    obtain ⟨t, ht, rfl⟩ := List.mem_map.mp hs
    exact ⟨t, ht, rfl⟩

/-- Coherence is kept by every placement and every run, holds of each prepared rota, and so holds
of each generated one, where no entry and no index stands alone. -/
theorem coherence_invariant :
    (∀ (rota after : Rota) (i j : Nat),
      rota.Coherent → rota.place i j = .ok after → after.Coherent) ∧
    (∀ (rota after : Rota) (policy : Policy),
      rota.Coherent → rota.allocate policy = .ok after → after.Coherent) ∧
    (∀ (request : Request) (start : Rota) (report : ResolutionReport),
      request.prepare = .ok (start, report) → start.Coherent) ∧
    (∀ (request : Request) (outcome : Outcome),
      generate request = .ok outcome → outcome.rota.Coherent ∧ outcome.rota.Closed) :=
  ⟨fun _ _ _ _ hcoherent => hcoherent.place, fun _ _ _ hcoherent => hcoherent.allocate,
    fun _ _ _ hprepare => (Request.prepare_ok hprepare).coherent,
    fun _ _ h => ⟨generate_coherent h, generate_closed h⟩⟩

/-! A small rotation to try the laws on: a lead and a partner who cannot come to the first of three
shifts, and one person who was on the last shift before it. -/

namespace Sample

instance weekCount_neZero : @NeZero Nat Zero.ofOfNat0 4 := ⟨Nat.succ_ne_zero 3⟩

def week (n : Fin 4) : Day := ⟨700000 + 7 * n, by omega, by unfold lastDayNumber; omega⟩

def ada : Volunteer := { id := "ada", role := .teamLead, groupKey := "red" }
def bob : Volunteer := { id := "bob", gender := .male, groupKey := "red" }
def cy : Volunteer := { id := "cy" }

def input : Request where
  volunteers := [ada, bob, cy]
  responses := [⟨"cy", true, .empty⟩, ⟨"ada", true, .ofList [1]⟩, ⟨"ada", true, .ofList [0]⟩]
  dates := [week 1, week 2, week 3]
  defaultSize := 2
  cap := 2
  history := [.historical (week 0) 0 [⟨"individual_cy", ["cy"], 0, none⟩]]
  policy := { criteria := [⟨.noDoubleShifts, .one⟩] }

def start : Rota where
  shifts := [⟨week 1, 0, 2, [], [], none, 0⟩, ⟨week 2, 1, 2, [], [], none, 0⟩,
    ⟨week 3, 2, 2, [], [], none, 0⟩]
  groups := [⟨"individual_cy", [cy], .ofList [0, 1, 2], [], 1⟩,
    ⟨"red", [ada, bob], .ofList [1, 2], [], 0⟩]
  history := input.history
  cap := 2

def final : Rota :=
  { start with
    shifts := [⟨week 1, 0, 2, [], [], none, 0⟩,
      ⟨week 2, 1, 2, [⟨"red", ["ada", "bob"], 1, some "ada"⟩], [], some ada, 1⟩,
      ⟨week 3, 2, 2, [⟨"individual_cy", ["cy"], 0, none⟩], [], none, 0⟩]
    groups := [⟨"individual_cy", [cy], .ofList [0, 1, 2], [2], 1⟩,
      ⟨"red", [ada, bob], .ofList [1, 2], [1], 0⟩] }

theorem prepare_input : ∃ report, input.prepare = .ok (start, report) := by
  have h : input.prepare.toOption.map (·.1) = some start := by
    simp only [Request.prepare, resolve, Resolution.decisions,
      Resolution.groupKeys_eq_insertionSort]
    decide +kernel
  obtain ⟨⟨rota, report⟩, hprepare, rfl⟩ := exists_ok_of_toOption_map h
  exact ⟨report, hprepare⟩

theorem allocate_start : start.allocate input.policy = .ok final := by
  obtain ⟨report, hprepare⟩ := prepare_input
  have h : ((List.range 3).foldlM (Rota.fillShift input.policy) start).toOption.map id =
      some final := by
    decide +kernel
  obtain ⟨rota, hfill, rfl⟩ := exists_ok_of_toOption_map h
  rw [Rota.allocate, (Request.prepare_ok hprepare).shiftOrder_eq]
  exact hfill

theorem generate_input : ∃ outcome, generate input = .ok outcome ∧ outcome.rota = final := by
  obtain ⟨report, hprepare⟩ := prepare_input
  refine ⟨.ofRota final input.policy.criteria report, ?_, rfl⟩
  simp only [generate, generateUnder, bind_eq_ok]
  exact ⟨_, hprepare, _, rfl, _, allocate_start, rfl⟩

end Sample

theorem coherence_invariant_sample :
    (∃ report, Sample.input.prepare = .ok (Sample.start, report)) ∧ Sample.start.Coherent ∧
    (∃ after, Sample.start.place 1 1 = .ok after ∧ after.Coherent) ∧
    Sample.start.allocate Sample.input.policy = .ok Sample.final ∧ Sample.final.Coherent ∧
    (∃ outcome, generate Sample.input = .ok outcome ∧
      outcome.rota.Coherent ∧ outcome.rota.Closed) := by
  obtain ⟨hplace, hallocate, hprepare, hgenerate⟩ := coherence_invariant
  obtain ⟨report, hprepared⟩ := Sample.prepare_input
  obtain ⟨outcome, haccepted, -⟩ := Sample.generate_input
  have hstart := hprepare _ _ _ hprepared
  have hkeys : (Sample.start.place 1 1).toOption.map (fun rota => rota.shifts.map Shift.groupKeys) =
      some [[], ["red"], []] := by
    decide +kernel
  obtain ⟨after, hplaced, -⟩ := exists_ok_of_toOption_map hkeys
  exact ⟨⟨report, hprepared⟩, hstart, ⟨after, hplaced, hplace _ _ _ _ hstart hplaced⟩,
    Sample.allocate_start, hallocate _ _ _ hstart Sample.allocate_start,
    outcome, haccepted, hgenerate _ _ haccepted⟩

end Rostering
