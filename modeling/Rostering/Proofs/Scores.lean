import Rostering.Proofs.SafeRange

namespace Rostering

/-! When a group has a score. Nothing is ever divided by zero, and over counts that a double can
hold for certain no score is out of range. -/

theorem Score.maleBalance_scored (g : Group) (s : Shift) :
    Scored (safeCount < s.maleCount.natAbs) (maleBalance (α := Number) g s) := by
  rw [maleBalance]
  split
  · exact .ratio_small (by decide) (by decide)
  · apply (Scored.ratio_small (by decide) (by decide)).bind
    intro whole
    apply (Scored.ratio_small (by decide) (by decide)).bind
    intro half
    apply (Scored.combine_int (· * ·) Binary64.mul half s.maleCount).bind
    intro met
    apply (Scored.combine_real (· - ·) Binary64.sub whole met).bind
    intro need
    apply (Scored.ratio_small (by decide) (by decide)).bind
    intro least
    rw [Arithmetic.larger]
    split
    · exact .real least
    · exact .real need

theorem Score.promoteGroups_scored {large : Prop} (g : Group) :
    Scored large (promoteGroups (α := Number) g) := by
  rw [promoteGroups]
  split <;> exact .ratio_small (by decide) (by decide)

/-! What a group needs comes from the same product as what it is owed. -/

theorem Number.truncate_eq_floor {x : Binary64} (hpositive : x.isNegative = false) :
    truncate (.real x) = floor (.real x) := by
  cases x with
  | nan => rfl
  | infinite negative => rfl
  | finite negative steps =>
      obtain rfl : negative = false := hpositive
      simp only [truncate, floor, integerPart, Binary64.truncate, Binary64.floor,
        Binary64.signedSteps, Bool.false_eq_true, if_false]
      rw [Int.fdiv_eq_tdiv_of_nonneg (by omega) (by omega)]

theorem Number.mul_target_truncate {target : Number} (htarget : target.IsTarget) {count : Nat}
    {product : Number} (h : (int count).mul target = .ok product) :
    product.truncate = product.floor := by
  cases target with
  | int share =>
      obtain rfl := Except.ok.inj h
      rfl
  | real share =>
      obtain ⟨x, hreal, hfrequency⟩ := htarget
      obtain rfl : share = x := Except.ok.inj hreal
      obtain ⟨steps, rfl, -⟩ := Fairness.finite_of_isFrequency hfrequency
      simp only [mul, combine, toReal, bind_eq_ok, pure_eq_ok] at h
      obtain ⟨_, hcount, _, ⟨-⟩, rfl⟩ := h
      obtain ⟨-, most, -, rfl, -⟩ := realOfInt_ok_of_le (Nat.le_refl count) hcount
      apply truncate_eq_floor
      rw [Binary64.mul, Binary64.isNegative_ofSteps]
      rfl

theorem Score.needed_eq {rota : Rota} (htarget : rota.target.IsTarget) (g : Group) :
    needed Number rota g = (do
      return (← targetAllocations 0 rota.shifts.length rota.target) - g.allocationCount) := by
  rw [needed, targetAllocations, Int.zero_add]
  change (do
    let due ← (Number.int rota.shifts.length).mul rota.target
    return (← due.truncate) - _) = _
  cases hproduct : (Number.int rota.shifts.length).mul rota.target with
  | error fault => rfl
  | ok product =>
      have hsame : product.truncate = product.floor :=
        Number.mul_target_truncate htarget hproduct
      change (do return (← product.truncate) - _) = (do return (← product.floor) - _)
      rw [hsame]

theorem Score.exists_needed {rota : Rota} (htarget : rota.target.IsTarget) {g : Group}
    (hfew : rota.shifts.length ≤ safeCount) (hcount : g.allocationCount ≤ rota.shifts.length) :
    ∃ need, needed Number rota g = .ok need ∧ need.natAbs ≤ safeCount := by
  rw [needed_eq htarget]
  rcases targetAllocations_ok_or htarget 0 rota.shifts.length with ⟨due, hdue⟩ | ⟨-, hmany⟩
  · have hbounds := targetAllocations_le htarget hfew hdue
    refine ⟨due - g.allocationCount, ?_, by omega⟩
    rw [← Int.ofNat_zero, hdue]
    rfl
  · omega

theorem Score.needed_ok_or {rota : Rota} (htarget : rota.target.IsTarget) {g : Group}
    (hcount : g.allocationCount ≤ rota.shifts.length) :
    (∃ need, needed Number rota g = .ok need ∧ (safeCount < need.natAbs → rota.Overlong)) ∨
      needed Number rota g = .error .outOfRange ∧ rota.Overlong := by
  by_cases hfew : rota.shifts.length ≤ safeCount
  · obtain ⟨need, hneed, hsmall⟩ := exists_needed htarget hfew hcount
    exact .inl ⟨need, hneed, fun hlarge => absurd hlarge (Nat.not_lt.mpr hsmall)⟩
  · have hlong : rota.Overlong := by
      rw [Rota.Overlong]
      omega
    rw [needed_eq htarget]
    rcases targetAllocations_ok_or htarget 0 rota.shifts.length with ⟨due, hdue⟩ | ⟨hrange, -⟩
    · refine .inl ⟨due - g.allocationCount, ?_, fun _ => hlong⟩
      rw [← Int.ofNat_zero, hdue]
      rfl
    · refine .inr ⟨?_, hlong⟩
      rw [← Int.ofNat_zero, hrange]
      rfl

theorem Binary64.lt_one_of_isZero {x : Binary64} (hzero : x.isZero = true) :
    x.lt .one = true := by
  have hpositive := stepsPerUnit_pos
  unfold isZero at hzero
  split at hzero
  · next negative =>
      have hnone : signedSteps negative 0 = 0 := by cases negative <;> rfl
      rw [one_eq, lt, hnone]
      exact decide_eq_true (Int.natCast_pos.mpr hpositive)
  · cases hzero

theorem Number.larger_one (x : Binary64) :
    ∃ y, Arithmetic.larger (real x) (.real .one) = .real y ∧ y.isZero = false := by
  have hlt : Arithmetic.lt (real x) (real .one) = x.lt .one := rfl
  rw [Arithmetic.larger, hlt]
  split
  · exact ⟨.one, rfl, by decide +kernel⟩
  · next hnotBelow =>
      refine ⟨x, rfl, Bool.eq_false_iff.mpr fun hzero => ?_⟩
      exact hnotBelow (Binary64.lt_one_of_isZero hzero)

theorem Number.ratio_one : Arithmetic.ratio 1 1 = .ok (real .one) :=
  toOption_eq_some_iff.mp (by decide +kernel)

theorem Score.urgency_scored (need : Int) {left : Int} (hleft : left ≠ 0) :
    Scored (safeCount < need.natAbs) (urgency (α := Number) need left) := by
  rw [urgency]
  apply (Scored.ratio need hleft).bind
  intro share
  obtain ⟨atLeast, hatLeast, hnonzero⟩ := Number.larger_one share
  rw [Number.ratio_one]
  change Scored _ (Arithmetic.div (Number.real .one)
    (Arithmetic.larger (Number.real share) (.real .one)) >>=
    Arithmetic.sub (Number.real .one))
  rw [hatLeast]
  apply (Scored.div_real Binary64.one hnonzero).bind
  exact fun part => .combine_real (· - ·) Binary64.sub .one part

theorem Score.currentRotaUrgency_scored {rota : Rota} (htarget : rota.target.IsTarget) {g : Group}
    (hcount : g.allocationCount ≤ rota.shifts.length) :
    Scored rota.Overlong (currentRotaUrgency (α := Number) rota g) := by
  rw [currentRotaUrgency]
  split
  · exact .ratio_small (by decide) (by decide)
  · next hleft =>
      rcases needed_ok_or htarget hcount with ⟨need, hneed, hlarge⟩ | ⟨hrange, hmany⟩
      · simp only [hneed]
        exact (urgency_scored need (by omega)).mono hlarge
      · simp only [hrange]
        exact .overflow hmany

theorem Score.nearest_spec (first : Nat) (others : List Nat) :
    nearest first others ∈ first :: others ∧
      ∀ distance ∈ first :: others, nearest first others ≤ distance :=
  List.min?_eq_some_iff.mp List.min?_cons'

theorem Rota.lastWorked?_lt {rota : Rota} {key : String} {i : Nat}
    (h : rota.lastWorked? key = some i) : i < rota.history.length := by
  simpa using List.mem_of_find?_eq_some h

theorem Score.mem_distances_iff {rota : Rota} {g : Group} {s : Shift} {distance : Nat} :
    distance ∈ distances rota g s ↔
      (∃ i ∈ g.allocated, (s.index - i).natAbs = distance) ∨
        ∃ last, rota.lastWorked? g.key = some last ∧
          (rota.history.length + s.index - last).natAbs = distance := by
  have hshift : ∀ i : Int,
      rota.history.length + s.index - (rota.history.length + i) = s.index - i :=
    fun i => by omega
  simp only [distances, List.map_append, List.map_map, List.mem_append, List.mem_map,
    Function.comp_def, hshift, Option.mem_toList, Int.ofNat_eq_natCast]

theorem Score.room_of_none {rota : Rota} {g : Group} (hlast : rota.lastWorked? g.key = none) :
    room rota g = rota.shifts.length - 1 := by
  rw [room, hlast, Option.map_none, Option.getD_none]
  omega

theorem Score.room_of_some {rota : Rota} {g : Group} {last : Nat}
    (hlast : rota.lastWorked? g.key = some last) :
    room rota g = rota.history.length + rota.shifts.length - 1 - last := by
  rw [room, hlast]
  rfl

/-- The last shift worked lies in the history, so there is always room after it. -/
theorem Score.room_pos {rota : Rota} (g : Group) (hmany : 1 < rota.shifts.length) :
    0 < room rota g := by
  cases hlast : rota.lastWorked? g.key with
  | none =>
      rw [room_of_none hlast]
      omega
  | some last =>
      have hbefore := rota.lastWorked?_lt hlast
      rw [room_of_some hlast]
      omega

theorem Score.shiftSpread_scored {rota : Rota} {g : Group} {s : Shift}
    (hs : 0 ≤ s.index ∧ s.index < rota.shifts.length)
    (hheld : ∀ i ∈ g.allocated, 0 ≤ i ∧ i < rota.shifts.length) :
    Scored rota.Overlong (shiftSpread (α := Number) rota g s) := by
  rw [shiftSpread]
  split
  · exact .ratio_small (by decide) (by decide)
  · next hmany =>
      have hroom : 0 < room rota g := room_pos g (by omega)
      cases htaken : distances rota g s with
      | nil => exact .ratio_small (by decide) (by decide)
      | cons first others =>
          refine (Scored.ratio _ (ne_of_gt hroom)).mono fun hlarge => ?_
          have hnear := (nearest_spec first others).1
          rw [← htaken, mem_distances_iff] at hnear
          rw [Int.natAbs_natCast] at hlarge
          rw [Rota.Overlong]
          rcases hnear with ⟨i, hi, hnear⟩ | ⟨last, hlast, hnear⟩
          · have hbounds := hheld i hi
            omega
          · have hbefore := rota.lastWorked?_lt hlast
            omega

namespace Rota

/-- What a rota counts is bounded by its own length and by the number of people in it. -/
structure Measured (people : Nat) (rota : Rota) : Prop where
  index : ∀ s ∈ rota.shifts, 0 ≤ s.index ∧ s.index < rota.shifts.length
  men : ∀ s ∈ rota.shifts, s.maleCount.natAbs ≤ people
  held : ∀ g ∈ rota.groups, ∀ i ∈ g.allocated, 0 ≤ i ∧ i < rota.shifts.length
  count : ∀ g ∈ rota.groups, g.allocationCount ≤ rota.shifts.length

/-- More shifts, those of the history included, or more people than a double can count for
certain. -/
def Oversized (people : Nat) (rota : Rota) : Prop := rota.Overlong ∨ safeCount < people

def Outranged (people : Nat) (rota : Rota) (fault : Fault) : Prop :=
  fault = .outOfRange ∧ rota.Oversized people

variable {rota : Rota} {people : Nat} {policy : Policy} {g : Group} {s : Shift}

section

variable (hmeasured : rota.Measured people) (htarget : rota.target.IsTarget)
include hmeasured htarget

theorem score_scored (hg : g ∈ rota.groups) (hs : s ∈ rota.shifts) (kind : CriterionKind) :
    Scored (rota.Oversized people) (kind.score (α := Number) rota g s) := by
  cases kind with
  | maleBalance =>
      refine (Score.maleBalance_scored g s).mono fun hlarge => .inr ?_
      exact Nat.lt_of_lt_of_le hlarge (hmeasured.men s hs)
  | noDoubleShifts => exact .ratio_small (by decide) (by decide)
  | currentRotaUrgency =>
      exact (Score.currentRotaUrgency_scored htarget (hmeasured.count g hg)).mono .inl
  | promoteGroups => exact Score.promoteGroups_scored g
  | shiftSpread =>
      exact (Score.shiftSpread_scored (hmeasured.index s hs) (hmeasured.held g hg)).mono .inl

theorem bonus_ok_or (hg : g ∈ rota.groups) (hs : s ∈ rota.shifts) (criteria : List Criterion) :
    (∃ total, rota.bonus criteria g s = .ok total) ∨
      rota.bonus criteria g s = .error .outOfRange ∧ rota.Oversized people := by
  have hscores : ∀ c ∈ criteria, Scored (rota.Oversized people) (c.weightedScore rota g s) := by
    intro c _
    apply (score_scored hmeasured htarget hg hs c.kind).bind
    exact fun score => .combine_real (· * ·) Binary64.mul score c.weight
  rw [bonus]
  rcases Scored.mapM hscores with ⟨values, hvalues⟩ | ⟨hrange, hlarge⟩
  · rw [hvalues]
    exact .inl (Number.sum_reals values)
  · rw [hrange]
    exact .inr ⟨rfl, hlarge⟩

/-- In such a rota only want of range stops a ranking, and only if it is oversized. -/
theorem ranked_faults (hs : s ∈ rota.shifts) (positions : List Nat) :
    FaultsOnly (rota.Outranged people) (rota.ranked policy s positions) := by
  have hrank : ∀ h ∈ rota.groups,
      FaultsOnly (rota.Outranged people) (rota.rankOf policy h s) := by
    intro h hh
    rw [rankOf]
    rcases bonus_ok_or hmeasured htarget hh hs policy.criteria with ⟨total, hok⟩ | ⟨hrange, hlarge⟩
    · rcases exists_due_or htarget with ⟨due, hdue⟩ | ⟨hlong, hrange⟩
      · rw [hok, hdue]
        exact .ok _
      · rw [hok, hrange]
        exact .error ⟨rfl, .inl hlong⟩
    · rw [hrange]
      exact .error ⟨rfl, hlarge⟩
  have hranks : FaultsOnly (rota.Outranged people) (rota.ranksAt policy s positions) := by
    refine FaultsOnly.mapM fun candidate hcandidate => ?_
    obtain ⟨i, -, hi⟩ := List.mem_filterMap.mp hcandidate
    obtain ⟨h, hgroup, rfl⟩ := Option.map_eq_some_iff.mp hi
    exact (hrank h (List.mem_of_getElem? hgroup)).bind fun r _ => .ok _
  exact hranks.bind fun ranks _ => .ok _

end

end Rota

end Rostering
