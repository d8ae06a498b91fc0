import Rostering.Proofs.Exact
import Rostering.Proofs.Reached
import Mathlib.Data.Rat.Floor
import Mathlib.Tactic.FieldSimp
import Mathlib.Tactic.Linarith
import Mathlib.Tactic.NormNum

namespace Rostering

/-! Scores in exact arithmetic. In every rota that a run comes to each of them is defined and lies
between zero and one. -/

/-- How many of the shifts open to a group it does not hold. -/
def Group.left (g : Group) : Int := g.available.size - g.allocationCount

namespace Score

open Arithmetic

theorem ratio_zero_one : ratio 0 1 = .ok (0 : Rat) := by
  rw [ratio_exact 0 one_ne_zero]
  norm_num

theorem ratio_one_one : ratio 1 1 = .ok (1 : Rat) := by
  rw [ratio_exact 1 one_ne_zero]
  norm_num

variable {rota : Rota} {g : Group} {s : Shift}

theorem maleBalance_exact (hmen : 0 ≤ s.maleCount) :
    ∃ x : Rat, maleBalance g s = .ok x ∧ 0 ≤ x ∧ x ≤ 1 := by
  rw [maleBalance]
  split
  · exact ⟨0, ratio_zero_one, le_refl 0, zero_le_one⟩
  · have hmet : (0 : Rat) ≤ s.maleCount := Int.cast_nonneg hmen
    refine ⟨max (1 - 1 / 2 * s.maleCount) (1 / 10), ?_, ?_, ?_⟩
    · simp only [bind_eq_ok, pure_eq_ok]
      refine ⟨_, ratio_one_one, _, ratio_exact 1 two_ne_zero, _, rfl, _, rfl, _,
        ratio_exact 1 (by decide), ?_⟩
      rw [larger_exact]
      change max (((1 : Rat)) - ((1 : Int) : Rat) / ((2 : Int) : Rat) * s.maleCount)
        (((1 : Int) : Rat) / ((10 : Int) : Rat)) = _
      push_cast
      rfl
    · exact le_max_of_le_right (by norm_num)
    · exact max_le (by linarith) (by norm_num)

theorem promoteGroups_exact (g : Group) :
    ∃ x : Rat, promoteGroups g = .ok x ∧ 0 ≤ x ∧ x ≤ 1 := by
  rw [promoteGroups]
  split
  · exact ⟨1, ratio_one_one, zero_le_one, le_refl 1⟩
  · exact ⟨0, ratio_zero_one, le_refl 0, zero_le_one⟩

theorem urgency_exact (need : Int) {left : Int} (hleft : 0 < left) :
    ∃ x : Rat, urgency need left = .ok x ∧ 0 ≤ x ∧ x < 1 ∧ (0 < x ↔ left < need) := by
  have hpositive : (0 : Rat) < left := Int.cast_pos.mpr hleft
  have hshare : 1 ≤ max (need / left : Rat) 1 := le_max_right _ _
  have hsafe : 0 < max (need / left : Rat) 1 := lt_of_lt_of_le zero_lt_one hshare
  refine ⟨1 - 1 / max (need / left : Rat) 1, ?_, ?_, ?_, ?_⟩
  · simp only [urgency, bind_eq_ok]
    refine ⟨_, ratio_exact need (ne_of_gt hleft), _, ratio_one_one, _, ratio_one_one, _,
      ratio_one_one, _, div_exact 1 ?_, ?_⟩
    · rw [larger_exact]
      exact ne_of_gt hsafe
    · rw [larger_exact]
      rfl
  · rw [sub_nonneg, div_le_one hsafe]
    exact hshare
  · rw [sub_lt_self_iff]
    exact one_div_pos.mpr hsafe
  · rw [sub_pos, div_lt_one hsafe, lt_max_iff, or_iff_left (lt_irrefl 1), one_lt_div hpositive,
      Int.cast_lt]

theorem needed_exact {q : Rat} (hvalue : rota.target.value? = some q) (hq : 0 ≤ q) (g : Group) :
    needed Rat rota g = .ok (⌊rota.shifts.length * q⌋ - g.allocationCount) := by
  have hdue : 0 ≤ ((rota.shifts.length : Int) : Rat) * q :=
    mul_nonneg (Int.cast_nonneg (Int.natCast_nonneg _)) hq
  have hnum : 0 ≤ (((rota.shifts.length : Int) : Rat) * q).num := Rat.num_nonneg.mpr hdue
  have hnumber : ofNumber (α := Rat) rota.target = .ok q := by
    change rota.target.value?.elim _ _ = _
    rw [hvalue]
    rfl
  simp only [needed, bind_eq_ok, pure_eq_ok]
  refine ⟨q, hnumber, _, rfl, _, rfl, ?_⟩
  change (((rota.shifts.length : Int) : Rat) * q).num.tdiv
    (((rota.shifts.length : Int) : Rat) * q).den - _ = _
  rw [Int.tdiv_eq_ediv_of_nonneg hnum, ← Rat.floor_def, Int.cast_natCast]
  rfl

theorem currentRotaUrgency_exact {q : Rat} (hvalue : rota.target.value? = some q) (hq : 0 ≤ q)
    (g : Group) :
    ∃ x : Rat, currentRotaUrgency rota g = .ok x ∧ 0 ≤ x ∧ x < 1 ∧
      (0 < x ↔ 0 < g.left ∧ g.left < ⌊rota.shifts.length * q⌋ - g.allocationCount) := by
  simp only [currentRotaUrgency]
  change ∃ x : Rat, (if g.left ≤ 0 then _ else _) = _ ∧ _
  split
  · next hnone =>
      refine ⟨0, ratio_zero_one, le_refl 0, zero_lt_one, fun h => absurd h (lt_irrefl 0), ?_⟩
      intro hleft
      omega
  · next hsome =>
      have hleft : 0 < g.left := by omega
      obtain ⟨x, hx, hnonneg, hlt, hpositive⟩ :=
        urgency_exact (⌊rota.shifts.length * q⌋ - g.allocationCount) hleft
      refine ⟨x, ?_, hnonneg, hlt, hpositive.trans (and_iff_right hleft).symm⟩
      rw [needed_exact hvalue hq g]
      exact hx

section

variable (hs : 0 ≤ s.index ∧ s.index < rota.shifts.length)
  (hheld : ∀ i ∈ g.allocated, 0 ≤ i ∧ i < rota.shifts.length)
  {first : Nat} {others : List Nat} (htaken : distances rota g s = first :: others)
include hs htaken

theorem nearest_eq_zero (hzero : nearest first others = 0) : s.index ∈ g.allocated := by
  have hnear := (nearest_spec first others).1
  rw [← htaken, hzero, mem_distances_iff] at hnear
  rcases hnear with ⟨i, hi, hat⟩ | ⟨last, hlast, hat⟩
  · obtain rfl : s.index = i := by omega
    exact hi
  · have hbefore := rota.lastWorked?_lt hlast
    omega

include hheld

theorem nearest_le_room : nearest first others ≤ room rota g := by
  obtain ⟨hnear, hleast⟩ := nearest_spec first others
  rw [← htaken] at hnear hleast
  -- The last shift worked bounds the distance, and without one the rotation itself does.
  cases hlast : rota.lastWorked? g.key with
  | none =>
      rw [room_of_none hlast]
      rcases mem_distances_iff.mp hnear with ⟨i, hi, hat⟩ | ⟨last, hsome, -⟩
      · have hbounds := hheld i hi
        omega
      · cases hlast.symm.trans hsome
  | some last =>
      have hbefore := rota.lastWorked?_lt hlast
      have hfar := hleast _ (mem_distances_iff.mpr (.inr ⟨last, hlast, rfl⟩))
      rw [room_of_some hlast]
      omega

end

theorem shiftSpread_exact (hs : 0 ≤ s.index ∧ s.index < rota.shifts.length)
    (hheld : ∀ i ∈ g.allocated, 0 ≤ i ∧ i < rota.shifts.length) :
    ∃ x : Rat, shiftSpread rota g s = .ok x ∧ 0 ≤ x ∧ x ≤ 1 ∧
      (1 < rota.shifts.length →
        (g.allocated = [] → rota.lastWorked? g.key = none → x = 1) ∧
        (x = 0 → s.index ∈ g.allocated)) := by
  rw [shiftSpread]
  split
  · next hone =>
      refine ⟨1 / 2, ?_, by norm_num, by norm_num, fun hmany => by omega⟩
      rw [ratio_exact 1 two_ne_zero]
      rfl
  · next hmany =>
      have hroom : 0 < room rota g := room_pos g (by omega)
      have hpositive : (0 : Rat) < room rota g := Int.cast_pos.mpr hroom
      cases htaken : distances rota g s with
      | nil =>
          refine ⟨1, ratio_one_one, zero_le_one, le_refl 1, fun _ => ⟨fun _ _ => rfl, ?_⟩⟩
          exact fun hzero => absurd hzero one_ne_zero
      | cons first others =>
          refine ⟨_, ratio_exact _ (ne_of_gt hroom), ?_, ?_, fun _ => ⟨?_, ?_⟩⟩
          · exact div_nonneg (Int.cast_nonneg (Int.natCast_nonneg _)) (le_of_lt hpositive)
          · rw [div_le_one hpositive]
            exact Int.cast_le.mpr (nearest_le_room hs hheld htaken)
          · intro hnone hlast
            rw [distances, hnone, hlast] at htaken
            cases htaken
          · intro hzero
            rw [div_eq_zero_iff, or_iff_left (ne_of_gt hpositive), Int.cast_eq_zero,
              Int.natCast_eq_zero] at hzero
            exact nearest_eq_zero hs htaken hzero

end Score

theorem Rota.lastWorked?_eq_none {rota : Rota} {key : String}
    (hnever : Resolution.countWorked rota.history key = 0) : rota.lastWorked? key = none := by
  rw [lastWorked?, List.find?_eq_none]
  intro i _
  rw [Resolution.countWorked, List.countP_eq_zero] at hnever
  cases hworked : rota.history[i]? with
  | none => exact Bool.false_ne_true
  | some worked => exact hnever worked (List.mem_of_getElem? hworked)

/-- What the scores of a group for a shift come to when they are computed exactly. The share of
the shifts that a group is due may still be rounded, as a run rounds it. -/
structure Rota.WellScored (rota : Rota) (g : Group) (s : Shift) : Prop where
  inUnit : ∀ kind : CriterionKind, ∃ x : Rat, kind.score rota g s = .ok x ∧ 0 ≤ x ∧ x ≤ 1
  urgent : ∃ q x : Rat, rota.target.value? = some q ∧
    CriterionKind.currentRotaUrgency.score rota g s = .ok x ∧ x < 1 ∧
      (0 < x ↔ 0 < g.left ∧ g.left < ⌊rota.shifts.length * q⌋ - g.allocationCount)
  rounded : ∀ need, Score.needed Number rota g = .ok need → 0 < g.left →
    ∃ x : Rat, Score.urgency need g.left = .ok x ∧ 0 ≤ x ∧ x < 1 ∧ (0 < x ↔ g.left < need)
  fresh : 1 < rota.shifts.length → g.allocated = [] → g.historicalCount = 0 →
    CriterionKind.shiftSpread.score rota g s = .ok (1 : Rat)
  held : 1 < rota.shifts.length → CriterionKind.shiftSpread.score rota g s = .ok (0 : Rat) →
    s.index ∈ g.allocated

/-- However far a run has come, every group is well scored for every shift. -/
theorem scores_in_range {request : Request} {j : Nat} {rota : Rota}
    (hreach : request.Reaches j rota) {g : Group} (hg : g ∈ rota.groups) {s : Shift}
    (hs : s ∈ rota.shifts) : rota.WellScored g s := by
  obtain ⟨q, hvalue, hq, -⟩ := Number.isTarget_iff_inUnit.mp hreach.isTarget
  obtain ⟨urgency, hurgency, hleast, hmost, hpositive⟩ :=
    Score.currentRotaUrgency_exact hvalue (le_of_lt hq) g
  obtain ⟨spread, hspread, hspreadLeast, hspreadMost, hends⟩ :=
    Score.shiftSpread_exact (hreach.measured.index s hs) (hreach.measured.held g hg)
  constructor
  case inUnit =>
    intro kind
    cases kind with
    | maleBalance => exact Score.maleBalance_exact (hreach.maleCount_nonneg hs)
    | noDoubleShifts => exact ⟨0, Score.ratio_zero_one, le_refl 0, zero_le_one⟩
    | currentRotaUrgency => exact ⟨urgency, hurgency, hleast, le_of_lt hmost⟩
    | promoteGroups => exact Score.promoteGroups_exact g
    | shiftSpread => exact ⟨spread, hspread, hspreadLeast, hspreadMost⟩
  case urgent => exact ⟨q, urgency, hvalue, hurgency, hmost, hpositive⟩
  case rounded => exact fun need _ hleft => Score.urgency_exact need hleft
  case fresh =>
    intro hmany hnone hnever
    rw [hreach.historicalCount_eq hg, Int.natCast_eq_zero] at hnever
    obtain rfl := (hends hmany).1 hnone (Rota.lastWorked?_eq_none hnever)
    exact hspread
  case held =>
    intro hmany hzero
    exact (hends hmany).2 (Except.ok.inj (hspread.symm.trans hzero))

/-- In the sample cy worked the last shift before the rotation and holds the last one of it. -/
theorem scores_in_range_sample :
    Sample.input.Reaches 3 Sample.final ∧
    (∀ g ∈ Sample.final.groups, ∀ s ∈ Sample.final.shifts, Sample.final.WellScored g s) ∧
    (Sample.final.shifts.map fun s =>
      Sample.final.groups.map fun g =>
        (CriterionKind.shiftSpread.score (α := Rat) Sample.final g s).toOption) =
      [[some (1 / 3), some (1 / 2)], [some (1 / 3), some 0], [some 0, some (1 / 2)]] := by
  obtain ⟨outcome, haccepted, hfinal⟩ := Sample.generate_input
  have hreach : Sample.input.Reaches 3 Sample.final := hfinal ▸ generate_reaches haccepted
  exact ⟨hreach, fun g hg s hs => scores_in_range hreach hg hs, by decide +kernel⟩

end Rostering
