import Rostering.Proofs.Generated
import Rostering.Proofs.Overflow
import Mathlib.Data.Finset.Card

namespace Rostering

/-! Whoever may join a shift can be placed on it, so no run is ever refused a place. Each pick for a
shift takes one key out of the running for it, and that ends the filling of the shift. -/

/-- A fault that arithmetic can end with. -/
inductive Fault.IsNumeric : Fault → Prop
  | outOfRange : IsNumeric .outOfRange
  | zeroDivisor : IsNumeric .zeroDivisor
  | notANumber : IsNumeric .integerOfNotANumber

open FaultsOnly Fault

theorem OnlyOverflows.numeric {x : Except Fault α} (hx : OnlyOverflows x) :
    FaultsOnly IsNumeric x := by
  intro fault h
  obtain rfl := hx fault h
  exact .outOfRange

namespace Number

theorem integerPart_numeric (part : Binary64 → Except Binary64.NotFinite Int) (x : Number) :
    FaultsOnly IsNumeric (integerPart part x) := by
  cases x with
  | int n => exact ok n
  | real x =>
      rw [integerPart]
      split
      · exact ok _
      · exact error .notANumber
      · exact error .outOfRange

theorem div_numeric (a b : Number) : FaultsOnly IsNumeric (a.div b) := by
  have hreal : FaultsOnly IsNumeric (do
      let y ← b.toReal
      if y.isZero then throw .zeroDivisor
      return (← a.toReal) / y) := by
    apply (toReal_overflows b).numeric.bind
    intro y _
    split
    · exact error .zeroDivisor
    · apply (toReal_overflows a).numeric.bind
      exact fun x _ => ok _
  cases a with
  | real x => exact hreal
  | int m =>
      cases b with
      | real y => exact hreal
      | int n =>
          rw [div]
          split
          · exact error .zeroDivisor
          · exact (inRange_overflows _).numeric

theorem ratio_numeric (num den : Int) :
    FaultsOnly IsNumeric (Arithmetic.ratio (α := Number) num den) :=
  (div_numeric (.int num) (.int den)).map

end Number

open Number in
theorem Score.urgency_numeric (need left : Int) :
    FaultsOnly IsNumeric (urgency (α := Number) need left) := by
  rw [urgency]
  apply (ratio_numeric need left).bind
  intro share _
  apply (ratio_numeric 1 1).bind
  intro least _
  apply (ratio_numeric 1 1).bind
  intro whole _
  apply (ratio_numeric 1 1).bind
  intro part _
  apply ((div_numeric part _).map).bind
  exact fun rest _ => (combine_overflows _ _ whole rest).numeric

open Number in
theorem Score.currentRotaUrgency_numeric (rota : Rota) (g : Group) :
    FaultsOnly IsNumeric (currentRotaUrgency (α := Number) rota g) := by
  have hneeded : FaultsOnly IsNumeric (needed Number rota g) := by
    apply (combine_overflows _ _ _ rota.target).numeric.bind
    intro due _
    apply (integerPart_numeric _ due).bind
    exact fun whole _ => ok _
  rw [currentRotaUrgency]
  split
  · exact ratio_numeric 0 1
  · apply hneeded.bind
    exact fun need _ => urgency_numeric need _

open Number in
theorem Score.shiftSpread_numeric (rota : Rota) (g : Group) (s : Shift) :
    FaultsOnly IsNumeric (shiftSpread (α := Number) rota g s) := by
  simp only [shiftSpread]
  split
  · exact ratio_numeric 1 2
  · split <;> exact ratio_numeric _ _

theorem CriterionKind.score_numeric (kind : CriterionKind) (rota : Rota) (g : Group) (s : Shift) :
    FaultsOnly IsNumeric (kind.score (α := Number) rota g s) := by
  cases kind with
  | maleBalance => exact (Score.maleBalance_overflows g s).numeric
  | noDoubleShifts => exact Number.ratio_numeric 0 1
  | currentRotaUrgency => exact Score.currentRotaUrgency_numeric rota g
  | promoteGroups => exact (Score.promoteGroups_overflows g).numeric
  | shiftSpread => exact Score.shiftSpread_numeric rota g s

namespace Rota

variable {rota after : Rota} {criteria : List Criterion} {policy : Policy} {s : Shift} {j : Nat}

theorem bonus_numeric (criteria : List Criterion) (g : Group) (s : Shift) :
    FaultsOnly IsNumeric (rota.bonus criteria g s) := by
  have hscores : FaultsOnly IsNumeric (criteria.mapM fun c => c.weightedScore rota g s) := by
    refine FaultsOnly.mapM fun c _ => ?_
    apply (CriterionKind.score_numeric c.kind rota g s).bind
    exact fun score _ => (Number.combine_overflows _ _ score (.real c.weight)).numeric
  exact hscores.bind fun scores _ => (Number.sum_overflows scores).numeric

theorem desiredRemaining_numeric (g : Group) : FaultsOnly IsNumeric (rota.desiredRemaining g) := by
  have htarget : FaultsOnly IsNumeric
      (targetAllocations rota.history.length rota.shifts.length rota.target) := by
    apply (Number.combine_overflows _ _ _ rota.target).numeric.bind
    exact fun product _ => Number.integerPart_numeric _ product
  exact htarget.bind fun due _ => ok _

theorem ranked_numeric (s : Shift) (positions : List Nat) :
    FaultsOnly IsNumeric (rota.ranked policy s positions) := by
  have hrank : ∀ g, FaultsOnly IsNumeric (rota.rankOf policy g s) := by
    intro g
    apply (bonus_numeric policy.criteria g s).bind
    intro bonus _
    apply (desiredRemaining_numeric g).bind
    exact fun owed _ => ok _
  have hranks : FaultsOnly IsNumeric (rota.ranksAt policy s positions) :=
    FaultsOnly.mapM fun candidate _ => (hrank candidate.1).bind fun r _ => ok _
  exact hranks.bind fun ranks _ => ok _

/-- Only its arithmetic can stop a run. -/
theorem allocate_numeric (rota : Rota) (policy : Policy) :
    FaultsOnly IsNumeric (rota.allocate policy) :=
  fillShifts_faults (I := fun _ => True) (fun _ _ _ _ _ => trivial)
    (fun _ _ s _ positions => ranked_numeric s positions) trivial _

theorem mem_eligible_iff_exists_place {i : Nat} (hi : i < rota.groups.length)
    (hshift : rota.shifts[j]? = some s) :
    i ∈ rota.eligible [] s ↔ ∃ after, rota.place i j = .ok after := by
  have hgroup := List.getElem?_eq_getElem hi
  have hjoin : i ∈ rota.eligible [] s ↔ Joins rota.cap rota.groups[i] s := by
    rw [eligible, mem_positionsWhere]
    simp [hgroup, mayJoin_iff]
  simp only [hjoin, place_eq_ok_iff hgroup hshift]
  exact ⟨fun hjoins => ⟨_, hjoins, rfl⟩, fun ⟨_, hjoins, _⟩ => hjoins⟩

def keys (rota : Rota) : Finset String := (rota.groups.map Group.key).toFinset

/-- The keys of the groups that may join a shift. -/
def waiting (rota : Rota) (criteria : List Criterion) (s : Shift) : Finset String :=
  ((rota.groups.filter fun g => rota.mayJoin criteria g s).map Group.key).toFinset

theorem mem_waiting {key : String} :
    key ∈ rota.waiting criteria s ↔
      ∃ g ∈ rota.groups, rota.mayJoin criteria g s = true ∧ g.key = key := by
  simp [waiting, and_assoc]

theorem waiting_subset_keys : rota.waiting criteria s ⊆ rota.keys := by
  intro key hkey
  obtain ⟨g, hg, -, rfl⟩ := mem_waiting.mp hkey
  exact List.mem_toFinset.mpr (List.mem_map_of_mem hg)

theorem eligible_eq_nil_of_waiting (hnone : (rota.waiting criteria s).card = 0) :
    rota.eligible criteria s = [] := by
  refine List.eq_nil_iff_forall_not_mem.mpr fun i hi => ?_
  obtain ⟨g, hgroup, hjoin⟩ := mem_positionsWhere.mp hi
  have hwaiting := mem_waiting.mpr ⟨g, List.mem_of_getElem? hgroup, hjoin, rfl⟩
  rw [Finset.card_eq_zero.mp hnone] at hwaiting
  exact absurd hwaiting (Finset.notMem_empty _)

/-- Nobody starts to wait for a shift, and the key of the group that joined it waits no more. -/
theorem waiting_join_card_lt {i : Nat} {g : Group} (hgroup : rota.groups[i]? = some g)
    (hjoin : rota.mayJoin criteria g s = true) :
    ((rota.join i g j s).waiting criteria (s.seat g)).card < (rota.waiting criteria s).card := by
  have hg := List.mem_of_getElem? hgroup
  have hstill : ∀ key ∈ (rota.join i g j s).waiting criteria (s.seat g),
      key ≠ g.key ∧ key ∈ rota.waiting criteria s := by
    intro key hkey
    obtain ⟨h, hh, hmay, rfl⟩ := mem_waiting.mp hkey
    obtain ⟨hne, hbefore⟩ := mayJoin_of_mayJoin_join hmay
    rcases List.mem_or_eq_of_mem_set hh with hh | rfl
    · exact ⟨hne, mem_waiting.mpr ⟨h, hh, hbefore, rfl⟩⟩
    · exact absurd rfl hne
  apply Finset.card_lt_card
  refine (Finset.ssubset_iff_of_subset fun key hkey => (hstill key hkey).2).mpr ?_
  exact ⟨g.key, mem_waiting.mpr ⟨g, hg, hjoin, rfl⟩, fun hkey => (hstill _ hkey).1 rfl⟩

/-- Choices in a row for the shift at one position, with the positions of the groups chosen. -/
inductive Chosen (policy : Policy) (j : Nat) : Rota → List Nat → Rota → Prop
  | nil (rota : Rota) : Chosen policy j rota [] rota
  | cons {rota next after : Rota} {i : Nat} {picks : List Nat}
      (hchoice : Choice policy j rota i next) (hrest : Chosen policy j next picks after) :
      Chosen policy j rota (i :: picks) after

theorem Choices.exists_chosen (hchoices : Choices policy j rota after) :
    ∃ picks, Chosen policy j rota picks after := by
  induction hchoices using Relation.ReflTransGen.head_induction_on with
  | refl => exact ⟨[], .nil after⟩
  | head hfirst _ ih =>
      obtain ⟨i, hchoice⟩ := hfirst
      obtain ⟨picks, hpicks⟩ := ih
      exact ⟨i :: picks, .cons hchoice hpicks⟩

theorem Chosen.length_le {picks : List Nat} (hchosen : Chosen policy j rota picks after)
    (hshift : rota.shifts[j]? = some s) :
    picks.length ≤ (rota.waiting policy.criteria s).card := by
  induction hchosen generalizing s with
  | nil => exact Nat.zero_le _
  | cons hchoice hrest ih =>
      obtain @⟨i, g, t, hgroup, hat, -, hjoin⟩ := hchoice.pick
      obtain rfl : s = t := Option.some.inj (hshift.symm.trans hat)
      have hlength := (List.getElem?_eq_some_iff.mp hshift).1
      have hless := ih (s := s.seat g) (by simp [join, hlength])
      have hspent := waiting_join_card_lt (j := j) hgroup hjoin
      rw [List.length_cons]
      omega

theorem Chosen.length_le_keys {picks : List Nat} (hchosen : Chosen policy j rota picks after) :
    picks.length ≤ rota.keys.card := by
  cases hshift : rota.shifts[j]? with
  | some s => exact (hchosen.length_le hshift).trans (Finset.card_le_card waiting_subset_keys)
  | none =>
      cases hchosen with
      | nil => exact Nat.zero_le _
      | cons hchoice hrest =>
          obtain ⟨-, hat, -, -⟩ := hchoice.pick
          rw [hshift] at hat
          cases hat

/-- Fuel for every key that waits is as good as any more. -/
theorem fillMembers_fuel {fuel fuel' : Nat} (hshift : rota.shifts[j]? = some s)
    (hfuel : (rota.waiting policy.criteria s).card ≤ fuel)
    (hfuel' : (rota.waiting policy.criteria s).card ≤ fuel') :
    fillMembers policy j fuel rota = fillMembers policy j fuel' rota := by
  induction fuel generalizing rota s fuel' with
  | zero =>
      have hnone := eligible_eq_nil_of_waiting (Nat.le_zero.mp hfuel)
      rw [fillMembers_idle hshift hnone, fillMembers_idle hshift hnone]
  | succ fuel ih =>
      cases fuel' with
      | zero =>
          have hnone := eligible_eq_nil_of_waiting (Nat.le_zero.mp hfuel')
          rw [fillMembers_idle hshift hnone, fillMembers_idle hshift hnone]
      | succ fuel' =>
          simp only [fillMembers, hshift]
          split
          · rfl
          · cases horder : rota.ranked policy s (rota.eligible policy.criteria s) with
            | error fault => rfl
            | ok order =>
                simp only [Bind.bind, Except.bind]
                cases order with
                | nil => rfl
                | cons best rest =>
                    obtain ⟨g, hgroup, hjoin⟩ := exists_of_ranked_head horder
                    have hlength := (List.getElem?_eq_some_iff.mp hshift).1
                    have hspent := waiting_join_card_lt (j := j) hgroup hjoin
                    have hseat : (rota.join best g j s).shifts[j]? = some (s.seat g) := by
                      simp [join, hlength]
                    have hsame : fillMembers policy j fuel (rota.join best g j s) =
                        fillMembers policy j fuel' (rota.join best g j s) := by
                      apply ih hseat <;> omega
                    simpa only [placeAt_of_mayJoin hgroup hshift hjoin] using hsame

theorem fillMembers_fuel_keys {fuel : Nat} (hfuel : rota.keys.card ≤ fuel) :
    fillMembers policy j fuel rota = fillMembers policy j rota.keys.card rota := by
  cases hshift : rota.shifts[j]? with
  | none => rw [fillMembers_absent hshift, fillMembers_absent hshift]
  | some s =>
      have hwaiting : (rota.waiting policy.criteria s).card ≤ rota.keys.card :=
        Finset.card_le_card waiting_subset_keys
      exact fillMembers_fuel hshift (hwaiting.trans hfuel) hwaiting

theorem fillMembers_fuel_groups {fuel : Nat} (hfuel : rota.groups.length ≤ fuel) :
    fillMembers policy j fuel rota = fillMembers policy j rota.groups.length rota := by
  have hkeys : rota.keys.card ≤ rota.groups.length := by
    rw [← List.length_map (f := Group.key)]
    exact List.toFinset_card_le _
  rw [fillMembers_fuel_keys (hkeys.trans hfuel), ← fillMembers_fuel_keys hkeys]

/-- With no criteria, exactly those groups are eligible for a shift that can be placed on it. So no
run is refused a place, fuel for each key lets the filling of a shift come to its end, and it gets
there with at most one pick for each key. -/
theorem filling_never_refused :
    (∀ (rota : Rota) (i j : Nat) (s : Shift), i < rota.groups.length → rota.shifts[j]? = some s →
      (i ∈ rota.eligible [] s ↔ ∃ after, rota.place i j = .ok after)) ∧
    (∀ (rota : Rota) (policy : Policy) (refusal : Refusal),
      rota.allocate policy ≠ .error (.refused refusal)) ∧
    (∀ (rota : Rota) (policy : Policy) (j fuel : Nat), rota.keys.card ≤ fuel →
      fillMembers policy j fuel rota = fillMembers policy j rota.keys.card rota) ∧
    (∀ (rota after : Rota) (policy : Policy) (j : Nat) (picks : List Nat),
      Chosen policy j rota picks after → picks.length ≤ rota.keys.card) ∧
    (∀ (rota after : Rota) (policy : Policy) (j : Nat), fillShift policy rota j = .ok after →
      Settled policy.criteria j after ∧ ∃ picks, Chosen policy j rota picks after) := by
  refine ⟨?_, ?_, ?_, ?_, ?_⟩
  · intro rota i j s hi hshift
    exact mem_eligible_iff_exists_place hi hshift
  · intro rota policy refusal hrefused
    cases allocate_numeric rota policy _ hrefused
  · intro rota policy j fuel hfuel
    exact fillMembers_fuel_keys hfuel
  · intro rota after policy j picks hchosen
    exact hchosen.length_le_keys
  · intro rota after policy j hfill
    obtain ⟨hchoices, hsettled⟩ := fillShift_ok hfill
    exact ⟨hsettled, hchoices.exists_chosen⟩

end Rota

namespace Sample

def doubles : Rota where
  shifts := start.shifts.take 1
  groups := [⟨"red", [bob], .ofList [0], [], 0⟩, ⟨"red", [cy], .ofList [0], [], 0⟩,
    ⟨"blue", [], .ofList [0], [], 0⟩]

def doublesFilled : Rota :=
  { doubles with
    shifts := doubles.shifts.map fun s =>
      { s with placements := [⟨"red", ["bob"], 1, none⟩, ⟨"blue", [], 0, none⟩], maleCount := 1 }
    groups := [⟨"red", [bob], .ofList [0], [0], 0⟩, ⟨"red", [cy], .ofList [0], [], 0⟩,
      ⟨"blue", [], .ofList [0], [0], 0⟩] }

theorem fillShift_doubles : Rota.fillShift {} doubles 0 = .ok doublesFilled := by
  apply toOption_eq_some_iff.mp
  decide +kernel

end Sample

open Sample in
theorem filling_never_refused_sample :
    (∃ after, doubles.place 1 0 = .ok after) ∧
    (¬ ∃ after, doublesFilled.place 1 0 = .ok after) ∧
    (∀ refusal, doubles.allocate {} ≠ .error (.refused refusal)) ∧
    Rota.fillMembers {} 0 3 doubles = Rota.fillMembers {} 0 2 doubles ∧
    Rota.fillShift {} doubles 0 = .ok doublesFilled ∧ doublesFilled.Settled [] 0 ∧
    ∃ picks, Rota.Chosen {} 0 doubles picks doublesFilled ∧ picks.length ≤ 2 := by
  obtain ⟨heligible, hrefused, hfuel, hpicks, hfill⟩ := Rota.filling_never_refused
  obtain ⟨hsettled, picks, hchosen⟩ := hfill _ _ _ _ fillShift_doubles
  have hfirst := heligible doubles 1 0 ⟨week 1, 0, 2, [], [], none, 0⟩ (by decide) rfl
  have hsecond := heligible doublesFilled 1 0
    ⟨week 1, 0, 2, [⟨"red", ["bob"], 1, none⟩, ⟨"blue", [], 0, none⟩], [], none, 1⟩ (by decide) rfl
  exact ⟨hfirst.mp (by decide), hsecond.not.mp (by decide), hrefused doubles {},
    hfuel doubles {} 0 3 (by decide), fillShift_doubles, hsettled, picks, hchosen,
    hpicks _ _ _ _ _ hchosen⟩

end Rostering
