import Rostering.Proofs.Generated
import Rostering.Proofs.Queue

namespace Rostering

/-! Filling a shift is one first-fit pass. Ranks are taken anew for every pick, but with distinct
keys, people in every group and numbers for bonuses they might as well be taken once. -/

namespace Rota

/-- Places a group on the shift at a position if it fits there. -/
def placeIfFits (shift : Nat) (rota : Rota) (i : Nat) : Except Fault Rota :=
  match rota.groups[i]?, rota.shifts[shift]? with
  | some g, some s => if s.canFit g.size then rota.placeAt i shift else .ok rota
  | _, _ => .ok rota

/-- Goes through some groups once. -/
def firstFit (shift : Nat) (order : List Nat) (rota : Rota) : Except Fault Rota :=
  order.foldlM (placeIfFits shift) rota

/-- Ranks the groups that may join the shift at a position, and goes through them once. -/
def fillMembersOnce (policy : Policy) (shift : Nat) (rota : Rota) : Except Fault Rota :=
  match rota.shifts[shift]? with
  | none => .ok rota
  | some s => do firstFit shift (← rota.ranked policy s (rota.eligible policy.criteria s)) rota

variable {rota led : Rota} {policy : Policy} {g : Group} {s : Shift} {j : Nat}

theorem Queue.fillMembers_eq {queue : List (Rank × Nat)} {fuel : Nat}
    (hbalance : ∀ c ∈ policy.criteria, c.kind ≠ .maleBalance)
    (hqueue : Queue policy s queue rota) (hshift : rota.shifts[j]? = some s)
    (hfuel : (rota.eligible policy.criteria s).length ≤ fuel) :
    fillMembers policy j fuel rota = firstFit j (queue.map (·.2)) rota := by
  induction queue generalizing rota s fuel with
  | nil => exact fillMembers_idle hshift hqueue.eligible_nil
  | cons x rest ih =>
      obtain ⟨r, i⟩ := x
      obtain ⟨g, hgroup, -, -, hsome⟩ := hqueue.standing r i List.mem_cons_self
      rw [List.map_cons, firstFit, List.foldlM_cons]
      cases hfits : s.canFit g.size with
      | false =>
          have hskip : placeIfFits j rota i = .ok rota := by
            simp [placeIfFits, hgroup, hshift, hfits]
          rw [hskip]
          exact ih (hqueue.skip hgroup hfits) hshift hfuel
      | true =>
          have hjoin := (hqueue.mayJoin_iff i g hgroup).mpr ⟨List.mem_cons_self, hfits⟩
          have hplace := placeAt_of_mayJoin hgroup hshift hjoin
          have hput : placeIfFits j rota i = .ok (rota.join i g j s) := by
            simp [placeIfFits, hgroup, hshift, hfits, hplace]
          obtain ⟨others, horder⟩ := hqueue.ranked_eq hgroup hfits
          have hlength := (List.getElem?_eq_some_iff.mp hshift).1
          have hseat : (rota.join i g j s).shifts[j]? = some (s.seat g) := by
            simp [join, hlength]
          have hspent := eligible_join_length_lt (j := j) hgroup hjoin
          obtain ⟨left, rfl⟩ : ∃ left, fuel = left + 1 := ⟨fuel - 1, by omega⟩
          have hrest := ih (hqueue.seat hbalance hgroup) hseat (by omega : _ ≤ left)
          have hroom := not_full_of_canFit hfits hsome
          simp only [fillMembers, hshift, hroom, horder, hput, Bool.false_eq_true, if_false]
          change (rota.placeAt i j >>= fillMembers policy j left) = _
          rw [hplace]
          exact hrest

/-- Once the lead of a shift has been seen to, nobody with a lead may join it. -/
theorem leadless_of_fillLead (h : fillLead policy j rota = .ok led)
    (hshift : led.shifts[j]? = some s) (hroom : s.isFull = false) (hg : g ∈ led.groups)
    (hjoin : led.mayJoin policy.criteria g s = true) : g.hasTeamLead = false := by
  cases hled : g.hasTeamLead with
  | false => rfl
  | true =>
      have hbare : s.teamLead = none := (mayJoin_iff.mp hjoin).1.leadFree hled
      cases hstart : rota.shifts[j]? with
      | none =>
          obtain rfl : rota = led := by simpa [fillLead, hstart] using h
          simp [hshift] at hstart
      | some before =>
          by_cases hskip : (before.teamLead.isSome || before.isFull) = true
          · obtain rfl : rota = led := by simpa [fillLead, hstart, hskip] using h
            obtain rfl : before = s := Option.some.inj (hstart.symm.trans hshift)
            simp [hbare, hroom] at hskip
          · simp only [Bool.or_eq_true, not_or, Bool.not_eq_true, Option.isSome_eq_false_iff,
              Option.isNone_iff_eq_none] at hskip
            rcases fillLead_ok hstart hskip.2 hskip.1 h with
              ⟨hnone, rfl⟩ | ⟨i, rest, lead, hgroup, hlead, -, rfl⟩
            · obtain rfl : before = s := Option.some.inj (hstart.symm.trans hshift)
              obtain ⟨k, hk⟩ := List.getElem?_of_mem hg
              have hmem : k ∈ led.eligibleLeads policy.criteria before :=
                mem_positionsWhere.mpr ⟨g, hk, Bool.and_eq_true_iff.mpr ⟨hled, hjoin⟩⟩
              simp [hnone] at hmem
            · have hlength := (List.getElem?_eq_some_iff.mp hstart).1
              obtain rfl : before.seat lead = s := by simpa [join, hlength] using hshift
              rw [Shift.seat_teamLead, Option.or_eq_none_iff] at hbare
              simp [Group.hasTeamLead, hbare.1] at hlead

/-- Where ranking fails somebody was ranked, so the loop starts with that as well. -/
theorem fillMembers_error {fault : Fault} (hshift : rota.shifts[j]? = some s)
    (hroom : ∀ g ∈ rota.groups, rota.mayJoin policy.criteria g s = true → s.isFull = false)
    (hranks : rota.ranksAt policy s (rota.eligible policy.criteria s) = .error fault) :
    fillMembers policy j rota.groups.length rota = .error fault := by
  cases heligible : rota.eligible policy.criteria s with
  | nil =>
      rw [heligible] at hranks
      cases hranks
  | cons i rest =>
      have hi : i ∈ rota.eligible policy.criteria s := heligible.symm ▸ List.mem_cons_self
      obtain ⟨g, hgroup, hjoin⟩ := mem_positionsWhere.mp hi
      have hopen := hroom g (List.mem_of_getElem? hgroup) hjoin
      have hcount := (List.getElem?_eq_some_iff.mp hgroup).1
      obtain ⟨fuel, hfuel⟩ : ∃ fuel, rota.groups.length = fuel + 1 :=
        ⟨rota.groups.length - 1, by omega⟩
      rw [hfuel]
      simp only [fillMembers, hshift, hopen, ranked, hranks]
      rfl

/-- With distinct keys, no group without members and nobody to balance men by, the filling of a
shift that is picked for by ranks taken anew is a first-fit pass over the groups that may join once
its lead has been seen to, ranked once. A bonus that is no number would spoil the ranks. -/
theorem fillShift_eq_fillMembersOnce (hkeys : (rota.groups.map Group.key).Nodup)
    (hsome : ∀ g ∈ rota.groups, g.members ≠ [])
    (hbalance : ∀ c ∈ policy.criteria, c.kind ≠ .maleBalance)
    (hnumbers : ∀ led s, fillLead policy j rota = .ok led → led.shifts[j]? = some s →
      ∀ g ∈ led.groups, led.mayJoin policy.criteria g s = true →
        led.bonus policy.criteria g s ≠ .ok (.real .nan)) :
    fillShift policy rota j = fillLead policy j rota >>= fillMembersOnce policy j := by
  rw [fillShift]
  cases hlead : fillLead policy j rota with
  | error fault => rfl
  | ok led =>
      change fillMembers policy j led.groups.length led = fillMembersOnce policy j led
      cases hshift : led.shifts[j]? with
      | none => rw [fillMembers_absent hshift, fillMembersOnce, hshift]
      | some s =>
          have hblank := (fillLead_choices hlead).picks.blank_eq
          have hkeys' : (led.groups.map Group.key).Nodup :=
            keys_eq_of_blank_eq hblank ▸ hkeys
          have hsome' : ∀ g ∈ led.groups, g.members ≠ [] := by
            intro g hg
            obtain ⟨k, hk⟩ := List.getElem?_of_mem hg
            obtain ⟨before, hbefore, hsame⟩ := exists_group_of_blank_eq hblank hk
            have hmembers : before.members = g.members := by
              simpa [Group.blank] using congrArg Group.members hsame
            exact hmembers ▸ hsome before (List.mem_of_getElem? hbefore)
          have hroom : ∀ g ∈ led.groups, led.mayJoin policy.criteria g s = true →
              s.isFull = false := fun g hg hjoin =>
            not_full_of_canFit (Shift.canFit_iff.mpr (mayJoin_iff.mp hjoin).1.fits) (hsome' g hg)
          simp only [fillMembersOnce, hshift, ranked]
          cases hranks : led.ranksAt policy s (led.eligible policy.criteria s) with
          | error fault => exact fillMembers_error hshift hroom hranks
          | ok ranks =>
              have hqueue := queue_of_ranksAt hkeys' hsome'
                (fun g hg hjoin => leadless_of_fillLead hlead hshift (hroom g hg hjoin) hg hjoin)
                (hnumbers led s hlead hshift) hranks
              exact hqueue.fillMembers_eq hbalance hshift (positionsWhere_length_le _)

end Rota

namespace Sample

def crowd : Rota where
  shifts := (start.shifts.take 1).map fun s => { s with size := 4 }
  groups := [⟨"ada", [ada], .ofList [0], [], 0⟩,
    ⟨"blue", [bob, cy], .ofList [0], [], 0⟩,
    ⟨"green", [{ id := "dee" }, { id := "eli" }], .ofList [0], [], 0⟩,
    ⟨"individual_fay", [{ id := "fay" }], .ofList [0], [], 0⟩]

def crowdPolicy : Policy where
  criteria := [⟨.promoteGroups, .one⟩, ⟨.shiftSpread, .one⟩]

def crowdLed : Rota :=
  { crowd with
    shifts := crowd.shifts.map fun s =>
      { s with placements := [⟨"ada", ["ada"], 0, some "ada"⟩], teamLead := some ada }
    groups := ⟨"ada", [ada], .ofList [0], [0], 0⟩ :: crowd.groups.tail }

theorem fillLead_crowd : Rota.fillLead crowdPolicy 0 crowd = .ok crowdLed := by
  decide +kernel

/-- The second pair does not fit any more, and the pass goes on to whom does. -/
theorem fillShift_crowd :
    ((Rota.fillShift crowdPolicy crowd 0).toOption.map fun rota =>
      rota.shifts.map Shift.groupKeys) = some [["ada", "blue", "individual_fay"]] := by
  decide +kernel

end Sample

theorem fillShift_eq_fillMembersOnce_sample :
    Rota.fillShift Sample.crowdPolicy Sample.crowd 0 =
      Rota.fillLead Sample.crowdPolicy 0 Sample.crowd >>=
        Rota.fillMembersOnce Sample.crowdPolicy 0 ∧
    ((Rota.fillShift Sample.crowdPolicy Sample.crowd 0).toOption.map fun rota =>
      rota.shifts.map Shift.groupKeys) = some [["ada", "blue", "individual_fay"]] := by
  refine ⟨?_, Sample.fillShift_crowd⟩
  apply Rota.fillShift_eq_fillMembersOnce
  · decide
  · decide
  · decide
  · intro led s hlead hshift
    obtain rfl := Except.ok.inj (Sample.fillLead_crowd.symm.trans hlead)
    have hfirst : Sample.crowdLed.shifts[0]? =
        some ⟨Sample.week 1, 0, 4, [⟨"ada", ["ada"], 0, some "ada"⟩], [], some Sample.ada, 0⟩ := rfl
    obtain rfl := Option.some.inj (hfirst.symm.trans hshift)
    decide +kernel

namespace Sample

/-- A finite weight so large that two such scores together are not. -/
def huge : Binary64 := .ofRatio (17 * Nat.pow 10 307 : Nat) 1

def hugePolicy : Policy where
  criteria := [⟨.promoteGroups, huge⟩, ⟨.currentRotaUrgency, huge⟩, ⟨.shiftSpread, -huge⟩]

def lopsided : Rota where
  shifts := start.shifts.zipWith (fun s (index, size) => { s with index, size }) [(0, 0), (100, 2)]
  groups := [⟨"a", [{ id := "a-0" }], .ofList [100], [], 0⟩,
    ⟨"z", [{ id := "z-0" }], .ofList [100], [], 0⟩,
    ⟨"n", [{ id := "n-0" }, { id := "n-1" }], .ofList [100], [], 0⟩,
    ⟨"c", [{ id := "c-0" }], .ofList [100], [], 0⟩]
  history := input.history.map fun s => { s with placements := [⟨"n", ["n-0", "n-1"], 0, none⟩] }
  target := .real .one

end Sample

/-- Finite weights alone do not do. The scores of the pair run out of range upwards and downwards,
so that its bonus is no number, and beside it the others do not come out in order. -/
theorem fillShift_ne_fillMembersOnce_huge :
    (Sample.lopsided.groups.map Group.key).Nodup ∧
    (∀ g ∈ Sample.lopsided.groups, g.members ≠ []) ∧
    (∀ c ∈ Sample.hugePolicy.criteria, c.kind ≠ .maleBalance ∧ c.weight.finite?.isSome = true) ∧
    Rota.fillShift Sample.hugePolicy Sample.lopsided 1 ≠
      Rota.fillLead Sample.hugePolicy 1 Sample.lopsided >>=
        Rota.fillMembersOnce Sample.hugePolicy 1 :=
  ⟨by decide, by decide, by decide +kernel, by decide +kernel⟩

end Rostering
