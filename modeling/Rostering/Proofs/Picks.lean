import Rostering.Proofs.Joining
import Mathlib.Logic.Relation

namespace Rostering

/-! A run as a series of picks. A pick lets one group join one shift that has room, and leaves all
else as it is: the rota less its placements never changes. -/

def Group.blank (g : Group) : Group := { g with allocated := [] }

def Shift.blank (s : Shift) : Shift :=
  { s with placements := [], teamLead := none, maleCount := 0 }

@[simp] theorem Group.blank_take (g : Group) (i : Int) : (g.take i).blank = g.blank := rfl

@[simp] theorem Shift.blank_seat (s : Shift) (g : Group) : (s.seat g).blank = s.blank := rfl

namespace Rota

/-- The rota as it stands before anybody is placed. -/
def blank (rota : Rota) : Rota :=
  { rota with
    groups := rota.groups.map Group.blank
    shifts := rota.shifts.map Shift.blank }

theorem set_map_self {f : α → β} {xs : List α} {i : Nat} {x y : α} (hx : xs[i]? = some x)
    (hy : f y = f x) : (xs.set i y).map f = xs.map f := by
  apply List.ext_getElem?
  intro k
  by_cases hki : i = k
  · subst hki
    obtain ⟨hi, rfl⟩ := List.getElem?_eq_some_iff.mp hx
    simp [hi, hy]
  · simp [hki]

theorem blank_join {rota : Rota} {i j : Nat} {g : Group} {s : Shift}
    (hgroup : rota.groups[i]? = some g) (hshift : rota.shifts[j]? = some s) :
    (rota.join i g j s).blank = rota.blank := by
  simp only [blank, join, set_map_self hgroup (Group.blank_take g s.index),
    set_map_self hshift (Shift.blank_seat s g)]

/-- One group, allowed by the criteria, joins the shift at a position. -/
inductive Pick (criteria : List Criterion) (j : Nat) (rota : Rota) : Rota → Prop
  | join {i : Nat} {g : Group} {s : Shift}
      (hgroup : rota.groups[i]? = some g) (hshift : rota.shifts[j]? = some s)
      (hroom : s.isFull = false) (hjoin : rota.mayJoin criteria g s = true) :
      Pick criteria j rota (rota.join i g j s)

/-- Some picks in a row, all for shifts at the given positions. -/
abbrev Picks (criteria : List Criterion) (positions : List Nat) : Rota → Rota → Prop :=
  Relation.ReflTransGen fun rota after => ∃ j ∈ positions, Pick criteria j rota after

variable {criteria : List Criterion} {positions : List Nat} {rota after : Rota}

/-- What each pick keeps, a run keeps. -/
theorem Picks.preserves {P : Rota → Prop}
    (hstep : ∀ a b j, Pick criteria j a b → P a → P b)
    (hpicks : Picks criteria positions rota after) (hstart : P rota) : P after := by
  induction hpicks with
  | refl => exact hstart
  | tail _ hpick ih =>
      obtain ⟨j, -, hpick⟩ := hpick
      exact hstep _ _ j hpick ih

theorem Picks.mono {more : List Nat} (hsubset : positions ⊆ more)
    (hpicks : Picks criteria positions rota after) : Picks criteria more rota after :=
  Relation.ReflTransGen.mono
    (fun _ _ ⟨j, hj, hpick⟩ => ⟨j, hsubset hj, hpick⟩) _ _ hpicks

theorem Pick.blank_eq {j : Nat} (hpick : Pick criteria j rota after) :
    after.blank = rota.blank := by
  obtain ⟨hgroup, hshift, -, -⟩ := hpick
  exact blank_join hgroup hshift

theorem Picks.blank_eq (hpicks : Picks criteria positions rota after) :
    after.blank = rota.blank :=
  hpicks.preserves (P := fun between => between.blank = rota.blank)
    (fun _ _ _ hpick hblank => hpick.blank_eq.trans hblank) rfl

theorem cap_eq_of_blank_eq (hblank : after.blank = rota.blank) : after.cap = rota.cap := by
  simpa [blank] using congrArg Rota.cap hblank

theorem history_eq_of_blank_eq (hblank : after.blank = rota.blank) :
    after.history = rota.history := by
  simpa [blank] using congrArg Rota.history hblank

theorem target_eq_of_blank_eq (hblank : after.blank = rota.blank) :
    after.target = rota.target := by
  simpa [blank] using congrArg Rota.target hblank

theorem exists_shift_of_blank_eq (hblank : after.blank = rota.blank) {j : Nat} {s : Shift}
    (hshift : after.shifts[j]? = some s) :
    ∃ before, rota.shifts[j]? = some before ∧ before.blank = s.blank := by
  have hat : (after.blank.shifts)[j]? = (rota.blank.shifts)[j]? := by rw [hblank]
  simp only [blank, List.getElem?_map, hshift, Option.map_some] at hat
  exact Option.map_eq_some_iff.mp hat.symm

theorem exists_shift_of_index (hblank : after.blank = rota.blank) {j : Nat} {s : Shift}
    (hshift : after.shifts[j]? = some s) :
    ∃ before, rota.shifts[j]? = some before ∧ before.index = s.index := by
  obtain ⟨before, hbefore, hsame⟩ := exists_shift_of_blank_eq hblank hshift
  exact ⟨before, hbefore, by simpa [Shift.blank] using congrArg Shift.index hsame⟩

theorem exists_group_of_blank_eq (hblank : after.blank = rota.blank) {i : Nat} {g : Group}
    (hgroup : after.groups[i]? = some g) :
    ∃ before, rota.groups[i]? = some before ∧ before.blank = g.blank := by
  have hat : (after.blank.groups)[i]? = (rota.blank.groups)[i]? := by rw [hblank]
  simp only [blank, List.getElem?_map, hgroup, Option.map_some] at hat
  exact Option.map_eq_some_iff.mp hat.symm

theorem shifts_length_eq_of_blank_eq (hblank : after.blank = rota.blank) :
    after.shifts.length = rota.shifts.length := by
  simpa [blank] using congrArg (fun between => between.shifts.length) hblank

theorem keys_eq_of_blank_eq (hblank : after.blank = rota.blank) :
    after.groups.map Group.key = rota.groups.map Group.key := by
  have hgroups : after.groups.map Group.blank = rota.groups.map Group.blank :=
    congrArg Rota.groups hblank
  have hkeys := congrArg (List.map Group.key) hgroups
  rw [List.map_map, List.map_map] at hkeys
  exact hkeys

theorem Picks.shift_eq {j : Nat} (hj : j ∉ positions)
    (hpicks : Picks criteria positions rota after) : after.shifts[j]? = rota.shifts[j]? := by
  induction hpicks with
  | refl => rfl
  | tail _ hpick ih =>
      obtain ⟨k, hk, hpick⟩ := hpick
      obtain ⟨hgroup, hshift, -, -⟩ := hpick
      have hne : k ≠ j := fun heq => hj (heq ▸ hk)
      rw [← ih, join, List.getElem?_set_ne hne]

/-- A shift keeps its entries and its lead, and adds entries behind them. -/
theorem Picks.shift_grows {j : Nat} {s : Shift} (hshift : rota.shifts[j]? = some s)
    (hpicks : Picks criteria positions rota after) :
    ∃ t added, after.shifts[j]? = some t ∧ t.blank = s.blank ∧
      t.placements = s.placements ++ added ∧
        ∀ lead, s.teamLead = some lead → t.teamLead = some lead := by
  induction hpicks with
  | refl => exact ⟨s, [], hshift, rfl, by simp, fun _ hlead => hlead⟩
  | tail _ hpick ih =>
      obtain ⟨t, added, hat, hblank, hadded, hkept⟩ := ih
      obtain ⟨k, -, hpick⟩ := hpick
      obtain @⟨i, g, u, hgroup, hu, -, hjoin⟩ := hpick
      by_cases hkj : k = j
      · subst hkj
        obtain rfl : t = u := Option.some.inj (hat.symm.trans hu)
        have hlength := (List.getElem?_eq_some_iff.mp hu).1
        refine ⟨t.seat g, added ++ [.ofGroup g], by simp [join, hlength], hblank, ?_, ?_⟩
        · simp [hadded]
        · exact fun lead hlead => (mayJoin_iff.mp hjoin).1.teamLead_seat (hkept lead hlead)
      · refine ⟨t, added, ?_, hblank, hadded, hkept⟩
        rw [join, List.getElem?_set_ne hkj]
        exact hat

/-- A group keeps the shifts it holds, and adds only shifts that were picked for. -/
theorem Picks.allocated_eq_append {i : Nat} {g : Group} (hgroup : rota.groups[i]? = some g)
    (hpicks : Picks criteria positions rota after) :
    ∃ g' added, after.groups[i]? = some g' ∧ g'.blank = g.blank ∧
      g'.allocated = g.allocated ++ added ∧
        ∀ x ∈ added, ∃ j ∈ positions, ∃ s, rota.shifts[j]? = some s ∧ s.index = x := by
  induction hpicks with
  | refl => exact ⟨g, [], hgroup, rfl, by simp, by simp⟩
  | @tail middle _ hrun hpick ih =>
      obtain ⟨g', added, hgroup', hblank, hallocated, hadded⟩ := ih
      obtain ⟨j, hj, hpick⟩ := hpick
      obtain @⟨k, h, s, hat, hshift, -, -⟩ := hpick
      by_cases hki : k = i
      · subst hki
        obtain rfl : g' = h := Option.some.inj (hgroup'.symm.trans hat)
        have hlength := (List.getElem?_eq_some_iff.mp hat).1
        refine ⟨g'.take s.index, added ++ [s.index], by simp [join, hlength], hblank, ?_, ?_⟩
        · simp [hallocated]
        · intro x hx
          rcases List.mem_append.mp hx with hx | hx
          · exact hadded x hx
          · obtain rfl := List.mem_singleton.mp hx
            obtain ⟨before, hbefore, hindex⟩ := exists_shift_of_index (Picks.blank_eq hrun) hshift
            exact ⟨j, hj, before, hbefore, hindex⟩
      · refine ⟨g', added, ?_, hblank, hallocated, hadded⟩
        rw [join, List.getElem?_set_ne hki]
        exact hgroup'

theorem Picks.full_shift_eq {j : Nat} {s : Shift} (hpicks : Picks criteria positions rota after)
    (hshift : rota.shifts[j]? = some s) (hfull : s.isFull = true) : after.shifts[j]? = some s := by
  refine hpicks.preserves (P := fun between => between.shifts[j]? = some s)
    (fun before next k hpick hbefore => ?_) hshift
  obtain ⟨-, hpicked, hroom, -⟩ := hpick
  have hne : k ≠ j := by
    rintro rfl
    obtain rfl := Option.some.inj (hpicked.symm.trans hbefore)
    exact Bool.false_ne_true (hroom.symm.trans hfull)
  rw [join, List.getElem?_set_ne hne, hbefore]

/-- Where nobody held a shift before, what is held was picked. -/
theorem Picks.allocated_le (hpicks : Picks criteria positions rota after)
    (hempty : ∀ g ∈ rota.groups, g.allocated = []) {i : Int}
    (hbound : ∀ j ∈ positions, ∀ s, rota.shifts[j]? = some s → s.index ≤ i) :
    ∀ g ∈ after.groups, ∀ k ∈ g.allocated, k ≤ i := by
  intro g hg k hk
  obtain ⟨n, hn⟩ := List.getElem?_of_mem hg
  obtain ⟨g₀, hstart, -⟩ := exists_group_of_blank_eq hpicks.blank_eq hn
  obtain ⟨g', added, hg', -, hallocated, hadded⟩ := hpicks.allocated_eq_append hstart
  obtain rfl : g' = g := Option.some.inj (hg'.symm.trans hn)
  rw [hallocated, hempty g₀ (List.mem_of_getElem? hstart), List.nil_append] at hk
  obtain ⟨j, hj, s, hs, rfl⟩ := hadded k hk
  exact hbound j hj s hs

end Rota

end Rostering
