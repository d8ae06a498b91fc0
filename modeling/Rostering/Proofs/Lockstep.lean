import Rostering.Proofs.RankOrder
import Rostering.Proofs.Termination

namespace Rostering

/-! Two runs in step. Where the groups of one rota stand in another at the positions that a map
gives them, and all ranks for a shift differ by one raise, the two get the same picks for it. So
what a pick keeps between the two a run keeps. -/

/-- No fault makes a run count as lost. -/
def Fault.Never (_ : Fault) : Prop := False

/-- Any fault makes a run count as lost. -/
def Fault.Any (_ : Fault) : Prop := True

/-- Two results that agree, as related values or as one fault, unless a fault that makes the run
count as lost has hit one of them. -/
inductive Concur (lost lost' : Fault → Prop) (R : α → β → Prop) :
    Except Fault α → Except Fault β → Prop
  | ok {a : α} {b : β} (h : R a b) : Concur lost lost' R (.ok a) (.ok b)
  | error (fault : Fault) : Concur lost lost' R (.error fault) (.error fault)
  | left {fault : Fault} (h : lost fault) (y : Except Fault β) :
      Concur lost lost' R (.error fault) y
  | right {fault : Fault} (h : lost' fault) (x : Except Fault α) :
      Concur lost lost' R x (.error fault)

namespace Concur

variable {lost lost' : Fault → Prop} {R : α → β → Prop}

theorem of_eq {x y : Except Fault α} (h : x = y) : Concur lost lost' Eq x y := by
  subst h
  cases x with
  | ok a => exact ok rfl
  | error fault => exact error fault

theorem mono {S : α → β → Prop} {x : Except Fault α} {y : Except Fault β}
    (himplies : ∀ a b, R a b → S a b) (h : Concur lost lost' R x y) : Concur lost lost' S x y := by
  cases h with
  | ok h => exact ok (himplies _ _ h)
  | error fault => exact error fault
  | left h y => exact left h y
  | right h x => exact right h x

theorem bind {S : γ → δ → Prop} {x : Except Fault α} {y : Except Fault β} {f : α → Except Fault γ}
    {g : β → Except Fault δ} (h : Concur lost lost' R x y)
    (hnext : ∀ a b, x = .ok a → y = .ok b → R a b → Concur lost lost' S (f a) (g b)) :
    Concur lost lost' S (x >>= f) (y >>= g) := by
  cases h with
  | ok h => exact hnext _ _ rfl rfl h
  | error fault => exact error fault
  | left h y => exact left h _
  | right h x => exact right h _

theorem foldlM {f : α → ι → Except Fault α} {g : β → ι → Except Fault β} {items : List ι} {a : α}
    {b : β} (hstep : ∀ i ∈ items, ∀ a b, R a b → Concur lost lost' R (f a i) (g b i))
    (hstart : R a b) : Concur lost lost' R (items.foldlM f a) (items.foldlM g b) := by
  induction items generalizing a b with
  | nil => exact ok hstart
  | cons i rest ih =>
      rw [List.foldlM_cons, List.foldlM_cons]
      apply (hstep i (by simp) a b hstart).bind
      intro a' b' _ _ hkept
      exact ih (fun k hk => hstep k (by simp [hk])) hkept

theorem of_ok_left {a : α} {y : Except Fault β} (h : Concur lost lost' R (.ok a) y) :
    (∃ b, y = .ok b ∧ R a b) ∨ ∃ fault, y = .error fault ∧ lost' fault := by
  cases h with
  | ok h => exact .inl ⟨_, rfl, h⟩
  | right h x => exact .inr ⟨_, rfl, h⟩

theorem of_ok_right {x : Except Fault α} {b : β} (h : Concur lost lost' R x (.ok b)) :
    (∃ a, x = .ok a ∧ R a b) ∨ ∃ fault, x = .error fault ∧ lost fault := by
  cases h with
  | ok h => exact .inl ⟨_, rfl, h⟩
  | left h y => exact .inr ⟨_, rfl, h⟩

/-- Where nothing is lost, both are refused for one fault or both have a result. -/
theorem error_or_ok {x : Except Fault α} {y : Except Fault β}
    (h : Concur Fault.Never Fault.Never R x y) :
    (∃ fault, x = .error fault ∧ y = .error fault) ∨ ∃ a b, x = .ok a ∧ y = .ok b ∧ R a b := by
  cases h with
  | ok h => exact .inr ⟨_, _, rfl, rfl, h⟩
  | error fault => exact .inl ⟨fault, rfl, rfl⟩
  | left hlost y => exact False.elim hlost
  | right hlost x => exact False.elim hlost

end Concur

namespace Rota

variable {lost lost' : Fault → Prop} {policy : Policy} {σ : Nat → Nat} {a b : Rota} {s t : Shift}
  {i j : Nat}

/-- What a policy goes by when it picks for a shift is the same in two rotas, but for the positions
of the groups and one raise of all ranks. -/
structure InStep (lost lost' : Fault → Prop) (policy : Policy) (σ : Nat → Nat) (a : Rota)
    (s : Shift) (b : Rota) (t : Shift) : Prop where
  full_eq : s.isFull = t.isFull
  led_eq : s.teamLead.isSome = t.teamLead.isSome
  eligible_eq : b.eligible policy.criteria t = (a.eligible policy.criteria s).map σ
  eligibleLeads_eq : b.eligibleLeads policy.criteria t = (a.eligibleLeads policy.criteria s).map σ
  rank : ∃ c, ∀ (i : Nat) (g : Group), a.groups[i]? = some g → ∃ h, b.groups[σ i]? = some h ∧
    Concur lost lost' (fun r q => q = r.raise c) (a.rankOf policy g s) (b.rankOf policy h t)

theorem rankOf_concur {g h : Group} {c : Int} (hkey : g.key = h.key) (hsize : g.size = h.size)
    (htotal : g.totalCount = h.totalCount)
    (hbonus : a.bonus policy.criteria g s = b.bonus policy.criteria h t)
    (howed : Concur lost lost' (fun d d' => d' = d - c) (a.desiredRemaining g)
      (b.desiredRemaining h)) :
    Concur lost lost' (fun r q => q = r.raise c) (a.rankOf policy g s) (b.rankOf policy h t) := by
  rw [rankOf, rankOf, hbonus, hkey, hsize, htotal]
  apply (Concur.of_eq rfl).bind
  rintro bonus _ _ _ rfl
  apply howed.bind
  rintro owed _ _ _ rfl
  refine .ok ?_
  rw [Rank.raise, Rank.mk.injEq]
  refine ⟨?_, rfl, rfl, rfl, rfl⟩
  change -(owed - c) = -owed + c
  omega

theorem positionsWhere_congr {test test' : Group → Bool}
    (hlength : a.groups.length = b.groups.length)
    (htest : ∀ (i : Nat) (g h : Group), a.groups[i]? = some g → b.groups[i]? = some h →
      test g = test' h) :
    a.positionsWhere test = b.positionsWhere test' := by
  rw [positionsWhere, positionsWhere, hlength]
  apply List.filter_congr
  intro i hi
  have hb := List.mem_range.mp hi
  have ha := hlength ▸ hb
  rw [List.getElem?_eq_getElem ha, List.getElem?_eq_getElem hb, Option.any_some, Option.any_some]
  exact htest i _ _ (List.getElem?_eq_getElem ha) (List.getElem?_eq_getElem hb)

theorem ranksAt_cons {rest : List Nat} {g : Group} (hgroup : a.groups[i]? = some g) :
    a.ranksAt policy s (i :: rest) = do
      let r ← a.rankOf policy g s
      return (r, i) :: (← a.ranksAt policy s rest) := by
  simp only [ranksAt, List.filterMap_cons, hgroup, Option.map_some, List.mapM_cons]
  cases a.rankOf policy g s <;> rfl

namespace InStep

/-- Groups that are tested alike at each position keep two rotas in step. -/
theorem of_groups {c : Int} (hfull : s.isFull = t.isFull)
    (hled : s.teamLead.isSome = t.teamLead.isSome) (hlength : a.groups.length = b.groups.length)
    (hgroups : ∀ (i : Nat) (g h : Group), a.groups[i]? = some g → b.groups[i]? = some h →
      g.hasTeamLead = h.hasTeamLead ∧
      a.mayJoin policy.criteria g s = b.mayJoin policy.criteria h t ∧
      Concur lost lost' (fun r q => q = r.raise c) (a.rankOf policy g s) (b.rankOf policy h t)) :
    InStep lost lost' policy id a s b t where
  full_eq := hfull
  led_eq := hled
  eligible_eq := by
    rw [List.map_id, eligible, eligible, positionsWhere_congr hlength]
    exact fun i g h hg hh => (hgroups i g h hg hh).2.1
  eligibleLeads_eq := by
    rw [List.map_id, eligibleLeads, eligibleLeads, positionsWhere_congr hlength]
    intro i g h hg hh
    rw [(hgroups i g h hg hh).1, (hgroups i g h hg hh).2.1]
  rank := by
    refine ⟨c, fun i g hg => ?_⟩
    have hi := hlength ▸ (List.getElem?_eq_some_iff.mp hg).1
    have hh := List.getElem?_eq_getElem hi
    exact ⟨_, hh, (hgroups i g _ hg hh).2.2⟩

theorem ranked (hstep : InStep lost lost' policy σ a s b t) {positions positions' : List Nat}
    (hsame : positions' = positions.map σ) (hvalid : ∀ i ∈ positions, i < a.groups.length) :
    Concur lost lost' (fun order order' => order' = order.map σ) (a.ranked policy s positions)
      (b.ranked policy t positions') := by
  subst hsame
  obtain ⟨c, hraise⟩ := hstep.rank
  let lift (x : Rank × Nat) : Rank × Nat := (x.1.raise c, σ x.2)
  have hranks : Concur lost lost' (fun ranks ranks' => ranks' = ranks.map lift)
      (a.ranksAt policy s positions) (b.ranksAt policy t (positions.map σ)) := by
    induction positions with
    | nil => exact .ok rfl
    | cons i rest ih =>
        have hg := List.getElem?_eq_getElem (hvalid i (by simp))
        obtain ⟨h, hh, hrank⟩ := hraise i _ hg
        rw [List.map_cons, ranksAt_cons hg, ranksAt_cons hh]
        apply hrank.bind
        rintro r _ _ _ rfl
        apply (ih fun k hk => hvalid k (by simp [hk])).bind
        rintro ranks _ _ _ rfl
        exact .ok rfl
  apply hranks.bind
  rintro ranks _ _ _ rfl
  exact .ok (Rank.rank_raise c σ ranks)

end InStep

/-- A relation between rotas that keeps them in step before the shift at a position, and that a pick
made in both keeps. -/
structure Lockstep (lost lost' : Fault → Prop) (policy : Policy) (σ : Nat → Nat) (j : Nat)
    (R : Rota → Rota → Prop) : Prop where
  shift : ∀ a b : Rota, R a b → (a.shifts[j]? = none ∧ b.shifts[j]? = none) ∨
    ∃ s t, a.shifts[j]? = some s ∧ b.shifts[j]? = some t ∧ InStep lost lost' policy σ a s b t
  join : ∀ (a b : Rota) (i : Nat) (g h : Group) (s t : Shift), R a b →
    a.groups[i]? = some g → b.groups[σ i]? = some h →
    a.shifts[j]? = some s → b.shifts[j]? = some t → R (a.join i g j s) (b.join (σ i) h j t)

namespace Lockstep

variable {R : Rota → Rota → Prop} (hlock : Lockstep lost lost' policy σ j R)
include hlock

theorem placeAt {test test' : Group → Bool} {rest rest' : List Nat} (hrelated : R a b)
    (hfirst : a.shifts[j]? = some s) (hsecond : b.shifts[j]? = some t)
    (htest : ∀ g, test g = true → a.mayJoin policy.criteria g s = true)
    (htest' : ∀ g, test' g = true → b.mayJoin policy.criteria g t = true)
    (hbest : a.ranked policy s (a.positionsWhere test) = .ok (i :: rest))
    (hbest' : b.ranked policy t (b.positionsWhere test') = .ok (σ i :: rest')) :
    ∃ a' b', a.placeAt i j = .ok a' ∧ b.placeAt (σ i) j = .ok b' ∧ R a' b' := by
  obtain ⟨g, hg, hpassed⟩ := exists_of_ranked_head hbest
  obtain ⟨h, hh, hpassed'⟩ := exists_of_ranked_head hbest'
  exact ⟨_, _, placeAt_of_mayJoin hg hfirst (htest g hpassed),
    placeAt_of_mayJoin hh hsecond (htest' h hpassed'),
    hlock.join a b i g h s t hrelated hg hh hfirst hsecond⟩

theorem fillLead (hrelated : R a b) :
    Concur lost lost' R (Rota.fillLead policy j a) (Rota.fillLead policy j b) := by
  rcases hlock.shift a b hrelated with ⟨hfirst, hsecond⟩ | ⟨s, t, hfirst, hsecond, hstep⟩
  · simp only [Rota.fillLead, hfirst, hsecond]
    exact .ok hrelated
  · simp only [Rota.fillLead, hfirst, hsecond, hstep.full_eq, hstep.led_eq]
    split
    · exact .ok hrelated
    · apply (hstep.ranked hstep.eligibleLeads_eq fun _ => lt_of_mem_positionsWhere).bind
      rintro order _ hbest hbest' rfl
      cases order with
      | nil => exact .ok hrelated
      | cons i rest =>
          obtain ⟨a', b', ha, hb, hkept⟩ := hlock.placeAt hrelated hfirst hsecond
            (fun g hpassed => (Bool.and_eq_true _ _ ▸ hpassed).2)
            (fun g hpassed => (Bool.and_eq_true _ _ ▸ hpassed).2) hbest hbest'
          simp only [List.map_cons, ha, hb]
          exact .ok hkept

theorem fillMembers (hrelated : R a b) (fuel : Nat) :
    Concur lost lost' R (Rota.fillMembers policy j fuel a)
      (Rota.fillMembers policy j fuel b) := by
  induction fuel generalizing a b with
  | zero => exact .ok hrelated
  | succ fuel ih =>
      rcases hlock.shift a b hrelated with ⟨hfirst, hsecond⟩ | ⟨s, t, hfirst, hsecond, hstep⟩
      · rw [fillMembers_absent hfirst, fillMembers_absent hsecond]
        exact .ok hrelated
      · simp only [Rota.fillMembers, hfirst, hsecond, hstep.full_eq]
        split
        · exact .ok hrelated
        · apply (hstep.ranked hstep.eligible_eq fun _ => lt_of_mem_positionsWhere).bind
          rintro order _ hbest hbest' rfl
          cases order with
          | nil => exact .ok hrelated
          | cons i rest =>
              obtain ⟨a', b', ha, hb, hkept⟩ := hlock.placeAt hrelated hfirst hsecond
                (fun g => id) (fun g => id) hbest hbest'
              simp only [List.map_cons, ha, hb]
              exact ih hkept

theorem fillShift (hrelated : R a b) :
    Concur lost lost' R (Rota.fillShift policy a j) (Rota.fillShift policy b j) := by
  rw [Rota.fillShift, Rota.fillShift]
  apply (hlock.fillLead hrelated).bind
  intro a' b' _ _ hkept
  -- The two may have different numbers of groups, but any more fuel changes nothing.
  rw [← fillMembers_fuel_groups (Nat.le_max_left a'.groups.length b'.groups.length),
    ← fillMembers_fuel_groups (Nat.le_max_right a'.groups.length b'.groups.length)]
  exact hlock.fillMembers hkept _

end Lockstep

/-- Rotas that are in step before each of some shifts are filled alike. -/
theorem fillShifts_concur {R : Rota → Rota → Prop} {order : List Nat}
    (hlock : ∀ j ∈ order, Lockstep lost lost' policy σ j R) (hstart : R a b) :
    Concur lost lost' R (order.foldlM (fillShift policy) a)
      (order.foldlM (fillShift policy) b) :=
  Concur.foldlM (fun j hj _ _ hrelated => (hlock j hj).fillShift hrelated) hstart

end Rota

end Rostering
