import Rostering.Proofs.Filling

namespace Rostering

/-! What decides on a group for a shift. Criteria read little of either and of the rota, so what
they read alike they score alike. -/

/-- What criteria of a kind read of two groups before two shifts is the same. -/
structure CriterionKind.ReadsSame (kind : CriterionKind) (a : Rota) (g : Group) (s : Shift)
    (b : Rota) (h : Group) (t : Shift) : Prop where
  history_eq : a.history = b.history
  count_eq : a.shifts.length = b.shifts.length
  key_eq : g.key = h.key
  size_eq : g.size = h.size
  allocated_eq : g.allocated = h.allocated
  index_eq : s.index = t.index
  men_eq : kind = .maleBalance → g.maleCount = h.maleCount ∧ s.maleCount = t.maleCount
  need_eq : kind = .currentRotaUrgency →
    a.target = b.target ∧ g.available.size = h.available.size

namespace CriterionKind

variable {kind : CriterionKind} {a b : Rota} {g h : Group} {s t : Shift}

theorem ReadsSame.allows_eq (hsame : kind.ReadsSame a g s b h t) :
    kind.allows a g s = kind.allows b h t := by
  cases kind with
  | noDoubleShifts =>
      simp only [allows, Rota.workedLast, Group.holds, hsame.history_eq, hsame.key_eq,
        hsame.allocated_eq, hsame.index_eq]
  | _ => rfl

theorem ReadsSame.score_eq {α : Type} [Arithmetic α] (hsame : kind.ReadsSame a g s b h t) :
    kind.score (α := α) a g s = kind.score b h t := by
  cases kind with
  | maleBalance =>
      obtain ⟨hgroup, hshift⟩ := hsame.men_eq rfl
      simp only [score, Score.maleBalance, hgroup, hshift]
  | noDoubleShifts => rfl
  | currentRotaUrgency =>
      obtain ⟨htarget, havailable⟩ := hsame.need_eq rfl
      have hneeded : Score.needed α a g = Score.needed α b h := by
        simp only [Score.needed, Group.allocationCount, hsame.count_eq, hsame.allocated_eq, htarget]
      have hleft : (g.available.size - g.allocationCount : Int) =
          h.available.size - h.allocationCount := by
        rw [Group.allocationCount, Group.allocationCount, hsame.allocated_eq, havailable]
      simp only [score, Score.currentRotaUrgency, hneeded, hleft]
  | promoteGroups => simp only [score, Score.promoteGroups, hsame.size_eq]
  | shiftSpread =>
      simp only [score, Score.shiftSpread, Score.distances, Score.room, Rota.lastWorked?,
        hsame.history_eq, hsame.count_eq, hsame.key_eq, hsame.allocated_eq, hsame.index_eq]

end CriterionKind

namespace Rota

variable {a b : Rota} {g h : Group} {s t : Shift} {criteria : List Criterion}

theorem bonus_eq_of_readsSame (hsame : ∀ c ∈ criteria, c.kind.ReadsSame a g s b h t) :
    a.bonus criteria g s = b.bonus criteria h t := by
  rw [bonus, bonus, mapM_congr]
  intro c hc
  rw [Criterion.weightedScore, Criterion.weightedScore, (hsame c hc).score_eq]

theorem all_allows_eq_of_readsSame (hsame : ∀ c ∈ criteria, c.kind.ReadsSame a g s b h t) :
    (criteria.all fun c => c.kind.allows a g s) = criteria.all fun c => c.kind.allows b h t := by
  rw [Bool.eq_iff_iff, List.all_eq_true, List.all_eq_true]
  exact forall₂_congr fun c hc => by rw [(hsame c hc).allows_eq]

end Rota

end Rostering
