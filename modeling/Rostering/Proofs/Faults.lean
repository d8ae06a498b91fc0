import Rostering.Proofs.Filling

namespace Rostering

/-! Which faults can stop a computation. A run is stopped by no others than its rankings are, since
whoever is ranked for a shift may join it. -/

def FaultsOnly (P : Fault → Prop) (x : Except Fault α) : Prop := ∀ fault, x = .error fault → P fault

namespace FaultsOnly

variable {P Q : Fault → Prop}

theorem ok (a : α) : FaultsOnly P (.ok a) := by
  intro fault h
  cases h

theorem error {fault : Fault} (hfault : P fault) :
    FaultsOnly P (.error fault : Except Fault α) := by
  intro other h
  exact Except.error.inj h ▸ hfault

theorem mono {x : Except Fault α} (himplies : ∀ fault, P fault → Q fault)
    (hx : FaultsOnly P x) : FaultsOnly Q x :=
  fun fault h => himplies fault (hx fault h)

theorem exists_ok {x : Except Fault α} (hx : FaultsOnly (fun _ => False) x) : ∃ a, x = .ok a := by
  cases x with
  | ok a => exact ⟨a, rfl⟩
  | error fault => exact (hx fault rfl).elim

theorem bind {x : Except Fault α} {f : α → Except Fault β} (hx : FaultsOnly P x)
    (hf : ∀ a, x = .ok a → FaultsOnly P (f a)) : FaultsOnly P (x >>= f) := by
  cases x with
  | ok a => exact hf a rfl
  | error fault => exact error (hx fault rfl)

theorem map {x : Except Fault α} {f : α → β} (hx : FaultsOnly P x) : FaultsOnly P (f <$> x) := by
  cases x with
  | ok a => exact ok (f a)
  | error fault => exact error (hx fault rfl)

theorem mapM {f : α → Except Fault β} {xs : List α} (hf : ∀ x ∈ xs, FaultsOnly P (f x)) :
    FaultsOnly P (xs.mapM f) := by
  induction xs with
  | nil => exact ok []
  | cons x rest ih =>
      rw [List.mapM_cons]
      apply (hf x (by simp)).bind
      intro y _
      apply (ih fun z hz => hf z (by simp [hz])).bind
      exact fun ys _ => ok (y :: ys)

/-- Steps that keep what they need are stopped by no other faults than each of them. -/
theorem foldlM {I : β → Prop} {f : β → α → Except Fault β} {xs : List α} {start : β}
    (hstep : ∀ b x, I b → FaultsOnly P (f b x)) (hkeep : ∀ b x b', I b → f b x = .ok b' → I b')
    (hstart : I start) : FaultsOnly P (xs.foldlM f start) := by
  induction xs generalizing start with
  | nil => exact ok start
  | cons x rest ih =>
      rw [List.foldlM_cons]
      apply (hstep start x hstart).bind
      exact fun b hb => ih (hkeep start x b hstart hb)

end FaultsOnly

open FaultsOnly

namespace Rota

variable {P : Fault → Prop} {policy : Policy} {rota : Rota} {j : Nat}

section

variable {I : Rota → Prop} (hpick : ∀ before next j, Pick policy.criteria j before next →
    I before → I next)
  (hranked : ∀ between, I between → ∀ s ∈ between.shifts, ∀ positions,
    FaultsOnly P (between.ranked policy s positions))
include hranked

theorem fillLead_faults (hstart : I rota) : FaultsOnly P (rota.fillLead policy j) := by
  rw [fillLead]
  split
  · exact ok rota
  · next s hshift =>
      split
      · exact ok rota
      · apply (hranked rota hstart s (List.mem_of_getElem? hshift) _).bind
        intro order horder
        cases order with
        | nil => exact ok rota
        | cons best rest =>
            obtain ⟨g, hgroup, htest⟩ := exists_of_ranked_head horder
            have hjoin := (Bool.and_eq_true _ _ ▸ htest).2
            simp only [placeAt_of_mayJoin hgroup hshift hjoin]
            exact ok _

include hpick

theorem fillMembers_faults (hstart : I rota) (fuel : Nat) :
    FaultsOnly P (fillMembers policy j fuel rota) := by
  induction fuel generalizing rota with
  | zero => exact ok rota
  | succ fuel ih =>
      rw [fillMembers]
      split
      · exact ok rota
      · next s hshift =>
          split
          · exact ok rota
          · next hroom =>
              apply (hranked rota hstart s (List.mem_of_getElem? hshift) _).bind
              intro order horder
              cases order with
              | nil => exact ok rota
              | cons best rest =>
                  obtain ⟨g, hgroup, hjoin⟩ := exists_of_ranked_head horder
                  simp only [placeAt_of_mayJoin hgroup hshift hjoin]
                  exact ih (hpick _ _ j (.join hgroup hshift (by simpa using hroom) hjoin) hstart)

theorem fillShift_faults (hstart : I rota) : FaultsOnly P (fillShift policy rota j) := by
  rw [fillShift]
  apply (fillLead_faults hranked hstart).bind
  intro middle hlead
  exact fillMembers_faults hpick hranked ((fillLead_choices hlead).picks.preserves hpick hstart) _

/-- A run is stopped by no other faults than its rankings are, in the rotas that it comes to. -/
theorem fillShifts_faults (hstart : I rota) (order : List Nat) :
    FaultsOnly P (order.foldlM (fillShift policy) rota) := by
  refine FaultsOnly.foldlM (fun between j hbetween => ?_) ?_ hstart
  · exact fillShift_faults hpick hranked hbetween
  · intro between j after hbetween hfill
    exact (fillShift_ok hfill).1.picks.preserves hpick hbetween

end

end Rota

end Rostering
