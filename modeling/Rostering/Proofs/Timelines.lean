import Rostering.Proofs.Basic
import Rostering.Recurrence.Timeline
import Mathlib.Algebra.Order.Group.Unbundled.Int

namespace Rostering

/-! Timelines whose hits come day by day. Taken together, or some without others, they still do, so
that a window that ends later only adds hits on its last day or after it. -/

def Point.day (p : Point) : Int := p.reading / microsPerDay

/-- By no particular clock, and on no earlier day, if the other is by no particular clock. -/
def Point.DayLE (p q : Point) : Prop := p.zone = none → q.zone = none ∧ p.day ≤ q.day

namespace Point

variable {p q r : Point}

theorem DayLE.trans (hpq : p.DayLE q) (hqr : q.DayLE r) : p.DayLE r := by
  intro hzone
  obtain ⟨hzone, hle⟩ := hpq hzone
  obtain ⟨hzone, hle'⟩ := hqr hzone
  exact ⟨hzone, hle.trans hle'⟩

theorem lt_of_zone_eq_none (hzone : p.zone = none) {b : Bool} :
    p.lt q = .ok b ↔ q.zone = none ∧ decide (p.reading < q.reading) = b := by
  rw [lt, hzone]
  cases q.zone <;> simp

theorem DayLE.of_lt (h : p.lt q = .ok true) : p.DayLE q := by
  intro hzone
  obtain ⟨hother, hlt⟩ := (lt_of_zone_eq_none hzone).mp h
  exact ⟨hother, Int.ediv_le_ediv (by decide) (of_decide_eq_true hlt).le⟩

theorem DayLE.of_not_lt (h : p.lt q = .ok false) : q.DayLE p := by
  intro hzone
  cases hother : p.zone with
  | some z => simp [lt, hzone, hother] at h
  | none =>
      obtain ⟨-, hlt⟩ := (lt_of_zone_eq_none hother).mp h
      exact ⟨rfl, Int.ediv_le_ediv (by decide) (Int.not_lt.mp (of_decide_eq_false hlt))⟩

end Point

namespace Timeline

variable {α β : Type} {P Q : α → Prop} {R : α → α → Prop}

def All (P : α → Prop) : Timeline α → Prop
  | ended => True
  | broken _ => True
  | hit t later => P t ∧ (later ()).All P

/-- Each hit is related to all that come later. -/
def Pairwise (R : α → α → Prop) : Timeline α → Prop
  | ended => True
  | broken _ => True
  | hit t later => (later ()).All (R t) ∧ (later ()).Pairwise R

theorem All.imp {timeline : Timeline α} (himplies : ∀ t, P t → Q t) (h : timeline.All P) :
    timeline.All Q := by
  induction timeline with
  | ended => trivial
  | broken cause => trivial
  | hit t later ih => exact ⟨himplies t h.1, ih () h.2⟩

theorem all_of_forall (h : ∀ t, P t) (timeline : Timeline α) : timeline.All P := by
  induction timeline with
  | ended => trivial
  | broken cause => trivial
  | hit t later ih => exact ⟨h t, ih ()⟩

theorem Pairwise.imp {R' : α → α → Prop} {timeline : Timeline α}
    (himplies : ∀ s t, R s t → R' s t) (h : timeline.Pairwise R) : timeline.Pairwise R' := by
  induction timeline with
  | ended => trivial
  | broken cause => trivial
  | hit t later ih => exact ⟨h.1.imp (himplies t), ih () h.2⟩

theorem all_map {f : α → β} {P : β → Prop} {timeline : Timeline α} :
    (timeline.map f).All P ↔ timeline.All fun t => P (f t) := by
  induction timeline with
  | ended => exact Iff.rfl
  | broken cause => exact Iff.rfl
  | hit t later ih => exact and_congr_right fun _ => ih ()

theorem pairwise_map {f : α → β} {R : β → β → Prop} {timeline : Timeline α} :
    (timeline.map f).Pairwise R ↔ timeline.Pairwise fun s t => R (f s) (f t) := by
  induction timeline with
  | ended => exact Iff.rfl
  | broken cause => exact Iff.rfl
  | hit t later ih => exact and_congr all_map (ih ())

theorem all_ofList {ts : List α} : (ofList ts).All P ↔ ∀ t ∈ ts, P t := by
  induction ts with
  | nil => simp [ofList, All]
  | cons t rest ih => simp [ofList, All, ih]

theorem pairwise_ofList {ts : List α} (h : ts.Pairwise R) : (ofList ts).Pairwise R := by
  induction ts with
  | nil => trivial
  | cons t rest ih =>
      obtain ⟨hfirst, hrest⟩ := List.pairwise_cons.mp h
      exact ⟨all_ofList.mpr hfirst, ih hrest⟩

section

variable {P : Point → Prop} {timeline other : Timeline Point}

theorem All.merge (h : timeline.All P) (hother : other.All P) : (timeline.merge other).All P := by
  induction timeline generalizing other with
  | ended => exact hother
  | broken cause => trivial
  | hit t later ih =>
      rw [Timeline.merge]
      induction other with
      | ended => exact ⟨h.1, ih () h.2 trivial⟩
      | broken cause => trivial
      | hit s more ihother =>
          rw [place]
          cases s.lt t with
          | error cause => trivial
          | ok earlier =>
              cases earlier with
              | true => exact ⟨hother.1, ihother () hother.2⟩
              | false => exact ⟨h.1, ih () h.2 hother⟩

abbrev Rises (timeline : Timeline Point) : Prop := timeline.Pairwise Point.DayLE

/-- Whichever comes first of two rising timelines has the rest of both after it. -/
theorem Rises.merge (h : timeline.Rises) (hother : other.Rises) : (timeline.merge other).Rises := by
  induction timeline generalizing other with
  | ended => exact hother
  | broken cause => trivial
  | hit t later ih =>
      obtain ⟨hfirst, hlater⟩ := h
      rw [Timeline.merge]
      induction other with
      | ended => exact ⟨hfirst.merge trivial, ih () hlater trivial⟩
      | broken cause => trivial
      | hit s more ihother =>
          obtain ⟨hnext, hmore⟩ := hother
          rw [place]
          cases hlt : s.lt t with
          | error cause => trivial
          | ok earlier =>
              cases earlier with
              | true =>
                  have hbefore := Point.DayLE.of_lt hlt
                  have hrest : (Timeline.hit t later).All s.DayLE :=
                    ⟨hbefore, hfirst.imp fun _ => hbefore.trans⟩
                  exact ⟨hrest.merge hnext, ihother () hmore⟩
              | false =>
                  have hbefore := Point.DayLE.of_not_lt hlt
                  have hrest : (Timeline.hit s more).All t.DayLE :=
                    ⟨hbefore, hnext.imp fun _ => hbefore.trans⟩
                  exact ⟨hfirst.merge hrest, ih () hlater ⟨hnext, hmore⟩⟩

theorem rises_mergeAll {timelines : List (Timeline Point)} (h : ∀ t ∈ timelines, t.Rises) :
    (mergeAll timelines).Rises := by
  induction timelines with
  | nil => trivial
  | cons first rest ih =>
      exact (h first List.mem_cons_self).merge (ih fun t ht => h t (List.mem_cons_of_mem _ ht))

theorem All.exclude (h : timeline.All P) : (timeline.exclude other).All P := by
  induction timeline generalizing other with
  | ended => cases other <;> trivial
  | broken cause => trivial
  | hit t later ih =>
      rw [Timeline.exclude]
      split
      · trivial
      · exact ih () h.2
      · exact ⟨h.1, ih () h.2⟩

theorem Rises.exclude (h : timeline.Rises) : (timeline.exclude other).Rises := by
  induction timeline generalizing other with
  | ended => cases other <;> trivial
  | broken cause => trivial
  | hit t later ih =>
      rw [Timeline.exclude]
      split
      · trivial
      · exact ih () h.2
      · exact ⟨h.1.exclude, ih () h.2⟩

theorem merge_ended (timeline : Timeline Point) : timeline.merge ended = timeline := by
  induction timeline with
  | ended => rfl
  | broken cause => rfl
  | hit t later ih =>
      rw [merge, place]
      exact congrArg (hit t) (funext fun _ => ih ())

theorem exclude_ended (timeline : Timeline Point) : timeline.exclude ended = timeline := by
  induction timeline with
  | ended => rfl
  | broken cause => rfl
  | hit t later ih =>
      rw [exclude, reach]
      exact congrArg (hit t) (funext fun _ => ih ())

variable {first last : Int} {found : List Int}

theorem within_before (before : List Int) :
    timeline.within first last before =
      (before.reverse ++ ·) <$> timeline.within first last [] := by
  induction timeline generalizing before with
  | ended => simp [within]
  | broken cause => simp [within]
  | hit t later ih =>
      rw [within, within]
      cases Point.lt ⟨last, none⟩ t with
      | error cause => rfl
      | ok past =>
          cases past with
          | true => simp
          | false =>
              simp only
              rw [ih, ih () (if t.reading < first then [] else [t.reading])]
              cases (later ()).within first last [] with
              | error cause => rfl
              | ok more => split <;> simp

theorem within_hit {t : Point} (hzone : t.zone = none) (later : Unit → Timeline Point)
    (before : List Int) :
    (hit t later).within first last before =
      if last < t.reading then .ok before.reverse
      else (later ()).within first last
        (if t.reading < first then before else t.reading :: before) := by
  rw [within, Point.lt, hzone]
  by_cases hlate : last < t.reading <;> simp [hlate]

theorem within_hit_eq_ok_iff {t : Point} {later : Unit → Timeline Point} :
    (hit t later).within first last [] = .ok found ↔ t.zone = none ∧
      (last < t.reading ∧ found = [] ∨
        t.reading ≤ last ∧ ∃ more, (later ()).within first last [] = .ok more ∧
          found = if t.reading < first then more else t.reading :: more) := by
  rw [within]
  cases hlt : Point.lt ⟨last, none⟩ t with
  | error cause =>
      have hzone : ¬ t.zone = none := fun hzone => by simp [Point.lt, hzone] at hlt
      simp [hzone]
  | ok past =>
      obtain ⟨hzone, hpast⟩ := (Point.lt_of_zone_eq_none rfl).mp hlt
      cases past with
      | true =>
          have hlate : last < t.reading := of_decide_eq_true hpast
          simp [hzone, hlate, Int.not_le.mpr hlate, eq_comm]
      | false =>
          have hinside : ¬ last < t.reading := of_decide_eq_false hpast
          simp only [hzone, hinside, Int.not_lt.mp hinside, true_and, false_and, false_or]
          rw [within_before]
          cases (later ()).within first last [] with
          | error cause => simp
          | ok more => split <;> simp [eq_comm]

/-- What a window finds of a timeline by no particular clock lies within it. -/
theorem of_mem_within (hall : timeline.All P) (h : timeline.within first last [] = .ok found)
    {r : Int} (hr : r ∈ found) : P ⟨r, none⟩ ∧ first ≤ r ∧ r ≤ last := by
  induction timeline generalizing found with
  | ended =>
      obtain rfl := Except.ok.inj h
      cases hr
  | broken cause => cases h
  | hit t later ih =>
      obtain ⟨hzone, ⟨-, rfl⟩ | ⟨hinside, more, hmore, rfl⟩⟩ := within_hit_eq_ok_iff.mp h
      · cases hr
      · split at hr
        · exact ih () hall.2 hmore hr
        · next hstart =>
            rcases List.mem_cons.mp hr with rfl | hr
            · exact ⟨hzone ▸ hall.1, Int.not_lt.mp hstart, hinside⟩
            · exact ih () hall.2 hmore hr

/-- A window that ends earlier, at a midnight, finds the same before its end. It stops at the first
hit past that end, and all further hits fall on the day of this one or later. -/
theorem within_narrower (hrises : timeline.Rises) {number : Int}
    (hle : number * microsPerDay ≤ last) (h : timeline.within first last [] = .ok found) :
    ∃ found', timeline.within first (number * microsPerDay) [] = .ok found' ∧ found' ⊆ found ∧
      ∀ r < number * microsPerDay, r ∈ found' ↔ r ∈ found := by
  induction timeline generalizing found with
  | ended => exact ⟨found, h, List.Subset.refl _, fun _ _ => Iff.rfl⟩
  | broken cause => cases h
  | hit t later ih =>
      obtain ⟨hzone, ⟨hpast, rfl⟩ | ⟨hinside, more, hmore, rfl⟩⟩ := within_hit_eq_ok_iff.mp h
      · exact ⟨[], within_hit_eq_ok_iff.mpr ⟨hzone, .inl ⟨by omega, rfl⟩⟩, List.Subset.refl _,
          fun _ _ => Iff.rfl⟩
      by_cases hpast : number * microsPerDay < t.reading
      · refine ⟨[], within_hit_eq_ok_iff.mpr ⟨hzone, .inl ⟨hpast, rfl⟩⟩, List.nil_subset _, ?_⟩
        refine fun r hearly => iff_of_false List.not_mem_nil fun hr => ?_
        have hday : t.day ≤ Point.day ⟨r, none⟩ ∨ r = t.reading := by
          split at hr
          · exact .inl ((of_mem_within hrises.1 hmore hr).1 hzone).2
          · rcases List.mem_cons.mp hr with hr | hr
            · exact .inr hr
            · exact .inl ((of_mem_within hrises.1 hmore hr).1 hzone).2
        rcases hday with hday | rfl
        · have hnumber : number ≤ t.day :=
            (Int.le_ediv_iff_mul_le (by decide)).mpr hpast.le
          have hlate : number * microsPerDay ≤ r :=
            (Int.le_ediv_iff_mul_le (by decide)).mp (hnumber.trans hday)
          omega
        · omega
      · obtain ⟨more', hmore', hfewer, hsame⟩ := ih () hrises.2 hmore
        refine ⟨_, within_hit_eq_ok_iff.mpr ⟨hzone, .inr ⟨Int.not_lt.mp hpast, more', hmore', rfl⟩⟩,
          ?_, fun r hr => ?_⟩
        · split
          · exact hfewer
          · exact List.cons_subset_cons _ hfewer
        · split
          · exact hsame r hr
          · rw [List.mem_cons, List.mem_cons, hsame r hr]

end

end Timeline

end Rostering
