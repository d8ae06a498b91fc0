import Rostering.Proofs.Volunteers

namespace Rostering

/-! Who ends up in one group. The key that a volunteer without a group gets is a text like any
other: written out as somebody's group, it brings the two together. -/

def IsMarked (key : String) : Prop := ∃ id, key = individualMark ++ id

theorem individualMark_append_inj {id other : String} :
    individualMark ++ id = individualMark ++ other ↔ id = other := by
  simp [← String.toList_inj]

theorem not_isMarked_empty : ¬ IsMarked "" := by
  rintro ⟨id, h⟩
  have hmark : individualMark.length = 11 := by decide
  have hlength : "".length = individualMark.length + id.length := by
    rw [← String.length_append, ← h]
  rw [hmark, String.length_empty] at hlength
  omega

theorem Group.isIndividual_iff {g : Group} : g.isIndividual = true ↔ IsMarked g.key := by
  rw [isIndividual, String.isPrefixOf, String.startsWith_string_iff, IsMarked]
  constructor
  · rintro ⟨rest, h⟩
    exact ⟨String.ofList rest, by rw [← String.toList_inj, ← h]; simp⟩
  · rintro ⟨id, h⟩
    exact ⟨id.toList, by rw [h]; simp⟩

namespace Volunteer

variable {v w : Volunteer}

theorem effectiveKey_of_keyless (h : v.groupKey = "") :
    v.effectiveKey = individualMark ++ v.id := by
  simp [effectiveKey, h]

theorem effectiveKey_of_keyed (h : v.groupKey ≠ "") : v.effectiveKey = v.groupKey := by
  simp [effectiveKey, h]

/-- Only a volunteer without a group has the key that goes with an identifier, unless it stands
there as a group. -/
theorem effectiveKey_eq_mark_iff {id : String} :
    v.effectiveKey = individualMark ++ id ↔
      (v.groupKey = "" ∧ v.id = id) ∨ v.groupKey = individualMark ++ id := by
  by_cases h : v.groupKey = ""
  · have hempty : "" ≠ individualMark ++ id := fun heq => not_isMarked_empty ⟨id, heq⟩
    rw [effectiveKey_of_keyless h, individualMark_append_inj, h]
    simp [hempty]
  · rw [effectiveKey_of_keyed h]
    simp [h]

end Volunteer

namespace Resolution

variable {volunteers : List Volunteer} {responses : List Response} {total : Nat}
  {history : List Shift} {g : Group} {v w : Volunteer}

namespace Resolved

theorem isIndividual_iff (hresolved : Resolved volunteers responses total history g) :
    g.isIndividual = true ↔
      (∀ v ∈ g.members, v.groupKey = "") ∨ ∃ v ∈ g.members, IsMarked v.groupKey := by
  obtain ⟨v, hv, -⟩ := hresolved.answered
  have hkey : ∀ w ∈ g.members, w.effectiveKey = g.key :=
    fun w hw => (hresolved.mem_members_iff.mp hw).2
  rw [Group.isIndividual_iff]
  constructor
  · intro hmarked
    by_cases hall : ∀ w ∈ g.members, w.groupKey = ""
    · exact .inl hall
    · push Not at hall
      obtain ⟨w, hw, hkeyed⟩ := hall
      refine .inr ⟨w, hw, ?_⟩
      rwa [← Volunteer.effectiveKey_of_keyed hkeyed, hkey w hw]
  · rintro (hall | ⟨w, hw, hmarked⟩)
    · exact ⟨v.id, by rw [← hkey v hv, Volunteer.effectiveKey_of_keyless (hall v hv)]⟩
    · have hkeyed : w.groupKey ≠ "" := fun hempty => not_isMarked_empty (hempty ▸ hmarked)
      rwa [← hkey w hw, Volunteer.effectiveKey_of_keyed hkeyed]

section

variable (hresolved : Resolved volunteers responses total history g)
  (hids : (volunteers.map Volunteer.id).Nodup)
include hresolved hids

/-- Beside a volunteer without a group stands only one who names that volunteer's key. -/
theorem groupKey_of_keyless (hv : v ∈ g.members) (hw : w ∈ g.members) (hne : v ≠ w)
    (hkeyless : v.groupKey = "") : w.groupKey = individualMark ++ v.id := by
  obtain ⟨hv, hkey⟩ := hresolved.mem_members_iff.mp hv
  obtain ⟨hw, hsame⟩ := hresolved.mem_members_iff.mp hw
  rw [← hkey, Volunteer.effectiveKey_of_keyless hkeyless] at hsame
  rcases Volunteer.effectiveKey_eq_mark_iff.mp hsame with ⟨-, hid⟩ | hnamed
  · exact absurd (List.inj_on_of_nodup_map hids hv hw hid.symm) hne
  · exact hnamed

theorem groupKeys_of_ne (hv : v ∈ g.members) (hw : w ∈ g.members) (hne : v ≠ w) :
    (v.groupKey = w.groupKey ∧ v.groupKey ≠ "") ∨
      (v.groupKey = "" ∧ w.groupKey = individualMark ++ v.id) ∨
      (w.groupKey = "" ∧ v.groupKey = individualMark ++ w.id) := by
  by_cases hfirst : v.groupKey = ""
  · exact .inr (.inl ⟨hfirst, hresolved.groupKey_of_keyless hids hv hw hne hfirst⟩)
  by_cases hsecond : w.groupKey = ""
  · exact .inr (.inr ⟨hsecond, hresolved.groupKey_of_keyless hids hw hv hne.symm hsecond⟩)
  · refine .inl ⟨?_, hfirst⟩
    rw [← Volunteer.effectiveKey_of_keyed hfirst, ← Volunteer.effectiveKey_of_keyed hsecond,
      (hresolved.mem_members_iff.mp hv).2, (hresolved.mem_members_iff.mp hw).2]

theorem members_eq_singleton_iff (hv : v ∈ g.members) (hkeyless : v.groupKey = "") :
    g.members = [v] ↔ ∀ w ∈ volunteers, w.groupKey ≠ individualMark ++ v.id := by
  have hkey := (hresolved.mem_members_iff.mp hv).2
  rw [Volunteer.effectiveKey_of_keyless hkeyless] at hkey
  constructor
  · intro halone w hw hnamed
    have hmember : w ∈ g.members := by
      rw [hresolved.mem_members_iff, ← hkey, Volunteer.effectiveKey_eq_mark_iff]
      exact ⟨hw, .inr hnamed⟩
    rw [halone, List.mem_singleton] at hmember
    subst hmember
    exact not_isMarked_empty ⟨w.id, hkeyless ▸ hnamed⟩
  · intro hnobody
    have hall : ∀ w ∈ g.members, w = v := by
      intro w hw
      by_contra hne
      exact hnobody w (hresolved.mem_members_iff.mp hw).1
        (hresolved.groupKey_of_keyless hids hv hw (Ne.symm hne) hkeyless)
    have hnodup : g.members.Nodup := by
      rw [hresolved.members_eq]
      exact (List.Nodup.of_map _ hids).filter _
    exact (List.perm_singleton.mp
      ((List.perm_ext_iff_of_nodup hnodup (List.nodup_singleton v)).mpr fun w =>
        ⟨fun hw => List.mem_singleton.mpr (hall w hw),
          fun hw => List.mem_singleton.mp hw ▸ hv⟩))

end

end Resolved

end Resolution

open Resolution in
/-- Two members of a group carry its key, or else one of them has none and the other names the key
that goes with the first one's identifier. So a volunteer without a group stands alone exactly if
nobody names that key, and a group counts as individual also where a member names such a key. Where
no group of the roster begins with the mark of these keys, both are as their names say. -/
theorem keyless_alone_iff {volunteers : List Volunteer} {responses : List Response} {total : Nat}
    {history : List Shift} {groups : List Group} {report : ResolutionReport}
    (hids : (volunteers.map Volunteer.id).Nodup)
    (h : resolve volunteers responses total history = .ok (groups, report)) {g : Group}
    (hg : g ∈ groups) :
    (∀ v ∈ g.members, ∀ w ∈ g.members, v ≠ w →
      (v.groupKey = w.groupKey ∧ v.groupKey ≠ "") ∨
      (v.groupKey = "" ∧ w.groupKey = individualMark ++ v.id) ∨
      (w.groupKey = "" ∧ v.groupKey = individualMark ++ w.id)) ∧
    (∀ v ∈ g.members, v.groupKey = "" →
      (g.members = [v] ↔ ∀ w ∈ volunteers, w.groupKey ≠ individualMark ++ v.id)) ∧
    (g.isIndividual = true ↔
      (∀ v ∈ g.members, v.groupKey = "") ∨ ∃ v ∈ g.members, IsMarked v.groupKey) ∧
    ((∀ w ∈ volunteers, ¬ IsMarked w.groupKey) →
      (∀ v ∈ g.members, ∀ w ∈ g.members, v ≠ w → v.groupKey = w.groupKey ∧ v.groupKey ≠ "") ∧
      (∀ v ∈ g.members, v.groupKey = "" → g.members = [v]) ∧
      (g.isIndividual = true ↔ ∀ v ∈ g.members, v.groupKey = "")) := by
  have hresolved := (resolve_ok h).2 g hg
  refine ⟨fun v hv w hw => hresolved.groupKeys_of_ne hids hv hw,
    fun v hv => hresolved.members_eq_singleton_iff hids hv, hresolved.isIndividual_iff,
    fun hplain => ⟨fun v hv w hw hne => ?_, fun v hv hkeyless => ?_, ?_⟩⟩
  · have hunmarked : ∀ u ∈ g.members, ¬ IsMarked u.groupKey :=
      fun u hu => hplain u (hresolved.mem_members_iff.mp hu).1
    rcases hresolved.groupKeys_of_ne hids hv hw hne with hsame | ⟨-, hnamed⟩ | ⟨-, hnamed⟩
    · exact hsame
    · exact absurd ⟨v.id, hnamed⟩ (hunmarked w hw)
    · exact absurd ⟨w.id, hnamed⟩ (hunmarked v hv)
  · refine (hresolved.members_eq_singleton_iff hids hv hkeyless).mpr fun w hw hnamed => ?_
    exact hplain w hw ⟨v.id, hnamed⟩
  · rw [hresolved.isIndividual_iff]
    refine or_iff_left ?_
    rintro ⟨v, hv, hmarked⟩
    exact hplain v (hresolved.mem_members_iff.mp hv).1 hmarked

namespace Sample

def dot : Volunteer := { id := "dot", groupKey := "individual_cy" }

def pairing : List Volunteer := [dot, ada, cy, bob]

theorem resolve_pairing : (resolve pairing input.responses 3).toOption.map Prod.fst =
    some [⟨"individual_cy", [dot, cy], .ofList [0, 1, 2], [], 0⟩,
      ⟨"red", [ada, bob], .ofList [1, 2], [], 0⟩] := by
  simp only [resolve, Resolution.decisions, Resolution.groupKeys_eq_insertionSort]
  decide +kernel

theorem resolve_plain : (resolve input.volunteers input.responses 3).toOption.map Prod.fst =
    some [⟨"individual_cy", [cy], .ofList [0, 1, 2], [], 0⟩,
      ⟨"red", [ada, bob], .ofList [1, 2], [], 0⟩] := by
  simp only [resolve, Resolution.decisions, Resolution.groupKeys_eq_insertionSort]
  decide +kernel

theorem plain_unmarked : ∀ w ∈ input.volunteers, ¬ IsMarked w.groupKey := by
  have hplain : ∀ w ∈ input.volunteers, individualMark.toList.isPrefixOf w.groupKey.toList =
      false := by
    decide
  rintro w hw ⟨id, hmarked⟩
  have hprefix := hplain w hw
  rw [hmarked, String.toList_append, Bool.eq_false_iff, Ne, List.isPrefixOf_iff_prefix] at hprefix
  exact hprefix (List.prefix_append _ _)

end Sample

open Sample in
theorem keyless_alone_iff_sample :
    (∃ groups report, resolve pairing input.responses 3 = .ok (groups, report) ∧
      ∃ g ∈ groups, g.members = [dot, cy] ∧
        (g.members = [cy] ↔ ∀ w ∈ pairing, w.groupKey ≠ individualMark ++ cy.id) ∧
        (g.isIndividual = true ↔
          (∀ v ∈ g.members, v.groupKey = "") ∨ ∃ v ∈ g.members, IsMarked v.groupKey)) ∧
    ∃ groups report, resolve input.volunteers input.responses 3 = .ok (groups, report) ∧
      ∃ g ∈ groups, g.members = [ada, bob] ∧ ada.groupKey = bob.groupKey ∧
        (g.isIndividual = true ↔ ∀ v ∈ g.members, v.groupKey = "") := by
  obtain ⟨⟨groups, report⟩, h, rfl⟩ := exists_ok_of_toOption_map resolve_pairing
  obtain ⟨⟨groups', report'⟩, h', rfl⟩ := exists_ok_of_toOption_map resolve_plain
  obtain ⟨-, halone, hflag, -⟩ := keyless_alone_iff (by decide) h List.mem_cons_self
  obtain ⟨-, -, -, hplain⟩ := keyless_alone_iff (by decide) h'
    (List.mem_cons_of_mem _ List.mem_cons_self)
  obtain ⟨hsame, -, hflag'⟩ := hplain plain_unmarked
  have hpair := hsame ada (by decide) bob (by decide) (by decide)
  exact ⟨⟨_, report, h, _, List.mem_cons_self, rfl, halone cy (by decide) rfl, hflag⟩,
    _, report', h', _, List.mem_cons_of_mem _ List.mem_cons_self, rfl, hpair.1, hflag'⟩

open Sample in
/-- Somebody without a group is resolved into one with another person, who names its key; the two
carry different keys, and the group counts as individual although one of them came with a key. -/
theorem keyless_beside_namesake :
    (pairing.map Volunteer.id).Nodup ∧
    ∃ groups report, resolve pairing input.responses 3 = .ok (groups, report) ∧
      ∃ g ∈ groups, cy ∈ g.members ∧ dot ∈ g.members ∧ cy ≠ dot ∧ cy.groupKey = "" ∧
        cy.groupKey ≠ dot.groupKey ∧ g.isIndividual = true ∧
        ¬ ∀ v ∈ g.members, v.groupKey = "" := by
  obtain ⟨⟨groups, report⟩, h, rfl⟩ := exists_ok_of_toOption_map resolve_pairing
  refine ⟨by decide, _, report, h, _, List.mem_cons_self, by decide, by decide, by decide, rfl,
    by decide, Group.isIndividual_iff.mpr ⟨"cy", rfl⟩, by decide⟩

end Rostering
