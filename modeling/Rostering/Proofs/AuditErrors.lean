import Rostering.Audit
import Rostering.Proofs.Joining

namespace Rostering

/-! When an audit reports an error: each check does so exactly when the rule that it stands for is
broken, so the whole audit does so exactly when one of the rules is. And an issue names a shift only
for what the shift is, or for who is on it. -/

/-- Two shifts in a row have a group in common, or the first has one with the last shift worked. -/
def Rota.DoubleShift (rota : Rota) : Prop :=
  (∃ s worked key, rota.shifts[0]? = some s ∧ rota.history.getLast? = some worked ∧
    key ∈ s.groupKeys ∧ key ∈ worked.groupKeys) ∨
  ∃ j s other key, rota.shifts[j + 1]? = some s ∧ rota.shifts[j]? = some other ∧
    key ∈ s.groupKeys ∧ key ∈ other.groupKeys

namespace Audit

variable {rota : Rota} {s : Shift} {g : Group}

@[simp] theorem hasErrors_append (xs ys : List Issue) :
    hasErrors (xs ++ ys) = (hasErrors xs || hasErrors ys) := List.any_append

theorem hasErrors_flatMap_iff {xs : List α} {f : α → List Issue} :
    hasErrors (xs.flatMap f) = true ↔ ∃ x ∈ xs, hasErrors (f x) = true := by
  simp only [hasErrors, List.any_flatMap, List.any_eq_true]

theorem hasErrors_map_iff {xs : List α} {f : α → Issue} (herror : ∀ x, (f x).severity = .error) :
    hasErrors (xs.map f) = true ↔ xs ≠ [] := by
  cases xs <;> simp [hasErrors, herror]

theorem mem_distinctKeys {keys : List String} {key : String} :
    key ∈ distinctKeys keys ↔ key ∈ keys := by
  rw [distinctKeys, (List.mergeSort_perm _ _).mem_iff, List.mem_eraseDups]

theorem hasErrors_sizeIssues_iff :
    hasErrors (sizeIssues s) = true ↔ s.size < s.currentSize := by
  rw [sizeIssues]
  split
  · next hover => simp [hasErrors, issueOn, hover]
  · next hfits =>
      split <;> simp [hasErrors, issueOn, hfits]

theorem hasErrors_doubleBookings_iff :
    hasErrors (doubleBookings s) = true ↔ ¬ s.groupKeys.Nodup := by
  rw [doubleBookings, hasErrors_map_iff fun _ => rfl, Ne, List.filter_eq_nil_iff,
    List.nodup_iff_count_le_one]
  refine not_congr ⟨fun h key => ?_, fun h key _ => by simpa using h key⟩
  by_cases hkey : key ∈ s.groupKeys
  · simpa using h key (mem_distinctKeys.mpr hkey)
  · simp [List.count_eq_zero_of_not_mem hkey]

theorem hasErrors_leadIssues_iff :
    hasErrors (leadIssues s) = true ↔ 1 < (leadIds s).length := by
  rw [leadIssues]
  split
  · next hleads => simpa [hasErrors, issueOn] using hleads
  · next hleads =>
      split <;> simpa [hasErrors, issueOn] using hleads

theorem hasErrors_availabilityIssues_iff :
    hasErrors (availabilityIssues rota g) = true ↔ ∃ i ∈ g.allocated, i ∉ g.available := by
  rw [availabilityIssues, hasErrors_map_iff fun _ => rfl, Ne, List.filter_eq_nil_iff]
  simp [Group.isAvailable]

theorem hasErrors_capIssues_iff :
    hasErrors (capIssues rota g) = true ↔ rota.cap < g.allocationCount := by
  rw [capIssues]
  split
  · next hover => simp [hasErrors, hover]
  · next hwithin => simp [hasErrors, hwithin]

theorem sharedKeys_ne_nil_iff {other : Shift} :
    sharedKeys s other ≠ [] ↔ ∃ key, key ∈ s.groupKeys ∧ key ∈ other.groupKeys := by
  rw [sharedKeys, Ne, List.filter_eq_nil_iff]
  simp [mem_distinctKeys, Shift.hasGroup_iff]

theorem hasErrors_doubleShiftsAt_zero_iff :
    hasErrors (doubleShiftsAt rota s 0) = true ↔
      ∃ worked key, rota.history.getLast? = some worked ∧
        key ∈ s.groupKeys ∧ key ∈ worked.groupKeys := by
  cases hlast : rota.history.getLast? with
  | none => simp [doubleShiftsAt, hlast, hasErrors]
  | some worked =>
      simp only [doubleShiftsAt, hlast]
      rw [hasErrors_map_iff fun _ => rfl, sharedKeys_ne_nil_iff]
      simp

theorem hasErrors_doubleShiftsAt_succ_iff {j : Nat} :
    hasErrors (doubleShiftsAt rota s (j + 1)) = true ↔
      ∃ other key, rota.shifts[j]? = some other ∧
        key ∈ s.groupKeys ∧ key ∈ other.groupKeys := by
  cases hother : rota.shifts[j]? with
  | none => simp [doubleShiftsAt, hother, hasErrors]
  | some other =>
      simp only [doubleShiftsAt, hother]
      rw [hasErrors_map_iff fun _ => rfl, sharedKeys_ne_nil_iff]
      simp

theorem hasErrors_criterionIssues_iff {c : Criterion} :
    hasErrors (criterionIssues rota c) = true ↔ c.kind = .noDoubleShifts ∧ rota.DoubleShift := by
  cases hkind : c.kind with
  | maleBalance => simp [criterionIssues, hkind, maleIssues, hasErrors, issueOn]
  | currentRotaUrgency => simp [criterionIssues, hkind, hasErrors]
  | promoteGroups => simp [criterionIssues, hkind, hasErrors]
  | shiftSpread => simp [criterionIssues, hkind, hasErrors]
  | noDoubleShifts =>
      simp only [criterionIssues, hkind, hasErrors_flatMap_iff, Prod.exists,
        List.mk_mem_zipIdx_iff_getElem?, true_and]
      constructor
      · intro hissue
        obtain ⟨s, j, hshift, herrors⟩ := hissue
        cases j with
        | zero =>
            obtain ⟨worked, key, hlast, hkeys⟩ := hasErrors_doubleShiftsAt_zero_iff.mp herrors
            exact Or.inl ⟨s, worked, key, hshift, hlast, hkeys⟩
        | succ j =>
            obtain ⟨other, key, hother, hkeys⟩ := hasErrors_doubleShiftsAt_succ_iff.mp herrors
            exact Or.inr ⟨j, s, other, key, hshift, hother, hkeys⟩
      · intro hdouble
        rcases hdouble with ⟨s, worked, key, hshift, hlast, hkeys⟩ |
          ⟨j, s, other, key, hshift, hother, hkeys⟩
        · exact ⟨s, 0, hshift, hasErrors_doubleShiftsAt_zero_iff.mpr ⟨worked, key, hlast, hkeys⟩⟩
        · exact ⟨s, j + 1, hshift,
            hasErrors_doubleShiftsAt_succ_iff.mpr ⟨other, key, hother, hkeys⟩⟩

/-- All ways in which a rota can break a rule. -/
theorem hasErrors_audit_iff {criteria : List Criterion} :
    hasErrors (audit rota criteria) = true ↔
      (∃ s ∈ rota.shifts,
        s.size < s.currentSize ∨ ¬ s.groupKeys.Nodup ∨ 1 < (leadIds s).length) ∨
      (∃ g ∈ rota.groups, (∃ i ∈ g.allocated, i ∉ g.available) ∨ rota.cap < g.allocationCount) ∨
      ((∃ c ∈ criteria, c.kind = .noDoubleShifts) ∧ rota.DoubleShift) := by
  simp only [audit, hasErrors_append, Bool.or_eq_true, hasErrors_flatMap_iff, shiftIssues,
    groupIssues, hasErrors_sizeIssues_iff, hasErrors_doubleBookings_iff, hasErrors_leadIssues_iff,
    hasErrors_availabilityIssues_iff, hasErrors_capIssues_iff, hasErrors_criterionIssues_iff]
  constructor
  · intro herrors
    rcases herrors with
      (⟨s, hs, (hsize | hkeys) | hleads⟩ | hgroup) | ⟨c, hc, hkind, hdouble⟩
    · exact Or.inl ⟨s, hs, Or.inl hsize⟩
    · exact Or.inl ⟨s, hs, Or.inr (Or.inl hkeys)⟩
    · exact Or.inl ⟨s, hs, Or.inr (Or.inr hleads)⟩
    · exact Or.inr (Or.inl hgroup)
    · exact Or.inr (Or.inr ⟨⟨c, hc, hkind⟩, hdouble⟩)
  · intro hbroken
    rcases hbroken with
      ⟨s, hs, hsize | hkeys | hleads⟩ | hgroup | ⟨⟨c, hc, hkind⟩, hdouble⟩
    · exact Or.inl (Or.inl ⟨s, hs, Or.inl (Or.inl hsize)⟩)
    · exact Or.inl (Or.inl ⟨s, hs, Or.inl (Or.inr hkeys)⟩)
    · exact Or.inl (Or.inl ⟨s, hs, Or.inr hleads⟩)
    · exact Or.inl (Or.inr hgroup)
    · exact Or.inr ⟨c, hc, hkind, hdouble⟩

section

variable {criteria : List Criterion} {issue : Issue}

theorem exists_of_mem_sizeIssues (h : issue ∈ sizeIssues s) :
    ∃ severity text, issue = issueOn s "shift_size" severity text := by
  rw [sizeIssues] at h
  split at h
  · exact ⟨_, _, List.mem_singleton.mp h⟩
  · split at h
    · exact ⟨_, _, List.mem_singleton.mp h⟩
    · cases h

theorem exists_of_mem_doubleBookings (h : issue ∈ doubleBookings s) :
    ∃ text, issue = issueOn s "double_booking" .error text := by
  obtain ⟨_, -, rfl⟩ := List.mem_map.mp h
  exact ⟨_, rfl⟩

theorem exists_of_mem_leadIssues (h : issue ∈ leadIssues s) :
    ∃ severity text, issue = issueOn s "team_lead" severity text := by
  rw [leadIssues] at h
  split at h
  · exact ⟨_, _, List.mem_singleton.mp h⟩
  · split at h
    · exact ⟨_, _, List.mem_singleton.mp h⟩
    · cases h

theorem exists_of_mem_doubleShiftsAt {j : Nat} (h : issue ∈ doubleShiftsAt rota s j) :
    ∃ key ∈ s.groupKeys, ∃ text,
      issue = issueOn s CriterionKind.noDoubleShifts.name .error text := by
  have hshared : ∀ (other : Shift) (describe : String → String),
      issue ∈ (sharedKeys s other).map (fun key =>
        issueOn s CriterionKind.noDoubleShifts.name .error (describe key)) →
      ∃ key ∈ s.groupKeys, ∃ text,
        issue = issueOn s CriterionKind.noDoubleShifts.name .error text := by
    intro other describe hissue
    obtain ⟨key, hkey, rfl⟩ := List.mem_map.mp hissue
    exact ⟨key, mem_distinctKeys.mp (List.mem_filter.mp hkey).1, _, rfl⟩
  cases j with
  | zero =>
      cases hlast : rota.history.getLast? with
      | none => simp [doubleShiftsAt, hlast] at h
      | some worked =>
          simp only [doubleShiftsAt, hlast] at h
          exact hshared worked _ h
  | succ before =>
      cases hother : rota.shifts[before]? with
      | none => simp [doubleShiftsAt, hother] at h
      | some other =>
          simp only [doubleShiftsAt, hother] at h
          exact hshared other _ h

theorem shiftIndex_of_mem_shiftIssues (h : issue ∈ shiftIssues s) :
    issue.shiftIndex = some s.index := by
  rw [shiftIssues, List.mem_append, List.mem_append] at h
  rcases h with (h | h) | h
  · obtain ⟨_, _, rfl⟩ := exists_of_mem_sizeIssues h
    rfl
  · obtain ⟨_, rfl⟩ := exists_of_mem_doubleBookings h
    rfl
  · obtain ⟨_, _, rfl⟩ := exists_of_mem_leadIssues h
    rfl

theorem of_mem_doubleShiftsAt {j : Nat} (h : issue ∈ doubleShiftsAt rota s j) :
    issue.shiftIndex = some s.index ∧ s.placements ≠ [] := by
  obtain ⟨key, hkey, _, rfl⟩ := exists_of_mem_doubleShiftsAt h
  refine ⟨rfl, fun hnone => ?_⟩
  simp [Shift.groupKeys, hnone] at hkey

/-- An issue names a shift for what is on it, for its size or for want of a lead, unless it is that
of a group on a shift that is not open to it. -/
theorem of_mem_audit (h : issue ∈ audit rota criteria) {i : Int}
    (hindex : issue.shiftIndex = some i) :
    (∃ s ∈ rota.shifts, s.index = i ∧ (issue ∈ shiftIssues s ∨ s.placements ≠ [])) ∨
      ∃ g ∈ rota.groups, i ∈ g.allocated ∧ i ∉ g.available := by
  rw [audit, List.mem_append, List.mem_append, List.mem_flatMap, List.mem_flatMap,
    List.mem_flatMap] at h
  rcases h with (⟨s, hs, h⟩ | ⟨g, hg, h⟩) | ⟨c, -, h⟩
  · have hsame := (shiftIndex_of_mem_shiftIssues h).symm.trans hindex
    exact .inl ⟨s, hs, Option.some.inj hsame, .inl h⟩
  · rcases List.mem_append.mp h with h | h
    · obtain ⟨held, hheld, rfl⟩ := List.mem_map.mp h
      obtain rfl := Option.some.inj hindex
      obtain ⟨hheld, hclosed⟩ := List.mem_filter.mp hheld
      exact .inr ⟨g, hg, hheld, by simpa [Group.isAvailable] using hclosed⟩
    · rw [capIssues] at h
      split at h
      · obtain rfl := List.mem_singleton.mp h
        cases hindex
      · cases h
  · rw [criterionIssues] at h
    split at h
    · obtain ⟨s, hs, rfl⟩ := List.mem_map.mp h
      obtain ⟨hs, hplaced⟩ := List.mem_filter.mp hs
      refine .inl ⟨s, hs, Option.some.inj hindex, .inr fun hnone => ?_⟩
      simp [hnone] at hplaced
    · obtain ⟨⟨s, j⟩, hs, h⟩ := List.mem_flatMap.mp h
      obtain ⟨hsame, hplaced⟩ := of_mem_doubleShiftsAt h
      exact .inl ⟨s, List.fst_mem_of_mem_zipIdx hs,
        Option.some.inj (hsame.symm.trans hindex), .inr hplaced⟩
    · cases h

end

end Audit

end Rostering
