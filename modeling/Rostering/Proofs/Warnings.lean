import Rostering.Proofs.AuditErrors

namespace Rostering

/-! What an audit lists. It gives one warning for each shift that is short of people and one for
each that lacks a lead, in the order of the shifts, and criteria add only issues of their own. -/

/-- Whether an entry names a team lead. -/
def Placement.namesLead (p : Placement) : Bool := p.teamLeadId.any (!·.isEmpty)

namespace Shift

/-- A shift has fewer people than seats. -/
def Short (s : Shift) : Prop := s.currentSize < s.size

/-- A shift with seats has no lead, and its entries do not name several. -/
def Leadless (s : Shift) : Prop :=
  0 < s.size ∧ s.teamLead = none ∧ s.placements.countP Placement.namesLead ≤ 1

instance (s : Shift) : Decidable s.Short := inferInstanceAs (Decidable (_ < _))

instance (s : Shift) : Decidable s.Leadless := inferInstanceAs (Decidable (_ ∧ _ ∧ _))

end Shift

namespace Audit

variable {rota : Rota} {s : Shift} {g : Group} {issue : Issue} {c : Criterion}

def shortWarning (s : Shift) : Issue :=
  issueOn s "shift_size" .warning
    ("Shift is underfilled: " ++ s!"has {s.currentSize} volunteers but size is {s.size}")

def leadWarning (s : Shift) : Issue :=
  issueOn s "team_lead" .warning "Shift has no team lead"

/-- Whether an issue is a warning of a check. -/
def isWarning (check : String) (issue : Issue) : Bool :=
  issue.check == check && issue.severity == .warning

/-- The warnings of a check, in their order. -/
def warnings (check : String) (issues : List Issue) : List Issue := issues.filter (isWarning check)

theorem length_leadIds (s : Shift) :
    (leadIds s).length = s.placements.countP Placement.namesLead := by
  rw [leadIds, List.length_filterMap_eq_countP]
  simp only [Option.isSome_filter]
  rfl

section

variable {check : String} {issues : List Issue}

theorem warnings_append (xs ys : List Issue) :
    warnings check (xs ++ ys) = warnings check xs ++ warnings check ys := List.filter_append ..

theorem warnings_flatMap (xs : List α) (f : α → List Issue) :
    warnings check (xs.flatMap f) = xs.flatMap fun x => warnings check (f x) :=
  List.filter_flatMap ..

theorem warnings_eq_nil (hother : ∀ issue ∈ issues, issue.check ≠ check ∨ issue.severity = .error) :
    warnings check issues = [] := by
  refine List.filter_eq_nil_iff.mpr fun issue hissue => ?_
  rcases hother issue hissue with hcheck | herror
  · simp [isWarning, hcheck]
  · simp [isWarning, herror]

end

/-! What one shift adds to the warnings. -/

theorem warnings_sizeIssues :
    warnings "shift_size" (sizeIssues s) = if s.Short then [shortWarning s] else [] := by
  by_cases hshort : s.Short
  · have hless : (s.currentSize : Int) < s.size := hshort
    rw [sizeIssues, if_neg (by omega), if_pos hless, if_pos hshort]
    rfl
  · have henough : ¬ (s.currentSize : Int) < s.size := hshort
    rw [sizeIssues, if_neg henough, if_neg hshort]
    split <;> rfl

theorem warnings_doubleBookings (check : String) : warnings check (doubleBookings s) = [] := by
  refine warnings_eq_nil fun issue hissue => .inr ?_
  obtain ⟨_, rfl⟩ := exists_of_mem_doubleBookings hissue
  rfl

theorem warnings_leadIssues :
    warnings "team_lead" (leadIssues s) = if s.Leadless then [leadWarning s] else [] := by
  rw [leadIssues, length_leadIds]
  by_cases hleadless : s.Leadless
  · obtain ⟨hseats, hnone, hone⟩ := id hleadless
    rw [if_neg (Nat.not_lt.mpr hone), if_pos (by simp [hseats, hnone]), if_pos hleadless]
    rfl
  · rw [if_neg hleadless]
    split
    · rfl
    · next hone =>
        have hled : ¬ (s.teamLead.isNone && decide (0 < s.size)) = true := by
          intro hnone
          rw [Bool.and_eq_true, Option.isNone_iff_eq_none, decide_eq_true_eq] at hnone
          exact hleadless ⟨hnone.2, hnone.1, Nat.not_lt.mp hone⟩
        rw [if_neg hled]
        rfl

theorem warnings_size_shiftIssues :
    warnings "shift_size" (shiftIssues s) = if s.Short then [shortWarning s] else [] := by
  have hlead : warnings "shift_size" (leadIssues s) = [] := by
    refine warnings_eq_nil fun issue hissue => .inl ?_
    obtain ⟨_, _, rfl⟩ := exists_of_mem_leadIssues hissue
    simp [issueOn]
  rw [shiftIssues, warnings_append, warnings_append, warnings_sizeIssues, warnings_doubleBookings,
    hlead, List.append_nil, List.append_nil]

theorem warnings_lead_shiftIssues :
    warnings "team_lead" (shiftIssues s) = if s.Leadless then [leadWarning s] else [] := by
  have hsize : warnings "team_lead" (sizeIssues s) = [] := by
    refine warnings_eq_nil fun issue hissue => .inl ?_
    obtain ⟨_, _, rfl⟩ := exists_of_mem_sizeIssues hissue
    simp [issueOn]
  rw [shiftIssues, warnings_append, warnings_append, hsize, warnings_doubleBookings,
    warnings_leadIssues, List.append_nil, List.nil_append]

/-! What the rest of an audit lists is no warning of these checks. -/

theorem severity_of_mem_groupIssues (h : issue ∈ groupIssues rota g) : issue.severity = .error := by
  rw [groupIssues, List.mem_append] at h
  rcases h with h | h
  · obtain ⟨_, -, rfl⟩ := List.mem_map.mp h
    rfl
  · rw [capIssues] at h
    split at h
    · exact List.mem_singleton.mp h ▸ rfl
    · cases h

theorem check_of_mem_criterionIssues (h : issue ∈ criterionIssues rota c) :
    issue.check = c.kind.name := by
  cases hkind : c.kind with
  | maleBalance =>
      rw [criterionIssues, hkind] at h
      obtain ⟨_, -, rfl⟩ := List.mem_map.mp h
      rfl
  | noDoubleShifts =>
      rw [criterionIssues, hkind] at h
      obtain ⟨⟨s, j⟩, -, h⟩ := List.mem_flatMap.mp h
      obtain ⟨_, -, _, rfl⟩ := exists_of_mem_doubleShiftsAt h
      rfl
  | _ =>
      rw [criterionIssues, hkind] at h
      cases h

theorem warnings_audit {check : String} (hcheck : ∀ kind : CriterionKind, kind.name ≠ check)
    (criteria : List Criterion) :
    warnings check (audit rota criteria) =
      rota.shifts.flatMap fun s => warnings check (shiftIssues s) := by
  have hgroups : warnings check (rota.groups.flatMap (groupIssues rota)) = [] := by
    refine warnings_eq_nil fun issue hissue => .inr ?_
    obtain ⟨g, -, hissue⟩ := List.mem_flatMap.mp hissue
    exact severity_of_mem_groupIssues hissue
  have hcriteria : warnings check (criteria.flatMap (criterionIssues rota)) = [] := by
    refine warnings_eq_nil fun issue hissue => .inl ?_
    obtain ⟨c, -, hissue⟩ := List.mem_flatMap.mp hissue
    exact check_of_mem_criterionIssues hissue ▸ hcheck c.kind
  rw [audit, warnings_append, warnings_append, hgroups, hcriteria, List.append_nil,
    List.append_nil, warnings_flatMap]

/-- One item for each that passes a test, in the order of the list. -/
theorem flatMap_singleton_if (xs : List α) (test : α → Prop) [DecidablePred test] (f : α → β) :
    (xs.flatMap fun x => if test x then [f x] else []) = (xs.filter fun x => test x).map f := by
  induction xs with
  | nil => rfl
  | cons x rest ih =>
      by_cases hx : test x <;> simp [hx, ih]

end Audit

open Audit in
/-- An audit without criteria has an error exactly if a shift is overfull, has a group twice or has
entries that name several leads, or if a group holds a shift that is not open to it or more shifts
than the cap. Its warnings are one for each shift that is short and one for each that lacks a lead,
and criteria add only what bears their name. -/
theorem audit_reports_exactly (rota : Rota) :
    (hasErrors (audit rota []) = true ↔
      (∃ s ∈ rota.shifts, s.size < s.currentSize ∨ ¬ s.groupKeys.Nodup ∨
        2 ≤ s.placements.countP Placement.namesLead) ∨
      ∃ g ∈ rota.groups,
        (∃ i ∈ g.allocated, i ∉ g.available) ∨ rota.cap < g.allocationCount) ∧
    ∀ criteria : List Criterion,
      warnings "shift_size" (audit rota criteria) =
        (rota.shifts.filter fun s => s.Short).map shortWarning ∧
      warnings "team_lead" (audit rota criteria) =
        (rota.shifts.filter fun s => s.Leadless).map leadWarning ∧
      ∃ added, audit rota criteria = audit rota [] ++ added ∧
        added = criteria.flatMap (criterionIssues rota) ∧
        ∀ issue ∈ added, ∃ c ∈ criteria, issue.check = c.kind.name := by
  have hsize : ∀ kind : CriterionKind, kind.name ≠ "shift_size" := by
    intro kind
    cases kind <;> decide
  have hlead : ∀ kind : CriterionKind, kind.name ≠ "team_lead" := by
    intro kind
    cases kind <;> decide
  refine ⟨?_, fun criteria => ⟨?_, ?_, _, ?_, rfl, ?_⟩⟩
  · rw [hasErrors_audit_iff]
    simp only [length_leadIds, List.not_mem_nil, false_and, exists_false, or_false]
    exact Iff.rfl
  · rw [warnings_audit hsize]
    simp only [warnings_size_shiftIssues]
    exact flatMap_singleton_if _ _ _
  · rw [warnings_audit hlead]
    simp only [warnings_lead_shiftIssues]
    exact flatMap_singleton_if _ _ _
  · simp only [audit, List.flatMap_nil, List.append_nil]
  · intro issue hissue
    obtain ⟨c, hc, hissue⟩ := List.mem_flatMap.mp hissue
    exact ⟨c, hc, check_of_mem_criterionIssues hissue⟩

end Rostering
