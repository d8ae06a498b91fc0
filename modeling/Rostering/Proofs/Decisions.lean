import Rostering.Proofs.Volunteers

namespace Rostering

/-! What becomes of each group of a roster. Its lead seats come first, then whether anybody
answered, then whether a shift is left; the last response of a volunteer is the one that counts. -/

namespace Resolution

section

variable (responses : List Response) (total : Nat) (members : List Volunteer)

def Answered : Prop :=
  ∃ v ∈ members, ∃ r, LastResponse responses v.id r ∧ r.responded = true

/-- A member who answered ruled the shift out. -/
def RuledOut (i : Int) : Prop :=
  ∃ v ∈ members, ∃ r, LastResponse responses v.id r ∧ r.responded = true ∧ i ∈ r.unavailable

/-- The reason why a group is dropped, if it is. -/
inductive Verdict : Option DiscardReason → Prop
  | crowded (hleads : 2 ≤ members.countP Volunteer.isTeamLead) :
      Verdict (some .multipleTeamLeads)
  | silent (hleads : members.countP Volunteer.isTeamLead < 2)
      (hsilent : ¬ Answered responses members) : Verdict (some .noResponse)
  | busy (hleads : members.countP Volunteer.isTeamLead < 2)
      (hanswered : Answered responses members)
      (hbusy : ∀ i : Int, 0 ≤ i → i < total → RuledOut responses members i) :
      Verdict (some .noAvailability)
  | eligible (hleads : members.countP Volunteer.isTeamLead < 2)
      (hanswered : Answered responses members)
      (hopen : ∃ i : Int, 0 ≤ i ∧ i < total ∧ ¬ RuledOut responses members i) : Verdict none

end

variable {responses : List Response} {total : Nat} {members volunteers : List Volunteer}
  {history : List Shift} {key : String} {reason : DiscardReason}

theorem answers_ne_nil_iff : answers responses members ≠ [] ↔ Answered responses members := by
  rw [← List.isEmpty_eq_false_iff, List.isEmpty_eq_false_iff_exists_mem]
  simp only [mem_answers_iff]
  constructor
  · rintro ⟨r, v, hv, hlast⟩
    exact ⟨v, hv, r, hlast⟩
  · rintro ⟨v, hv, r, hlast⟩
    exact ⟨r, v, hv, hlast⟩

theorem mem_availableShifts_iff {i : Int} :
    i ∈ availableShifts (answers responses members) total ↔
      0 ≤ i ∧ i < total ∧ ¬ RuledOut responses members i := by
  rw [availableShifts, IndexSet.mem_below, List.all_eq_true]
  refine and_congr_right fun _ => and_congr_right fun _ => ?_
  constructor
  · rintro hall ⟨v, hv, r, hlast, hresponded, hruled⟩
    have hopen := hall r (mem_answers_iff.mpr ⟨v, hv, hlast, hresponded⟩)
    exact of_decide_eq_true hopen hruled
  · intro hopen r hr
    obtain ⟨v, hv, hlast, hresponded⟩ := mem_answers_iff.mp hr
    exact decide_eq_true fun hruled => hopen ⟨v, hv, r, hlast, hresponded, hruled⟩

theorem availableShifts_isEmpty_iff :
    (availableShifts (answers responses members) total).isEmpty = true ↔
      ∀ i : Int, 0 ≤ i → i < total → RuledOut responses members i := by
  rw [← Bool.not_eq_false, IndexSet.isEmpty_eq_false_iff]
  simp only [mem_availableShifts_iff]
  push Not
  rfl

theorem judge_eq_error_iff :
    judge responses total members = .error reason ↔
      Verdict responses total members (some reason) := by
  constructor
  · intro h
    rw [judge] at h
    split at h
    · next hleads =>
        cases h
        exact .crowded hleads
    · next hleads =>
        split at h
        · next hnone =>
            cases h
            refine .silent (Nat.lt_of_not_le hleads) fun hanswered => ?_
            exact answers_ne_nil_iff.mpr hanswered (List.isEmpty_iff.mp hnone)
        · next hsome =>
            split at h
            · next hempty =>
                cases h
                have hanswered := answers_ne_nil_iff.mp (List.isEmpty_iff.not.mp hsome)
                exact .busy (Nat.lt_of_not_le hleads) hanswered
                  (availableShifts_isEmpty_iff.mp hempty)
            · cases h
  · intro h
    cases h with
    | crowded hleads => exact if_pos hleads
    | silent hleads hsilent =>
        have hnone : answers responses members = [] :=
          of_not_not (answers_ne_nil_iff.not.mpr hsilent)
        simp [judge, Nat.not_lt.mpr (Nat.le_of_lt_succ hleads), hnone]
    | busy hleads hanswered hbusy =>
        have hsome := answers_ne_nil_iff.mpr hanswered
        have hempty := availableShifts_isEmpty_iff.mpr hbusy
        simp [judge, Nat.not_lt.mpr (Nat.le_of_lt_succ hleads), hsome, hempty]

theorem judge_ok_iff :
    (∃ available, judge responses total members = .ok available) ↔
      Verdict responses total members none := by
  have hopen : (availableShifts (answers responses members) total).isEmpty = false ↔
      ∃ i : Int, 0 ≤ i ∧ i < total ∧ ¬ RuledOut responses members i := by
    simp only [IndexSet.isEmpty_eq_false_iff, mem_availableShifts_iff]
  constructor
  · rintro ⟨available, h⟩
    obtain ⟨hleads, hsome, hleft, -⟩ := judge_eq_ok_iff.mp h
    exact .eligible (Nat.lt_succ_of_le hleads) (answers_ne_nil_iff.mp hsome) (hopen.mp hleft)
  · intro h
    cases h with
    | eligible hleads hanswered hleft =>
        exact ⟨_, judge_eq_ok_iff.mpr ⟨Nat.le_of_lt_succ hleads, answers_ne_nil_iff.mpr hanswered,
          hopen.mpr hleft, rfl⟩⟩

/-! The report sorts the keys of a roster into those that passed and the others. -/

theorem mem_groupKeys :
    key ∈ groupKeys volunteers ↔ key ∈ volunteers.map Volunteer.effectiveKey := by
  rw [groupKeys, List.mem_mergeSort, List.mem_eraseDups]

theorem groupKeys_ascending (volunteers : List Volunteer) :
    (groupKeys volunteers).Pairwise (· < ·) :=
  pairwise_lt_mergeSort_eraseDups _

theorem report_eligible_eq :
    (reportOf (decisions volunteers responses total)).eligible =
      (groupKeys volunteers).filter fun key =>
        (judge responses total (membersOf volunteers key)).isOk := by
  rw [reportOf, decisions, List.filterMap_map, ← List.filterMap_eq_filter]
  refine List.filterMap_congr fun key _ => ?_
  cases hjudge : judge responses total (membersOf volunteers key) <;>
    simp [hjudge, Except.isOk, Except.toBool, Option.guard]

theorem report_discarded_keys_eq :
    (reportOf (decisions volunteers responses total)).discarded.map Prod.fst =
      (groupKeys volunteers).filter fun key =>
        !(judge responses total (membersOf volunteers key)).isOk := by
  rw [reportOf, decisions, List.map_filterMap, List.filterMap_map, ← List.filterMap_eq_filter]
  refine List.filterMap_congr fun key _ => ?_
  cases hjudge : judge responses total (membersOf volunteers key) <;>
    simp [hjudge, Except.isOk, Except.toBool, Option.guard]

theorem mem_report_discarded :
    (key, reason) ∈ (reportOf (decisions volunteers responses total)).discarded ↔
      key ∈ groupKeys volunteers ∧
        judge responses total (membersOf volunteers key) = .error reason := by
  simp only [reportOf, decisions, List.mem_filterMap, List.mem_map]
  constructor
  · rintro ⟨_, ⟨key', hkey, rfl⟩, hfound⟩
    cases hjudge : judge responses total (membersOf volunteers key') with
    | ok available => simp [hjudge] at hfound
    | error reason' =>
        simp only [hjudge, Option.some.injEq, Prod.mk.injEq] at hfound
        obtain ⟨rfl, rfl⟩ := hfound
        exact ⟨hkey, hjudge⟩
  · rintro ⟨hkey, hjudge⟩
    exact ⟨_, ⟨key, hkey, rfl⟩, by simp [hjudge]⟩

theorem mem_report_eligible :
    key ∈ (reportOf (decisions volunteers responses total)).eligible ↔
      key ∈ groupKeys volunteers ∧
        ∃ available, judge responses total (membersOf volunteers key) = .ok available := by
  rw [report_eligible_eq, List.mem_filter]
  cases judge responses total (membersOf volunteers key) <;> simp [Except.isOk, Except.toBool]

theorem candidates_keys_eq :
    (candidates volunteers responses total history).map Group.key =
      (reportOf (decisions volunteers responses total)).eligible := by
  rw [report_eligible_eq, candidates, List.map_filterMap, ← List.filterMap_eq_filter]
  refine List.filterMap_congr fun key _ => ?_
  cases hjudge : judge responses total (membersOf volunteers key) <;>
    simp [hjudge, Except.isOk, Except.toBool, Except.toOption, Option.guard, groupOf]

theorem candidates_eq_nil_iff (history : List Shift) :
    candidates volunteers responses total history = [] ↔
      ∀ key ∈ volunteers.map Volunteer.effectiveKey,
        ¬ Verdict responses total (membersOf volunteers key) none := by
  rw [← List.map_eq_nil_iff, candidates_keys_eq, List.eq_nil_iff_forall_not_mem]
  simp only [mem_report_eligible, mem_groupKeys, judge_ok_iff, not_and]

theorem resolve_eq_error_iff {fault : Fault} :
    resolve volunteers responses total history = .error fault ↔
      fault = .nobodyEligible ∧ ∀ key ∈ volunteers.map Volunteer.effectiveKey,
        ¬ Verdict responses total (membersOf volunteers key) none := by
  rw [resolve_eq, ← candidates_eq_nil_iff history]
  cases candidates volunteers responses total history with
  | nil => exact ⟨fun h => ⟨(Except.error.inj h).symm, rfl⟩, fun h => by rw [h.1]; rfl⟩
  | cons g rest => exact ⟨fun h => (nomatch h), fun h => (nomatch h.2)⟩

/-- Every group of a roster is decided once: it is placed with what its answers leave open, or
dropped for a reason. -/
structure Decided (volunteers : List Volunteer) (responses : List Response) (total : Nat)
    (history : List Shift) (groups : List Group) (report : ResolutionReport) : Prop where
  each_once : (report.eligible ++ report.discarded.map Prod.fst).Nodup
  all_keys : ∀ key, key ∈ report.eligible ++ report.discarded.map Prod.fst ↔
    key ∈ volunteers.map Volunteer.effectiveKey
  discarded : ∀ key reason, (key, reason) ∈ report.discarded ↔
    key ∈ volunteers.map Volunteer.effectiveKey ∧
      Verdict responses total (membersOf volunteers key) (some reason)
  eligible : ∀ key, key ∈ report.eligible ↔
    key ∈ volunteers.map Volunteer.effectiveKey ∧
      Verdict responses total (membersOf volunteers key) none
  keys_eq : groups.map Group.key = report.eligible
  ascending : report.eligible.Pairwise (· < ·)
  members : ∀ g ∈ groups, g.members = volunteers.filter fun v => decide (v.effectiveKey = g.key)
  available : ∀ g ∈ groups, ∀ i, i ∈ g.available ↔
    0 ≤ i ∧ i < total ∧ ¬ RuledOut responses g.members i
  allocated : ∀ g ∈ groups, g.allocated = []
  historicalCount : ∀ g ∈ groups, g.historicalCount =
    history.countP fun s => decide (g.key ∈ s.placements.map Placement.groupKey)

theorem decided_of_resolve {groups : List Group} {report : ResolutionReport}
    (h : resolve volunteers responses total history = .ok (groups, report)) :
    Decided volunteers responses total history groups report := by
  have hresolved := (resolve_ok h).2
  rw [resolve_eq] at h
  split at h
  · simp at h
  · obtain ⟨rfl, rfl⟩ := Prod.mk.inj (Except.ok.inj h)
    constructor
    case each_once =>
      rw [report_eligible_eq, report_discarded_keys_eq, (List.filter_append_perm _ _).nodup_iff]
      exact nodup_groupKeys volunteers
    case all_keys =>
      intro key
      rw [report_eligible_eq, report_discarded_keys_eq, (List.filter_append_perm _ _).mem_iff,
        mem_groupKeys]
    case discarded =>
      intro key reason
      rw [mem_report_discarded, mem_groupKeys, judge_eq_error_iff]
    case eligible =>
      intro key
      rw [mem_report_eligible, mem_groupKeys, judge_ok_iff]
    case keys_eq => exact candidates_keys_eq
    case ascending =>
      rw [report_eligible_eq]
      exact (groupKeys_ascending volunteers).filter _
    case members => exact fun g hg => (hresolved g hg).members_eq
    case available =>
      intro g hg i
      rw [(judge_eq_ok_iff.mp (hresolved g hg).judged).2.2.2, mem_availableShifts_iff]
    case allocated => exact fun g hg => (hresolved g hg).allocated_eq
    case historicalCount =>
      intro g hg
      rw [(hresolved g hg).historicalCount_eq, countWorked]
      refine congrArg Nat.cast (List.countP_congr fun s _ => ?_)
      rw [Shift.hasGroup_iff, decide_eq_true_iff, Shift.groupKeys]

end Resolution

open Resolution in
/-- A roster of which no group may be placed is refused. Of any other each group is decided. -/
theorem every_group_decided (volunteers : List Volunteer) (responses : List Response)
    (total : Nat) (history : List Shift) :
    (resolve volunteers responses total history = .error .nobodyEligible ↔
      ∀ key ∈ volunteers.map Volunteer.effectiveKey,
        ¬ Verdict responses total (membersOf volunteers key) none) ∧
    ((∃ key ∈ volunteers.map Volunteer.effectiveKey,
        Verdict responses total (membersOf volunteers key) none) →
      ∃ groups report, resolve volunteers responses total history = .ok (groups, report) ∧
        Decided volunteers responses total history groups report) := by
  constructor
  · rw [resolve_eq_error_iff]
    simp
  · rintro ⟨key, hkey, heligible⟩
    cases hresolve : resolve volunteers responses total history with
    | ok resolved =>
        obtain ⟨groups, report⟩ := resolved
        exact ⟨groups, report, rfl, decided_of_resolve hresolve⟩
    | error fault => exact absurd heligible ((resolve_eq_error_iff.mp hresolve).2 key hkey)

namespace Sample

def ida : Volunteer := { id := "ida", role := .teamLead, groupKey := "blue" }
def jon : Volunteer := { id := "jon", role := .teamLead, groupKey := "blue" }
def kim : Volunteer := { id := "kim", groupKey := "grey" }

def roster : List Volunteer := [cy, ada, ida, kim, bob, jon]

def replies : List Response :=
  [⟨"ida", true, .empty⟩, ⟨"kim", false, .empty⟩, ⟨"ada", true, .ofList [0, 1, 2]⟩,
    ⟨"cy", true, .ofList [2, 1, 0]⟩, ⟨"ada", true, .ofList [0]⟩]

end Sample

open Resolution Sample in
theorem every_group_decided_sample :
    Verdict replies 3 [ada, bob] none ∧
    ∃ groups report, resolve roster replies 3 input.history = .ok (groups, report) ∧
      Decided roster replies 3 input.history groups report ∧ report.eligible = ["red"] ∧
      report.discarded = [("blue", .multipleTeamLeads), ("grey", .noResponse),
        ("individual_cy", .noAvailability)] := by
  have hjudge : judge replies 3 (membersOf roster "red") = .ok (.ofList [1, 2]) :=
    toOption_eq_some_iff.mp (by decide +kernel)
  have hverdict : Verdict replies 3 (membersOf roster "red") none := judge_ok_iff.mp ⟨_, hjudge⟩
  obtain ⟨groups, report, hresolve, hdecided⟩ :=
    (every_group_decided roster replies 3 input.history).2 ⟨"red", by decide, hverdict⟩
  have hreport : (resolve roster replies 3 input.history).toOption.map Prod.snd =
      some ⟨["red"], [("blue", .multipleTeamLeads), ("grey", .noResponse),
        ("individual_cy", .noAvailability)]⟩ := by
    simp only [resolve, decisions, groupKeys_eq_insertionSort]
    decide +kernel
  obtain rfl : report = _ := by simpa [hresolve, Except.toOption] using hreport
  exact ⟨hverdict, groups, _, hresolve, hdecided, rfl, rfl⟩

end Rostering
