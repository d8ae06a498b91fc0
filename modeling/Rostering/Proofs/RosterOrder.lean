import Rostering.Proofs.Preparation
import Mathlib.Data.List.Forall2

namespace Rostering

/-! A roster read in another order. Its groups come out under the same keys with the same members,
who may stand in another order. The one lead that a group may have is found all the same. -/

theorem find?_eq_of_perm {test : α → Bool} {xs ys : List α} (hperm : xs.Perm ys)
    (hone : xs.countP test ≤ 1) : xs.find? test = ys.find? test := by
  have hfound := hperm.filter test
  rw [List.countP_eq_length_filter] at hone
  rw [← List.head?_filter, ← List.head?_filter]
  cases hxs : xs.filter test with
  | nil =>
      rw [hxs] at hfound
      rw [hfound.nil_eq]
  | cons x rest =>
      rw [hxs, List.length_cons] at hone
      obtain rfl : rest = [] := List.eq_nil_of_length_eq_zero (by omega)
      rw [hxs] at hfound
      rw [List.singleton_perm.mp hfound]

/-- The same group, with its members in any order. -/
structure Group.Reordered (g h : Group) : Prop where
  key_eq : g.key = h.key
  members_perm : g.members.Perm h.members
  lead_eq : g.teamLead? = h.teamLead?
  available_eq : g.available = h.available
  allocated_eq : g.allocated = h.allocated
  historicalCount_eq : g.historicalCount = h.historicalCount

namespace Resolution

variable {volunteers volunteers' : List Volunteer} {responses responses' : List Response}
variable {members members' : List Volunteer} {total : Nat} {history : List Shift}

theorem groupKeys_eq_of_perm (hperm : volunteers.Perm volunteers') :
    groupKeys volunteers = groupKeys volunteers' := by
  rw [groupKeys_eq_insertionSort, groupKeys_eq_insertionSort]
  have hkeys : (volunteers.map Volunteer.effectiveKey).eraseDups.Perm
      (volunteers'.map Volunteer.effectiveKey).eraseDups := by
    refine (List.perm_ext_iff_of_nodup (nodup_eraseDups _) (nodup_eraseDups _)).mpr fun key => ?_
    rw [List.mem_eraseDups, List.mem_eraseDups, (hperm.map _).mem_iff]
  refine List.Perm.eq_of_pairwise' (r := (· ≤ ·)) (List.pairwise_insertionSort _ _)
    (List.pairwise_insertionSort _ _) ?_
  exact (List.perm_insertionSort _ _).trans (hkeys.trans (List.perm_insertionSort _ _).symm)

/-- Where every volunteer has one response at most, it does not matter where it stands. -/
theorem answerOf?_eq_of_perm (honce : (responses.map Response.volunteerId).Nodup)
    (hperm : responses.Perm responses') (id : String) :
    answerOf? responses id = answerOf? responses' id := by
  rw [answerOf?, answerOf?, find?_eq_of_perm]
  · exact (responses.reverse_perm.trans hperm).trans responses'.reverse_perm.symm
  · rw [responses.reverse_perm.countP_eq]
    have hcount := List.nodup_iff_count_le_one.mp honce id
    rw [List.count, List.countP_map] at hcount
    exact hcount

theorem judge_eq_of_perm (hanswer : ∀ id, answerOf? responses id = answerOf? responses' id)
    (hperm : members.Perm members') :
    judge responses total members = judge responses' total members' := by
  have hgiven : (answers responses members).Perm (answers responses' members') := by
    rw [answers, funext fun v : Volunteer => hanswer v.id]
    exact hperm.filterMap _
  have hnone : (answers responses members).isEmpty = (answers responses' members').isEmpty :=
    hgiven.isEmpty_eq
  have havailable : availableShifts (answers responses members) total =
      availableShifts (answers responses' members') total := by
    rw [availableShifts, funext fun i : Int => hgiven.all_eq]
    rfl
  simp only [judge, hperm.countP_eq, hnone, havailable]

theorem groupOf_reordered {key : String} {available : IndexSet}
    (hperm : volunteers.Perm volunteers')
    (hleads : (membersOf volunteers key).countP Volunteer.isTeamLead ≤ 1) :
    (groupOf volunteers history key available).Reordered
      (groupOf volunteers' history key available) where
  key_eq := rfl
  members_perm := hperm.filter _
  lead_eq := find?_eq_of_perm (hperm.filter _) hleads
  available_eq := rfl
  allocated_eq := rfl
  historicalCount_eq := rfl

theorem judge_membersOf_eq (hanswer : ∀ id, answerOf? responses id = answerOf? responses' id)
    (hperm : volunteers.Perm volunteers') (key : String) :
    judge responses total (membersOf volunteers key) =
      judge responses' total (membersOf volunteers' key) :=
  judge_eq_of_perm hanswer (hperm.filter _)

theorem candidates_reordered (hanswer : ∀ id, answerOf? responses id = answerOf? responses' id)
    (hperm : volunteers.Perm volunteers') :
    List.Forall₂ Group.Reordered (candidates volunteers responses total history)
      (candidates volunteers' responses' total history) := by
  rw [candidates, candidates, ← groupKeys_eq_of_perm hperm]
  refine List.rel_filterMap (R := Eq) ?_ (List.forall₂_refl _)
  rintro key _ rfl
  beta_reduce
  rw [← judge_membersOf_eq hanswer hperm]
  cases hjudge : judge responses total (membersOf volunteers key) with
  | error reason => exact .none
  | ok available => exact .some (groupOf_reordered hperm (judge_eq_ok_iff.mp hjudge).1)

theorem decisions_eq_of_perm (hanswer : ∀ id, answerOf? responses id = answerOf? responses' id)
    (hperm : volunteers.Perm volunteers') :
    decisions volunteers responses total = decisions volunteers' responses' total := by
  rw [decisions, decisions, groupKeys_eq_of_perm hperm]
  refine List.map_congr_left fun key _ => ?_
  rw [judge_membersOf_eq hanswer hperm]

end Resolution

end Rostering
