import Rostering.Proofs.Generated
import Rostering.Proofs.Lockstep
import Rostering.Proofs.Reading
import Rostering.Proofs.Reordering

namespace Rostering

/-! The order in which a request lists volunteers and responses. Rotas that differ only in the order
of members stay so from pick to pick, and a request in another order starts from such a rota. -/

namespace Rota

variable {policy : Policy} {a b : Rota} {g h : Group} {s t : Shift}

theorem Reordered.readsSame (hsame : a.Reordered b) (hgroup : g.Reordered h)
    (hshift : s.Reordered t) (kind : CriterionKind) : kind.ReadsSame a g s b h t where
  history_eq := hsame.history_eq
  count_eq := hsame.shifts.length_eq
  key_eq := hgroup.key_eq
  size_eq := hgroup.size_eq
  allocated_eq := hgroup.allocated_eq
  index_eq := hshift.index_eq
  men_eq := fun _ => ⟨hgroup.maleCount_eq, hshift.maleCount_eq⟩
  need_eq := fun _ => ⟨hsame.target_eq, by rw [hgroup.available_eq]⟩

theorem Reordered.mayJoin_eq (hsame : a.Reordered b) (hgroup : g.Reordered h)
    (hshift : s.Reordered t) (criteria : List Criterion) :
    a.mayJoin criteria g s = b.mayJoin criteria h t := by
  have hallowed : (criteria.all fun c => c.kind.allows a g s) =
      criteria.all fun c => c.kind.allows b h t :=
    all_allows_eq_of_readsSame fun c _ => hsame.readsSame hgroup hshift c.kind
  have hleft : g.remainingCapacity a.cap = h.remainingCapacity b.cap := by
    rw [Group.remainingCapacity, Group.remainingCapacity, hsame.cap_eq, hgroup.allocationCount_eq]
  rw [mayJoin, mayJoin, hallowed, hleft, hgroup.isAvailable_eq, hgroup.holds_eq,
    hgroup.hasTeamLead_eq, hgroup.size_eq, hgroup.key_eq, hshift.index_eq, hshift.hasGroup_eq,
    hshift.canFit_eq, hshift.lead_eq]

theorem Reordered.inStep (hsame : a.Reordered b) (hshift : s.Reordered t) :
    InStep Fault.Never Fault.Never policy id a s b t := by
  refine InStep.of_groups (c := 0) hshift.isFull_eq (by rw [hshift.lead_eq])
    hsame.groups.length_eq fun i g h hg hh => ?_
  have hgroup := rel_of_getElem? hsame.groups hg hh
  have howed : a.desiredRemaining g = b.desiredRemaining h := by
    rw [desiredRemaining, desiredRemaining, hgroup.totalCount_eq, hsame.history_eq,
      hsame.shifts.length_eq, hsame.target_eq]
  refine ⟨hgroup.hasTeamLead_eq, hsame.mayJoin_eq hgroup hshift policy.criteria, ?_⟩
  refine rankOf_concur hgroup.key_eq hgroup.size_eq hgroup.totalCount_eq ?_ ?_
  · exact bonus_eq_of_readsSame fun c _ => hsame.readsSame hgroup hshift c.kind
  · exact (Concur.of_eq howed).mono fun d d' hd => by omega

theorem Reordered.lockstep (policy : Policy) (j : Nat) :
    Lockstep Fault.Never Fault.Never policy id j Reordered where
  shift := by
    intro a b hsame
    rcases getElem?_of_forall₂ hsame.shifts j with hnone | ⟨s, t, hs, ht, hshift⟩
    · exact .inl hnone
    · exact .inr ⟨s, t, hs, ht, hsame.inStep hshift⟩
  join := by
    intro a b i g h s t hsame hg hh hs ht
    have hgroup := rel_of_getElem? hsame.groups hg hh
    have hshift := rel_of_getElem? hsame.shifts hs ht
    constructor
    case shifts => exact forall₂_set hsame.shifts (hshift.seat hgroup) j
    case groups =>
      rw [join, join, hshift.index_eq]
      exact forall₂_set hsame.groups (hgroup.take t.index) i
    case history_eq => exact hsame.history_eq
    case cap_eq => exact hsame.cap_eq
    case target_eq => exact hsame.target_eq

end Rota

/-- The same outcome, with the members of each group in any order. -/
structure Outcome.Reordered (outcome other : Outcome) : Prop where
  rota : outcome.rota.Reordered other.rota
  success_eq : outcome.success = other.success
  underfilled : List.Forall₂ Shift.Reordered outcome.underfilled other.underfilled
  underutilized : List.Forall₂ Group.Reordered outcome.underutilized other.underutilized
  issues_eq : outcome.issues = other.issues
  report_eq : outcome.report = other.report

theorem Outcome.ofRota_reordered {a b : Rota} (hsame : a.Reordered b) (criteria : List Criterion)
    (report : ResolutionReport) :
    (ofRota a criteria report).Reordered (ofRota b criteria report) := by
  have hunderfilled : List.Forall₂ Shift.Reordered a.underfilled b.underfilled := by
    refine List.rel_filter ?_ hsame.shifts
    intro s t hshift
    beta_reduce
    rw [hshift.isFull_eq]
  constructor
  case rota => exact hsame
  case success_eq =>
    simp only [ofRota, audit_eq_of_reordered hsame, isEmpty_eq_of_forall₂ hunderfilled]
  case underfilled => exact hunderfilled
  case underutilized =>
    refine List.rel_filter ?_ hsame.groups
    intro g h hgroup
    beta_reduce
    rw [hgroup.allocationCount_eq, hgroup.available_eq, hsame.cap_eq]
  case issues_eq => exact audit_eq_of_reordered hsame criteria
  case report_eq => rfl

namespace Request

variable {request : Request} {volunteers : List Volunteer} {responses : List Response}

open Resolution in
theorem prepare_concur (hanswer : ∀ id, answerOf? request.responses id = answerOf? responses id)
    (hperm : request.volunteers.Perm volunteers) :
    Concur Fault.Never Fault.Never (fun x y => x.1.Reordered y.1 ∧ x.2 = y.2) request.prepare
      { request with volunteers, responses }.prepare := by
  have hcheck : request.check = { request with volunteers, responses }.check := by
    simp only [check, hperm.isEmpty_eq]
  have hgroups : List.Forall₂ Group.Reordered
      (candidates request.volunteers request.responses request.dates.length request.history)
      (candidates volunteers responses request.dates.length request.history) :=
    candidates_reordered hanswer hperm
  have hresolve : Concur Fault.Never Fault.Never
      (fun x y => List.Forall₂ Group.Reordered x.1 y.1 ∧ x.2 = y.2)
      (resolve request.volunteers request.responses request.dates.length request.history)
      (resolve volunteers responses request.dates.length request.history) := by
    rw [resolve_eq, resolve_eq, isEmpty_eq_of_forall₂ hgroups, decisions_eq_of_perm hanswer hperm]
    split
    · exact .error _
    · exact .ok ⟨hgroups, rfl⟩
  rw [prepare, prepare]
  refine (Concur.of_eq hcheck).bind fun _ _ _ _ _ => ?_
  refine hresolve.bind ?_
  rintro ⟨groups, report⟩ ⟨groups', _⟩ _ _ ⟨hgroups, rfl⟩
  refine (Concur.of_eq rfl).bind ?_
  rintro shifts _ _ _ rfl
  exact .ok ⟨⟨List.forall₂_same.mpr fun s _ => .refl s, hgroups, rfl, rfl, rfl⟩, rfl⟩

end Request

variable {request : Request} {volunteers : List Volunteer} {responses : List Response}

theorem generate_concur
    (hanswer : ∀ id, Resolution.answerOf? request.responses id = Resolution.answerOf? responses id)
    (hperm : request.volunteers.Perm volunteers) :
    Concur Fault.Never Fault.Never Outcome.Reordered (generate request)
      (generate { request with volunteers, responses }) := by
  rw [generate_eq, generate_eq]
  refine (Request.prepare_concur hanswer hperm).bind ?_
  rintro ⟨start, report⟩ ⟨start', _⟩ _ _ ⟨hstart, rfl⟩
  have hrun : Concur Fault.Never Fault.Never Rota.Reordered
      ((List.range request.dates.length).foldlM (Rota.fillShift request.policy) start)
      ((List.range request.dates.length).foldlM (Rota.fillShift request.policy) start') :=
    Rota.fillShifts_concur (fun j _ => Rota.Reordered.lockstep request.policy j) hstart
  refine hrun.bind fun final final' _ _ hsame => ?_
  exact .ok (Outcome.ofRota_reordered hsame request.policy.criteria report)

/-- A request that lists its volunteers in another order is refused for the same fault or gives the
same outcome, but for the order of members. So is one that lists its responses in another order,
where no two are from one volunteer. -/
theorem input_order_irrelevant (hvolunteers : volunteers.Perm request.volunteers)
    (hresponses : responses = request.responses ∨
      (request.responses.map Response.volunteerId).Nodup ∧ responses.Perm request.responses) :
    (∃ fault, generate request = .error fault ∧
      generate { request with volunteers, responses } = .error fault) ∨
    ∃ outcome other, generate request = .ok outcome ∧
      generate { request with volunteers, responses } = .ok other ∧ outcome.Reordered other := by
  have hanswer : ∀ id, Resolution.answerOf? request.responses id =
      Resolution.answerOf? responses id := by
    rcases hresponses with rfl | ⟨honce, hperm⟩
    · exact fun _ => rfl
    · exact Resolution.answerOf?_eq_of_perm honce hperm.symm
  exact (generate_concur hanswer hvolunteers.symm).error_or_ok

namespace Sample

/-- The sample request with the one response of each volunteer that counts. -/
def settled : Request :=
  { input with responses := [⟨"cy", true, .empty⟩, ⟨"ada", true, .ofList [0]⟩] }

theorem generate_settled : ∃ outcome, generate settled = .ok outcome ∧ outcome.rota = final := by
  refine @exists_generate settled start final ?_ ?_
  · simp only [Request.prepare, resolve, Resolution.decisions,
      Resolution.groupKeys_eq_insertionSort]
    decide +kernel
  · decide +kernel

end Sample

open Sample in
theorem input_order_irrelevant_sample :
    ∃ outcome other, generate settled = .ok outcome ∧ outcome.rota = final ∧
      generate
        { settled with volunteers := [bob, cy, ada], responses := settled.responses.reverse } =
          .ok other ∧
      outcome.Reordered other := by
  obtain ⟨outcome, h, hfinal⟩ := generate_settled
  have hvolunteers : [bob, cy, ada].Perm settled.volunteers := by decide
  have honce : (settled.responses.map Response.volunteerId).Nodup := by decide
  rcases input_order_irrelevant hvolunteers (.inr ⟨honce, settled.responses.reverse_perm⟩) with
    ⟨fault, hrefused, -⟩ | ⟨_, other, hok, hother, hsame⟩
  · simp [h] at hrefused
  · obtain rfl := Except.ok.inj (hok.symm.trans h)
    exact ⟨_, other, h, hfinal, hother, hsame⟩

end Rostering
