import Rostering.Proofs.Openings
import Rostering.Proofs.RankOrder

namespace Rostering

/-! A group that was passed over for a shift has no reason to envy one that got it: among groups
that could have taken the place, those who had worked least come first, whatever the bonuses. -/

/-- With no bonus to count, a group comes before another for a shift: it had worked less before, or
as much and is preferred for its size, or its key decides. -/
def Group.Precedes (rule : TieBreak) (i : Int) (g h : Group) : Prop :=
  (g.before i).totalCount < (h.before i).totalCount ∨
    (g.before i).totalCount = (h.before i).totalCount ∧
      (rule.preference g.size < rule.preference h.size ∨
        rule.preference g.size = rule.preference h.size ∧ g.key < h.key)

namespace Rota

open Ranking

variable {rota after : Rota} {policy : Policy} {s : Shift} {g h : Group}

theorem agrees_overserved (ranks : List (Rank × Nat)) :
    Agrees (fun a b => a.1.below b.1) (fun a => a.1.overserved) ranks where
  below_le _ _ _ _ hbelow := Rank.below_overserved_le hbelow
  not_below_le _ _ _ _ hnot := Rank.not_below_overserved_le hnot

theorem malus_eq_zero (hnone : policy.criteria = []) {r : Rank}
    (h : rota.rankOf policy g s = .ok r) : r.malus = 0 := by
  obtain ⟨bonus, _, hbonus, -, rfl⟩ := rankOf_eq_ok_iff.mp h
  have hsum : (0 : Number) = bonus := by
    simpa [Rota.bonus, hnone, Number.sum] using hbonus
  rw [← hsum]
  rfl

theorem agrees_standing (hnone : policy.criteria = []) {positions : List Nat}
    {ranks : List (Rank × Nat)} (h : rota.ranksAt policy s positions = .ok ranks) :
    Agrees (fun a b => a.1.below b.1) (fun a => a.1.standing) ranks := by
  have hzero : ∀ a ∈ ranks, a.1.malus = 0 := by
    intro a ha
    obtain ⟨-, g, -, hrank⟩ := (mem_ranksAt h).mp ha
    exact malus_eq_zero hnone hrank
  have hequal : ∀ a ∈ ranks, ∀ b ∈ ranks, a.1.malus.equal b.1.malus = true := by
    intro a ha b hb
    rw [hzero a ha, hzero b hb]
    rfl
  constructor
  case below_le =>
    intro a ha b hb hbelow
    exact le_of_lt ((Rank.below_iff_standing_lt (hequal a ha b hb)).mp hbelow)
  case not_below_le =>
    intro a ha b hb hnot
    refine le_of_not_gt fun hlt => ?_
    rw [(Rank.below_iff_standing_lt (hequal a ha b hb)).mpr hlt] at hnot
    exact Bool.noConfusion hnot

/-- A group is chosen only if no other that may join, led or not as it is, has a lesser key. -/
theorem Choice.key_le [Preorder κ] {key : Rank → κ} {i j k : Nat}
    (hchoice : Choice policy j rota i after) (hgroup : rota.groups[i]? = some g)
    (hshift : rota.shifts[j]? = some s)
    (hagrees : ∀ positions ranks, rota.ranksAt policy s positions = .ok ranks →
      Agrees (fun a b => a.1.below b.1) (fun a => key a.1) ranks)
    (hother : rota.groups[k]? = some h) (hjoin : rota.mayJoin policy.criteria h s = true)
    (hlead : g.hasTeamLead = h.hasTeamLead) :
    ∃ first second, rota.rankOf policy g s = .ok first ∧ rota.rankOf policy h s = .ok second ∧
      key first ≤ key second := by
  cases hchoice with
  | lead hat hfound hroom hbest =>
      obtain rfl := Option.some.inj (hshift.symm.trans hfound)
      obtain ⟨g', hgroup', htest⟩ := exists_of_ranked_head hbest
      obtain rfl := Option.some.inj (hgroup.symm.trans hgroup')
      have hled : g.hasTeamLead = true := (Bool.and_eq_true _ _ ▸ htest).1
      apply ranked_head_le hbest (hagrees _) hgroup _ hother
      exact mem_positionsWhere.mpr ⟨h, hother, by rw [← hlead, hled, hjoin]; rfl⟩
  | member hat hfound hroom hbest =>
      obtain rfl := Option.some.inj (hshift.symm.trans hfound)
      apply ranked_head_le hbest (hagrees _) hgroup _ hother
      exact mem_positionsWhere.mpr ⟨h, hother, hjoin⟩

end Rota

variable {request : Request} {outcome : Outcome} {s : Shift} {placed other : Group}

/-- A group that could have taken the place of another was ranked beside it when that one was
chosen. -/
theorem generate_key_le [Preorder κ] (key : Rank → κ) (h : generate request = .ok outcome)
    (hagrees : ∀ (rota : Rota) (t : Shift) positions ranks,
      rota.ranksAt request.policy t positions = .ok ranks →
        Ranking.Agrees (fun a b => a.1.below b.1) (fun a => key a.1) ranks)
    (hs : s ∈ outcome.rota.shifts) (hplaced : placed ∈ outcome.rota.groups)
    (hother : other ∈ outcome.rota.groups) (hheld : s.index ∈ placed.allocated)
    (hoff : s.index ∉ other.allocated) (hlead : placed.hasTeamLead = other.hasTeamLead)
    (hsize : other.size ≤ placed.size) (hopen : request.OpenTo other s.index) :
    ∃ (rota : Rota) (t : Shift) (first second : Rank),
      rota.rankOf request.policy (placed.before s.index) t = .ok first ∧
      rota.rankOf request.policy (other.before s.index) t = .ok second ∧
      key first ≤ key second := by
  obtain ⟨j, hshift⟩ := List.getElem?_of_mem hs
  obtain ⟨i, hi⟩ := List.getElem?_of_mem hplaced
  obtain ⟨k, hk⟩ := List.getElem?_of_mem hother
  have hindex := generate_index_eq h hshift
  obtain ⟨between, next, t, hsofar, hchoice, hlater, hgroup, ht, hblank⟩ :=
    generate_choice h hshift hi hheld
  have hrest : Rota.Choices request.policy j between (outcome.rota.upTo (j + 1)) :=
    .head ⟨i, hchoice⟩ hlater
  have hsame := Shift.index_eq_of_blank_eq hblank
  have hbeside : between.groups[k]? = some (other.before s.index) := by
    rw [hindex] at hoff ⊢
    apply Rota.Choices.group_eq hsofar hrest (Rota.upTo_group hk)
    rw [← Group.before_succ hoff]
    exact Rota.upTo_group hk
  have hnotOn : other.key ∉ t.groupKeys := by
    intro hkey
    obtain ⟨u, added, hu, -, hplacements, -⟩ := hrest.picks.shift_grows ht
    have hafter := Rota.upTo_shift (i := (j + 1 : Int)) hshift (by omega)
    obtain rfl : s = u := Option.some.inj (hafter.symm.trans hu)
    apply hoff
    rw [(generate_coherent h).linked other hother s hs, Shift.groupKeys, hplacements,
      List.map_append]
    exact List.mem_append_left _ hkey
  rw [← hsame] at hgroup hbeside hopen ⊢
  have hadmits := ((generate_mayJoin_iff h hsofar).mp (hchoice.mayJoin hgroup ht)).2
  have hbesideAdmits : t.Admits other := by
    constructor
    case notOn => exact hnotOn
    case fits =>
      have := hadmits.fits
      omega
    case leadFree => exact fun hled => hadmits.leadFree (hlead.trans hled)
  obtain ⟨first, second, hfirst, hsecond, hle⟩ := hchoice.key_le hgroup ht (hagrees between t)
    hbeside ((generate_mayJoin_iff h hsofar).mpr ⟨hopen, hbesideAdmits⟩) hlead
  exact ⟨between, t, first, second, hfirst, hsecond, hle⟩

theorem generate_total_le (h : generate request = .ok outcome)
    (hs : s ∈ outcome.rota.shifts) (hplaced : placed ∈ outcome.rota.groups)
    (hother : other ∈ outcome.rota.groups) (hheld : s.index ∈ placed.allocated)
    (hoff : s.index ∉ other.allocated) (hlead : placed.hasTeamLead = other.hasTeamLead)
    (hsize : other.size ≤ placed.size) (hopen : request.OpenTo other s.index) :
    (placed.before s.index).totalCount ≤ (other.before s.index).totalCount := by
  obtain ⟨rota, t, first, second, hfirst, hsecond, hle⟩ :=
    generate_key_le Rank.overserved h
      (fun _ _ _ ranks _ => Rota.agrees_overserved ranks) hs hplaced hother hheld hoff hlead hsize
      hopen
  obtain ⟨_, due, -, hdue, rfl⟩ := Rota.rankOf_eq_ok_iff.mp hfirst
  obtain ⟨_, due', -, hdue', rfl⟩ := Rota.rankOf_eq_ok_iff.mp hsecond
  obtain rfl : due = due' := Except.ok.inj (hdue.symm.trans hdue')
  simpa using hle

theorem generate_precedes (h : generate request = .ok outcome)
    (hnone : request.policy.criteria = [])
    (hs : s ∈ outcome.rota.shifts) (hplaced : placed ∈ outcome.rota.groups)
    (hother : other ∈ outcome.rota.groups) (hheld : s.index ∈ placed.allocated)
    (hoff : s.index ∉ other.allocated) (hlead : placed.hasTeamLead = other.hasTeamLead)
    (hsize : other.size ≤ placed.size) (hopen : request.OpenTo other s.index) :
    placed.Precedes request.policy.tieBreak s.index other := by
  obtain ⟨rota, t, first, second, hfirst, hsecond, hle⟩ :=
    generate_key_le Rank.standing h (fun _ _ _ _ => Rota.agrees_standing hnone) hs hplaced hother
      hheld hoff hlead hsize hopen
  obtain ⟨_, due, -, hdue, rfl⟩ := Rota.rankOf_eq_ok_iff.mp hfirst
  obtain ⟨_, due', -, hdue', rfl⟩ := Rota.rankOf_eq_ok_iff.mp hsecond
  obtain rfl : due = due' := Except.ok.inj (hdue.symm.trans hdue')
  have hkey : placed.key ≠ other.key := by
    intro heq
    have := List.inj_on_of_nodup_map (generate_coherent h).keys_nodup hplaced hother heq
    exact hoff (this ▸ hheld)
  simp only [Rank.standing, Prod.Lex.toLex_le_toLex, Group.before_size, Group.before_key] at hle
  rcases hle with htotal | ⟨-, htotal | ⟨htotal, hsize | ⟨hsize, hle⟩⟩⟩
  · exact Or.inl (by omega)
  · exact Or.inl htotal
  · exact Or.inr ⟨htotal, Or.inl hsize⟩
  · exact Or.inr ⟨htotal, Or.inr ⟨hsize, lt_of_le_of_ne hle hkey⟩⟩

/-- Among groups with or without a lead alike, one that is on a shift has worked no more before it
than one that is not, no larger, and could have taken the shift. Where there are no criteria the
tie-break and the key decide between the two. -/
theorem no_justified_envy (h : generate request = .ok outcome) :
    ∀ s ∈ outcome.rota.shifts, ∀ placed ∈ outcome.rota.groups, ∀ other ∈ outcome.rota.groups,
      placed.key ∈ s.groupKeys → other.key ∉ s.groupKeys →
      placed.hasTeamLead = other.hasTeamLead → other.size ≤ placed.size →
      request.OpenTo other s.index →
        (placed.before s.index).totalCount ≤ (other.before s.index).totalCount ∧
        (request.policy.criteria = [] →
          placed.Precedes request.policy.tieBreak s.index other) := by
  intro s hs placed hplaced other hother hon hoff hlead hsize hopen
  have hcoherent := generate_coherent h
  rw [← hcoherent.linked placed hplaced s hs] at hon
  rw [← hcoherent.linked other hother s hs] at hoff
  exact ⟨generate_total_le h hs hplaced hother hon hoff hlead hsize hopen,
    fun hnone => generate_precedes h hnone hs hplaced hother hon hoff hlead hsize hopen⟩

namespace Sample

def dee : Volunteer := { id := "dee" }
def eli : Volunteer := { id := "eli" }

def pair (criteria : List Criterion) : Request where
  volunteers := [dee, eli]
  responses := [⟨"eli", true, .empty⟩, ⟨"dee", true, .empty⟩]
  dates := input.dates
  defaultSize := 1
  cap := 2
  policy := { criteria }

def deePlaced : Placement := ⟨"individual_dee", ["dee"], 0, none⟩
def eliPlaced : Placement := ⟨"individual_eli", ["eli"], 0, none⟩

def pairFinal : Rota where
  shifts := start.shifts.zipWith (fun s p => { s with size := 1, placements := [p] })
    [deePlaced, eliPlaced, deePlaced]
  groups := [⟨"individual_dee", [dee], .ofList [0, 1, 2], [0, 2], 0⟩,
    ⟨"individual_eli", [eli], .ofList [0, 1, 2], [1], 0⟩]
  cap := 2

theorem prepare_pair (criteria : List Criterion) :
    (pair criteria).prepare.toOption.map (·.1) = some pairFinal.blank := by
  change (pair []).prepare.toOption.map (·.1) = some pairFinal.blank
  simp only [Request.prepare, resolve, Resolution.decisions,
    Resolution.groupKeys_eq_insertionSort]
  decide +kernel

theorem generate_pair :
    ∃ outcome, generate (pair []) = .ok outcome ∧ outcome.rota = pairFinal :=
  exists_generate (prepare_pair []) (by decide +kernel)

end Sample

theorem no_justified_envy_sample :
    ∃ outcome, generate (Sample.pair []) = .ok outcome ∧
      ∃ s ∈ outcome.rota.shifts, ∃ dee ∈ outcome.rota.groups, ∃ eli ∈ outcome.rota.groups,
        dee.key ∈ s.groupKeys ∧ eli.key ∉ s.groupKeys ∧ (Sample.pair []).OpenTo eli s.index ∧
        (dee.before s.index).totalCount ≤ (eli.before s.index).totalCount ∧
        dee.Precedes .largestFirst s.index eli := by
  obtain ⟨outcome, h, hfinal⟩ := Sample.generate_pair
  have hs : ⟨Sample.week 3, 2, 1, [Sample.deePlaced], [], none, 0⟩ ∈ outcome.rota.shifts := by
    rw [hfinal]
    decide
  have hdee : ⟨"individual_dee", [Sample.dee], .ofList [0, 1, 2], [0, 2], 0⟩ ∈
      outcome.rota.groups := by
    rw [hfinal]
    decide
  have heli : ⟨"individual_eli", [Sample.eli], .ofList [0, 1, 2], [1], 0⟩ ∈
      outcome.rota.groups := by
    rw [hfinal]
    decide
  have hopen : (Sample.pair []).OpenTo
      ⟨"individual_eli", [Sample.eli], .ofList [0, 1, 2], [1], 0⟩ 2 :=
    ⟨by decide, by decide, fun hbarred => absurd hbarred (by decide)⟩
  have henvy := no_justified_envy h _ hs _ hdee _ heli (by decide) (by decide) rfl (by decide)
    hopen
  exact ⟨outcome, h, _, hs, _, hdee, _, heli, by decide, by decide, hopen, henvy.1,
    henvy.2 rfl⟩

end Rostering
