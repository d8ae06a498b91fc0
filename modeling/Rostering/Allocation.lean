import Rostering.Criterion

namespace Rostering

/-! Filling the shifts of a rota. Shifts are taken by index; each first gets the best ranked
group with a team lead, if it lacks one, and then the best ranked group that fits, until it is
full or none does. Ranks are taken anew for every pick. -/

inductive TieBreak where
  | largestFirst
  | smallestFirst
  | keyOnly
  deriving DecidableEq, Repr

namespace TieBreak

def all : List TieBreak := [largestFirst, smallestFirst, keyOnly]

def name : TieBreak → String
  | largestFirst => "largest_first"
  | smallestFirst => "smallest_first"
  | keyOnly => "key_only"

/-- The rule that a value names; nothing named means the largest groups first. -/
def ofValue (v : Value) : Except Fault TieBreak :=
  match v with
  | .null => .ok largestFirst
  | .text "" => .ok largestFirst
  | v =>
      match all.find? fun rule => v.toText? == some rule.name with
      | some rule => .ok rule
      | none => .error (.unknownTieBreak v.shown (all.map TieBreak.name))

def preference (rule : TieBreak) (size : Nat) : Int :=
  match rule with
  | largestFirst => -size
  | smallestFirst => size
  | keyOnly => 0

end TieBreak

/-- What decides between two groups, the least first. -/
structure Rank where
  overserved : Int
  malus : Number
  total : Int
  preference : Int
  key : String
  deriving DecidableEq, Repr

namespace Rank

/-- Whether a rank comes before another: the first part in which they differ decides. -/
def below (a b : Rank) : Bool :=
  if a.overserved ≠ b.overserved then decide (a.overserved < b.overserved)
  else if !a.malus.equal b.malus then a.malus.lt b.malus
  else if a.total ≠ b.total then decide (a.total < b.total)
  else if a.preference ≠ b.preference then decide (a.preference < b.preference)
  else decide (a.key < b.key)

end Rank

/-- What steers a run besides the rota. -/
structure Policy where
  criteria : List Criterion := []
  tieBreak : TieBreak := .largestFirst
  deriving DecidableEq, Repr

namespace Rota

def bonus (rota : Rota) (criteria : List Criterion) (g : Group) (s : Shift) :
    Except Fault Number := do
  Number.sum (← criteria.mapM fun c => c.weightedScore rota g s)

def rankOf (rota : Rota) (policy : Policy) (g : Group) (s : Shift) : Except Fault Rank := do
  let bonus ← rota.bonus policy.criteria g s
  return {
    overserved := -(← rota.desiredRemaining g)
    malus := bonus.neg
    total := g.totalCount
    preference := policy.tieBreak.preference g.size
    key := g.key }

def mayJoin (rota : Rota) (criteria : List Criterion) (g : Group) (s : Shift) : Bool :=
  decide (0 < g.remainingCapacity rota.cap) && g.isAvailable s.index && !g.holds s.index &&
    !s.hasGroup g.key && !(g.hasTeamLead && s.teamLead.isSome) && s.canFit g.size &&
    criteria.all fun c => c.kind.allows rota g s

def positionsWhere (rota : Rota) (test : Group → Bool) : List Nat :=
  (List.range rota.groups.length).filter fun i => (rota.groups[i]?).any test

def eligible (rota : Rota) (criteria : List Criterion) (s : Shift) : List Nat :=
  rota.positionsWhere fun g => rota.mayJoin criteria g s

def eligibleLeads (rota : Rota) (criteria : List Criterion) (s : Shift) : List Nat :=
  rota.positionsWhere fun g => g.hasTeamLead && rota.mayJoin criteria g s

def ranksAt (rota : Rota) (policy : Policy) (s : Shift) (positions : List Nat) :
    Except Fault (List (Rank × Nat)) :=
  (positions.filterMap fun i => (rota.groups[i]?).map fun g => (g, i)).mapM
    fun (g, i) => return (← rota.rankOf policy g s, i)

/-- The positions of some groups, the best for a shift first. -/
def ranked (rota : Rota) (policy : Policy) (s : Shift) (positions : List Nat) :
    Except Fault (List Nat) :=
  return (Ranking.rank (fun a b => a.1.below b.1) (← rota.ranksAt policy s positions)).map (·.2)

/-- Places a group, with a refusal as a fault. -/
def placeAt (rota : Rota) (group shift : Nat) : Except Fault Rota :=
  (rota.place group shift).mapError .refused

/-- Gives the shift at a position its best ranked group with a team lead. -/
def fillLead (policy : Policy) (shift : Nat) (rota : Rota) : Except Fault Rota :=
  match rota.shifts[shift]? with
  | none => .ok rota
  | some s =>
      if s.teamLead.isSome || s.isFull then .ok rota
      else do
        match ← rota.ranked policy s (rota.eligibleLeads policy.criteria s) with
        | [] => return rota
        | best :: _ => rota.placeAt best shift

/-- Gives the shift at a position its best ranked group, at most `fuel` times. -/
def fillMembers (policy : Policy) (shift : Nat) : Nat → Rota → Except Fault Rota
  | 0, rota => .ok rota
  | fuel + 1, rota =>
      match rota.shifts[shift]? with
      | none => .ok rota
      | some s =>
          if s.isFull then .ok rota
          else do
            match ← rota.ranked policy s (rota.eligible policy.criteria s) with
            | [] => return rota
            | best :: _ => fillMembers policy shift fuel (← rota.placeAt best shift)

/-- Fills one shift. A group joins it once, so there are at most as many picks as groups. -/
def fillShift (policy : Policy) (rota : Rota) (shift : Nat) : Except Fault Rota := do
  let rota ← rota.fillLead policy shift
  fillMembers policy shift rota.groups.length rota

def shiftOrder (rota : Rota) : List Nat :=
  let index (i : Nat) : Int := (rota.shifts[i]?).elim 0 Shift.index
  (List.range rota.shifts.length).mergeSort fun i j => decide (index i ≤ index j)

def allocate (rota : Rota) (policy : Policy) : Except Fault Rota :=
  rota.shiftOrder.foldlM (fillShift policy) rota

end Rota

end Rostering
