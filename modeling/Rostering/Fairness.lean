import Rostering.Number.Arithmetic
import Rostering.Ranking
import Rostering.Rota.Basic

namespace Rostering

/-! How evenly shifts are shared: the Gini coefficient of counts, and what each group is still
owed. -/

namespace Fairness

open Arithmetic

section

variable {α : Type} [Arithmetic α]

/-- The sum of the values, each as often as its rank from below says. -/
def rankWeighted (ascending : List α) : Except Fault α := do
  sum (← ascending.zipIdx.mapM fun (v, i) => mul (ofInt (i + 1)) v)

/-- The Gini coefficient: twice the rank-weighted sum over the sum and the count, less the share
that even values would have. It is zero where there is nothing to share. -/
def concentration (values : List α) : Except Fault α := do
  if values.all isZero then return ← ratio 0 1
  let ascending := Ranking.rank lt values
  let count : Int := values.length
  let total ← sum ascending
  if isZero total then return ← ratio 0 1
  let weighted ← rankWeighted ascending
  sub (← div (← mul (ofInt 2) weighted) (← mul (ofInt count) total)) (← ratio (count + 1) count)

end

/-- The Gini coefficient to four places. -/
def gini (values : List Number) : Except Fault Number :=
  return (← concentration values).roundTo 4

def frequencyText (x : Binary64) : String := x.fixedText 2

/-- A target frequency lies above zero and not above one. -/
def isFrequency (x : Binary64) : Bool := Binary64.zero.lt x && x.le .one

def checkFrequency (x : Binary64) : Except Fault Binary64 :=
  if isFrequency x then .ok x else .error (.frequencyRange (frequencyText x))

/-- What a group got and what it is owed. -/
structure Row where
  groupKey : String
  members : List String
  historical : Int
  shifts : List Int
  count : Nat
  availableCount : Nat
  desiredRemaining : Int
  remainingCapacity : Int
  deriving DecidableEq, Repr

/-- The indices in rising order, repeats included. -/
def ascendingIndices (indices : List Int) : List Int :=
  indices.mergeSort fun a b => decide (a ≤ b)

def rowOf (rota : Rota) (g : Group) : Except Fault Row := do
  return {
    groupKey := g.key
    members := g.memberIds
    historical := g.historicalCount
    shifts := ascendingIndices g.allocated
    count := g.allocationCount
    availableCount := g.available.size
    desiredRemaining := ← rota.desiredRemaining g
    remainingCapacity := g.remainingCapacity rota.cap }

/-- Whether a row stands before another: by what is owed, most first, then by key. -/
def Row.before (a b : Row) : Bool :=
  decide (b.desiredRemaining < a.desiredRemaining ∨
    (a.desiredRemaining = b.desiredRemaining ∧ a.groupKey ≤ b.groupKey))

/-- A row for each group, the most underserved first. -/
def overview (rota : Rota) : Except Fault (List Row) :=
  return (← rota.groups.mapM (rowOf rota)).mergeSort Row.before

end Fairness

end Rostering
