import Rostering.Number.Basic

namespace Rostering.Number

/-! Mean, median and sample standard deviation. Mean and deviation are computed exactly over
the values and rounded once. -/

/-- The exact value in smallest steps; nothing for a value that is not finite. -/
def steps? : Number → Option Int
  | int n => some (n * Binary64.stepsPerUnit)
  | real (.finite negative steps) => some (Binary64.signedSteps negative steps)
  | real _ => none

def isInt : Number → Bool
  | int _ => true
  | real _ => false

/-- The double nearest to an exact number of steps. -/
def realOfSteps (num : Int) (den : Nat) : Except Fault Binary64 :=
  inRange (Binary64.ofSteps (decide (num < 0)) num.natAbs den).finite?

/-- The sum of the values that are not finite. -/
def sumNotFinite (xs : List Number) : Binary64 :=
  xs.foldl (fun total x =>
    match x with
    | real (.finite ..) => total
    | real y => total + y
    | int _ => total) .zero

def totalSteps (steps : List Int) : Int := steps.foldl (fun total s => total + s) 0

/-- The mean; integers with an integer mean keep it exact. -/
def mean (xs : List Number) : Except Fault Number :=
  match xs.mapM steps? with
  | none => .ok (.real (sumNotFinite xs))
  | some steps =>
      let total := totalSteps steps
      let unit : Int := xs.length * Binary64.stepsPerUnit
      if xs.all isInt && total % unit == 0 then .ok (.int (total / unit))
      else real <$> realOfSteps total xs.length

/-- Stable insertion into an ascending list. -/
def insertAscending (x : Number) : List Number → List Number
  | [] => [x]
  | y :: ys => if x.lt y then x :: y :: ys else y :: insertAscending x ys

def sortAscending (xs : List Number) : List Number :=
  xs.foldl (fun sorted x => insertAscending x sorted) []

def median (xs : List Number) : Except Fault Number := do
  let sorted := sortAscending xs
  let middle := sorted.length / 2
  let upper := sorted.getD middle 0
  if sorted.length % 2 = 1 then return upper
  let lower := sorted.getD (middle - 1) 0
  let twice ← lower.add upper
  return real (← twice.div 2)

/-- The largest natural number whose square is not above the given one. -/
def squareRoot (n : Nat) : Nat :=
  if h : n < 2 then n
  else
    let r := 2 * squareRoot (n / 4)
    if (r + 1) * (r + 1) ≤ n then r + 1 else r
termination_by n
decreasing_by omega

/-- The square root of `num / den` steps, from 64 bits more than a step has and a mark for the
part below them. -/
def rootOfQuotient (num den : Nat) : Nat × Nat :=
  let scaled := num * Nat.pow 2 128
  let root := squareRoot (scaled / den)
  let inexact := if root * root * den = scaled then 0 else 1
  (2 * root + inexact, Nat.pow 2 65)

/-- The sample standard deviation, with one less than the count below the sum of squares. -/
def standardDeviation (xs : List Number) : Except Fault Binary64 :=
  match xs.mapM steps? with
  | none => .error .spreadNotFinite
  | some steps =>
      let n := xs.length
      let total := totalSteps steps
      let squares := totalSteps (steps.map fun s => s * s)
      let (num, den) := rootOfQuotient (n * squares - total * total).natAbs (n * (n - 1))
      realOfSteps num den

end Rostering.Number
