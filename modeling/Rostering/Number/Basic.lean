import Rostering.Fault
import Rostering.Number.Decimal

namespace Rostering

/-! Numbers as they are written: an exact integer, or a double. Arithmetic stays exact until a
double takes part. -/

inductive Number where
  | int (value : Int)
  | real (value : Binary64)
  deriving DecidableEq, Repr, Inhabited

namespace Number

instance (n : Nat) : OfNat Number n := ⟨.int n⟩

/-- A result that must be finite; an unbounded one is out of range. -/
def inRange (x : Option Binary64) : Except Fault Binary64 := x.elim (.error .outOfRange) .ok

/-- The double of an integer; too large an integer is out of range. -/
def realOfInt (n : Int) : Except Fault Binary64 := inRange (Binary64.ofInt? n)

def toReal : Number → Except Fault Binary64
  | int n => realOfInt n
  | real x => .ok x

/-- Applies an exact operation to two integers and the rounded one as soon as a double takes
part. -/
def combine (exact : Int → Int → Int) (rounded : Binary64 → Binary64 → Binary64)
    (a b : Number) : Except Fault Number :=
  match a, b with
  | int m, int n => .ok (int (exact m n))
  | a, b => do return real (rounded (← a.toReal) (← b.toReal))

def add : Number → Number → Except Fault Number := combine (· + ·) Binary64.add
def sub : Number → Number → Except Fault Number := combine (· - ·) Binary64.sub
def mul : Number → Number → Except Fault Number := combine (· * ·) Binary64.mul

/-- The quotient of two integers is rounded once from the exact value. -/
def div : Number → Number → Except Fault Binary64
  | int m, int n =>
      if n = 0 then .error .zeroDivisor else inRange (Binary64.ofRatio m n).finite?
  | a, b => do
      let y ← b.toReal
      if y.isZero then throw .zeroDivisor
      return (← a.toReal) / y

def neg : Number → Number
  | int n => int (-n)
  | real x => real (-x)

/-- Compares an integer with a double exactly. -/
def intVersusReal (n : Int) : Binary64 → Option Ordering
  | .nan => none
  | .infinite negative => some (if negative then .gt else .lt)
  | .finite negative steps =>
      some (compare (n * Binary64.stepsPerUnit) (Binary64.signedSteps negative steps))

def lt : Number → Number → Bool
  | int m, int n => decide (m < n)
  | int m, real y => intVersusReal m y == some .lt
  | real x, int n => intVersusReal n x == some .gt
  | real x, real y => x.lt y

def equal : Number → Number → Bool
  | int m, int n => decide (m = n)
  | int m, real y => intVersusReal m y == some .eq
  | real x, int n => intVersusReal n x == some .eq
  | real x, real y => x.equal y

/-- The smaller of two numbers, the first one where neither is below the other. -/
def min (a b : Number) : Number := if b.lt a then b else a

/-- The larger of two numbers, the first one where neither is above the other. -/
def max (a b : Number) : Number := if a.lt b then b else a

def sum (xs : List Number) : Except Fault Number := xs.foldlM add 0

/-- The exact value of a number, if it is finite. -/
def value? : Number → Option Rat
  | .int n => some n
  | .real (.finite negative steps) =>
      some (Binary64.signedSteps negative steps / Binary64.stepsPerUnit)
  | .real _ => none

def integerPart (part : Binary64 → Except Binary64.NotFinite Int) :
    Number → Except Fault Int
  | int n => .ok n
  | real x =>
      match part x with
      | .ok n => .ok n
      | .error .notANumber => .error .integerOfNotANumber
      | .error .unbounded => .error .outOfRange

def truncate : Number → Except Fault Int := integerPart Binary64.truncate

def floor : Number → Except Fault Int := integerPart Binary64.floor

/-- Rounds a double to some places; an integer needs no rounding. -/
def roundTo (places : Nat) : Number → Number
  | int n => int n
  | real x => real (x.roundTo places)

def text : Number → String
  | int n => toString n
  | real x => x.text

def isZero : Number → Bool
  | int n => n == 0
  | real x => x.isZero

end Number

end Rostering
