namespace Rostering

/-! Double-precision numbers in exact arithmetic. A finite number is a whole count of the
smallest step 2^-1074, so sums, products and comparisons are computed on integers and every
operation rounds its exact result once. -/

inductive Binary64 where
  | nan
  | infinite (negative : Bool)
  | finite (negative : Bool) (steps : Nat)
  deriving DecidableEq, Repr, Inhabited

namespace Binary64

/-- How many smallest steps make one. -/
def stepsPerUnit : Nat := Nat.pow 2 1074

/-- The first count of steps that is too large for a finite number. -/
def overflowSteps : Nat := Nat.pow 2 2098

/-- The nearest whole number to a quotient; a tie goes to the even neighbour. -/
def roundQuotient (num den : Nat) : Nat :=
  let q := num / den
  let twice := 2 * (num % den)
  if twice < den then q
  else if den < twice then q + 1
  else q + q % 2

/-- The bits a count of steps has beyond the 53 that a number keeps. -/
def excessBits (steps : Nat) : Nat := Nat.log2 steps - 52

/-- The nearest count of steps that a number can hold. -/
def roundSteps (num den : Nat) : Nat :=
  let coarse := Nat.pow 2 (excessBits (num / den))
  roundQuotient num (den * coarse) * coarse

/-- The number nearest to `num / den` steps. -/
def ofSteps (negative : Bool) (num den : Nat) : Binary64 :=
  let steps := roundSteps num den
  if steps < overflowSteps then .finite negative steps else .infinite negative

def ofQuotient (negative : Bool) (num den : Nat) : Binary64 :=
  ofSteps negative (num * stepsPerUnit) den

def zero : Binary64 := .finite false 0

def ofInt (n : Int) : Binary64 :=
  ofQuotient (decide (n < 0)) n.natAbs 1

/-- The number itself, unless it is not finite. -/
def finite? : Binary64 → Option Binary64
  | finite negative steps => some (finite negative steps)
  | _ => none

/-- Nothing when the integer is too large for a finite number. -/
def ofInt? (n : Int) : Option Binary64 := (ofInt n).finite?

def one : Binary64 := ofInt 1

/-- The quotient of two integers, rounded once. -/
def ofRatio (num den : Int) : Binary64 :=
  ofQuotient (decide (num < 0) != decide (den < 0)) num.natAbs den.natAbs

def signedSteps (negative : Bool) (steps : Nat) : Int :=
  if negative then -(steps : Int) else steps

def isNegative : Binary64 → Bool
  | nan => false
  | infinite negative => negative
  | finite negative _ => negative

def isZero : Binary64 → Bool
  | finite _ 0 => true
  | _ => false

def neg : Binary64 → Binary64
  | nan => nan
  | infinite negative => infinite !negative
  | finite negative steps => finite (!negative) steps

def add : Binary64 → Binary64 → Binary64
  | nan, _ => nan
  | _, nan => nan
  | infinite m, infinite n => if m == n then infinite m else nan
  | infinite m, finite .. => infinite m
  | finite .., infinite n => infinite n
  | finite m a, finite n b =>
      let sum := signedSteps m a + signedSteps n b
      if sum = 0 then finite (m && n) 0
      else ofSteps (decide (sum < 0)) sum.natAbs 1

def sub (x y : Binary64) : Binary64 := x.add y.neg

def mul : Binary64 → Binary64 → Binary64
  | nan, _ => nan
  | _, nan => nan
  | infinite m, infinite n => infinite (m != n)
  | infinite m, finite n b => if b = 0 then nan else infinite (m != n)
  | finite m a, infinite n => if a = 0 then nan else infinite (m != n)
  | finite m a, finite n b => ofSteps (m != n) (a * b) stepsPerUnit

def div : Binary64 → Binary64 → Binary64
  | nan, _ => nan
  | _, nan => nan
  | infinite _, infinite _ => nan
  | infinite m, finite n _ => infinite (m != n)
  | finite m _, infinite n => finite (m != n) 0
  | finite m a, finite n b =>
      if b = 0 then if a = 0 then nan else infinite (m != n)
      else ofSteps (m != n) (a * stepsPerUnit) b

/-- Below in value; a number that is no number is not comparable. -/
def lt : Binary64 → Binary64 → Bool
  | nan, _ => false
  | _, nan => false
  | infinite m, infinite n => m && !n
  | infinite m, finite .. => m
  | finite .., infinite n => !n
  | finite m a, finite n b => decide (signedSteps m a < signedSteps n b)

/-- Equal in value: both zeros are equal and a number that is no number equals nothing. -/
def equal : Binary64 → Binary64 → Bool
  | finite m a, finite n b => decide (signedSteps m a = signedSteps n b)
  | infinite m, infinite n => m == n
  | _, _ => false

def le (x y : Binary64) : Bool := x.lt y || x.equal y

instance : Neg Binary64 := ⟨neg⟩
instance : Add Binary64 := ⟨add⟩
instance : Sub Binary64 := ⟨sub⟩
instance : Mul Binary64 := ⟨mul⟩
instance : Div Binary64 := ⟨div⟩

inductive NotFinite where
  | notANumber
  | unbounded
  deriving DecidableEq, Repr

def truncate : Binary64 → Except NotFinite Int
  | nan => .error .notANumber
  | infinite _ => .error .unbounded
  | finite negative steps => .ok (Int.tdiv (signedSteps negative steps) stepsPerUnit)

def floor : Binary64 → Except NotFinite Int
  | nan => .error .notANumber
  | infinite _ => .error .unbounded
  | finite negative steps => .ok (Int.fdiv (signedSteps negative steps) stepsPerUnit)

theorem stepsPerUnit_pos : 0 < stepsPerUnit := by decide +kernel

theorem one_eq : one = finite false stepsPerUnit := by decide +kernel

theorem lt_irrefl (x : Binary64) : x.lt x = false := by
  cases x <;> simp [lt]

end Binary64

end Rostering
