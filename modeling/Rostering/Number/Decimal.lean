import Rostering.Number.Binary64

namespace Rostering

/-! Decimal forms of double-precision numbers: the fewest digits that read back, and a fixed
number of places. -/

/-- A whole number of tenths to a power: `digits * 10 ^ exponent`. -/
structure Decimal where
  digits : Nat
  exponent : Int
  deriving DecidableEq, Repr

namespace Decimal

def fraction (d : Decimal) : Nat × Nat :=
  (d.digits * Nat.pow 10 d.exponent.toNat, Nat.pow 10 (-d.exponent).toNat)

/-- The nearest double. Exponents far outside the range are settled without the power. -/
def toBinary64 (negative : Bool) (d : Decimal) : Binary64 :=
  let width : Int := (Nat.toDigits 10 d.digits).length
  if d.digits = 0 then .finite negative 0
  else if 400 < d.exponent + width then .infinite negative
  else if d.exponent + width < -400 then .finite negative 0
  else .ofQuotient negative d.fraction.1 d.fraction.2

/-- Drops zeros at the end of the digits, at most `fuel` of them. -/
def normalizeWithin : Nat → Decimal → Decimal
  | 0, d => d
  | fuel + 1, d =>
      if d.digits ≠ 0 ∧ d.digits % 10 = 0 then
        normalizeWithin fuel ⟨d.digits / 10, d.exponent + 1⟩
      else d

def normalize (d : Decimal) : Decimal :=
  d.normalizeWithin (Nat.toDigits 10 d.digits).length

end Decimal

namespace Binary64

/-- The quotient of a count of steps by `10 ^ exponent`, as a fraction. -/
def scaled (steps : Nat) (exponent : Int) : Nat × Nat :=
  (steps * Nat.pow 10 (-exponent).toNat, stepsPerUnit * Nat.pow 10 exponent.toNat)

/-- Raises an exponent while ten to it is not above the value. -/
def magnitudeFrom (steps : Nat) : Nat → Int → Int
  | 0, k => k
  | fuel + 1, k =>
      let (num, den) := scaled steps k
      if den ≤ num then magnitudeFrom steps fuel (k + 1) else k

/-- The least power of ten above the value. The start is below it, at most a step or two. -/
def magnitude (steps : Nat) : Int :=
  magnitudeFrom steps 8 (((Nat.log2 steps : Int) - 1074) * 30103 / 100000 - 1)

/-- The decimals with `count` digits next to the value that read back, the nearer one first. -/
def candidate? (steps : Nat) (exponent : Int) : Option Decimal :=
  let (num, den) := scaled steps exponent
  let below : Decimal := ⟨num / den, exponent⟩
  let above : Decimal := ⟨num / den + 1, exponent⟩
  let rest := 2 * (num % den)
  let aboveFirst := den < rest ∨ (den = rest ∧ num / den % 2 = 1)
  let ordered := if aboveFirst then [above, below] else [below, above]
  ordered.find? fun d => d.toBinary64 false == .finite false steps

/-- The decimal with the fewest digits that reads back as this count of steps. -/
def shortest (steps : Nat) : Decimal :=
  let k := magnitude steps
  match (List.range 17).findSome? fun (n : Nat) => candidate? steps (k - (n + 1)) with
  | some d => d.normalize
  | none => ⟨steps, 0⟩

/-- The nearest decimal with `count` digits; a tie goes to the even neighbour. -/
def significant (count steps : Nat) : Decimal :=
  if steps = 0 then ⟨0, 0⟩
  else
    let exponent := magnitude steps - count
    let (num, den) := scaled steps exponent
    Decimal.normalize ⟨roundQuotient num den, exponent⟩

/-- How a number is laid out: positional for a point within these bounds, else with an exponent
of at least two digits. -/
structure Layout where
  lowestPoint : Int
  highestPoint : Int

def layout : Layout := ⟨-3, 16⟩

def signText (negative : Bool) : String := if negative then "-" else ""

def zeros (n : Nat) : String := String.ofList (List.replicate n '0')

/-- The exponent with its sign and at least two digits. -/
def exponentText (e : Int) : String :=
  let digits := toString e.natAbs
  (if e < 0 then "-" else "+") ++ (if digits.length < 2 then "0" ++ digits else digits)

/-- Lays out digits with the point after the first `point` of them. -/
def placePoint (digits : String) (point : Int) : String :=
  let width : Int := digits.length
  if point ≤ 0 then "0." ++ zeros (-point).toNat ++ digits
  else if width ≤ point then digits ++ zeros (point - width).toNat ++ ".0"
  else
    let cs := digits.toList
    String.ofList (cs.take point.toNat) ++ "." ++ String.ofList (cs.drop point.toNat)

def decimalText (d : Decimal) : String :=
  let digits := toString d.digits
  let point : Int := d.exponent + digits.length
  if layout.lowestPoint ≤ point ∧ point ≤ layout.highestPoint then placePoint digits point
  else
    let tail := String.ofList (digits.toList.drop 1)
    String.ofList (digits.toList.take 1) ++ (if tail.isEmpty then "" else "." ++ tail) ++
      "e" ++ exponentText (point - 1)

/-- The shortest text that reads back. -/
def text : Binary64 → String
  | nan => "nan"
  | infinite negative => signText negative ++ "inf"
  | finite negative 0 => signText negative ++ "0.0"
  | finite negative steps => signText negative ++ decimalText (shortest steps)

/-- The nearest decimal with this many places; a tie goes to the even neighbour. -/
def nearestDecimal (steps places : Nat) : Decimal :=
  ⟨roundQuotient (steps * Nat.pow 10 places) stepsPerUnit, -(places : Int)⟩

def fixedText (places : Nat) : Binary64 → String
  | nan => "nan"
  | infinite negative => signText negative ++ "inf"
  | finite negative steps =>
      let digits := toString (nearestDecimal steps places).digits
      let padded := zeros (places + 1 - digits.length) ++ digits
      signText negative ++ placePoint padded ((padded.length : Int) - places)

/-- The double nearest to the value rounded to this many places. -/
def roundTo (places : Nat) : Binary64 → Binary64
  | finite negative steps => (nearestDecimal steps places).toBinary64 negative
  | x => x

end Binary64

end Rostering
