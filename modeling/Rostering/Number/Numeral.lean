import Rostering.Number.Decimal
import Rostering.Text.Blank
import Rostering.Text.Case
import Rostering.Text.Digit

namespace Rostering

open Text

/-! Numbers written as text: digits of any script, single underscores between digits, and
blanks around the whole. -/

/-- Removes single underscores that stand between digits; nothing if one stands elsewhere. -/
def joinDigitGroups : Option Char → List Char → Option (List Char)
  | _, [] => some []
  | before, '_' :: rest =>
      match before.bind digitValue?, rest.head?.bind digitValue? with
      | some _, some _ => joinDigitGroups none rest
      | _, _ => none
  | _, c :: rest => (joinDigitGroups (some c) rest).map (c :: ·)

def digitValues? (cs : List Char) : Option (List Nat) :=
  if cs = [] then none else cs.mapM digitValue?

def takeSign : List Char → Bool × List Char
  | '-' :: rest => (true, rest)
  | '+' :: rest => (false, rest)
  | cs => (false, cs)

def naturalOfChars? (cs : List Char) : Option Nat :=
  (digitValues? cs).map ofDigits

def integerOfChars? (cs : List Char) : Option Int :=
  match takeSign cs with
  | (true, rest) => (naturalOfChars? rest).map fun n => -(n : Int)
  | (false, rest) => (naturalOfChars? rest).map Int.ofNat

def integerOfText? (s : String) : Option Int :=
  (joinDigitGroups none (trimList s.toList)).bind integerOfChars?

/-- Splits at the first character that satisfies a test and drops that character. -/
def splitAtFirst (test : Char → Bool) (cs : List Char) : List Char × Option (List Char) :=
  match cs.dropWhile (fun c => !test c) with
  | [] => (cs, none)
  | _ :: rest => (cs.takeWhile (fun c => !test c), some rest)

/-- Digits with at most one point: the digits' value and the number of places. -/
def mantissa? (cs : List Char) : Option (Nat × Nat) :=
  match splitAtFirst (· == '.') cs with
  | (whole, none) => (naturalOfChars? whole).map fun n => (n, 0)
  | (whole, some places) =>
      (naturalOfChars? (whole ++ places)).map fun n => (n, places.length)

/-- A number without sign: digits, a point and an exponent, or one of the words. -/
def unsignedReal? (negative : Bool) (cs : List Char) : Option Binary64 :=
  let word := lower (String.ofList cs)
  if word == "inf" || word == "infinity" then some (.infinite negative)
  else if word == "nan" then some .nan
  else
    match splitAtFirst (fun c => c == 'e' || c == 'E') cs with
    | (digits, none) =>
        (mantissa? digits).map fun (n, places) => Decimal.toBinary64 negative ⟨n, -places⟩
    | (digits, some exponent) => do
        let (n, places) ← mantissa? digits
        let e ← integerOfChars? exponent
        some (Decimal.toBinary64 negative ⟨n, e - places⟩)

def realOfChars? (cs : List Char) : Option Binary64 :=
  let (negative, rest) := takeSign cs
  unsignedReal? negative rest

def realOfText? (s : String) : Option Binary64 :=
  (joinDigitGroups none (trimList s.toList)).bind realOfChars?

end Rostering
