import Rostering.Value.Basic

namespace Rostering.Value

open Text

/-! JSON text of loose values. The reader also takes the three words for numbers that are not
finite; of a name given twice the last value counts, at the place of the first. -/

namespace Json

def isSpace (c : Char) : Bool := c == ' ' || c == '\t' || c == '\n' || c == '\r'

def skip (cs : List Char) : List Char := cs.dropWhile isSpace

def isDigit (c : Char) : Bool := (asciiDigit? c).isSome

def hexValue? (c : Char) : Option Nat :=
  if '0' ≤ c ∧ c ≤ '9' then some (c.toNat - '0'.toNat)
  else if 'a' ≤ c ∧ c ≤ 'f' then some (c.toNat - 'a'.toNat + 10)
  else if 'A' ≤ c ∧ c ≤ 'F' then some (c.toNat - 'A'.toNat + 10)
  else none

def hexNumber? (cs : List Char) : Option Nat :=
  (cs.mapM hexValue?).map fun digits => digits.foldl (fun n d => 16 * n + d) 0

/-- The character of a single unit; half of a pair stands for an unknown character. -/
def unitChar (unit : Nat) : Char :=
  if 0xd800 ≤ unit ∧ unit ≤ 0xdfff then '\uFFFD' else Char.ofNat unit

/-- The character of two units, if they are the halves of a pair. -/
def pairChar? (high low : Nat) : Option Char :=
  if 0xd800 ≤ high ∧ high < 0xdc00 ∧ 0xdc00 ≤ low ∧ low < 0xe000 then
    some (Char.ofNat (0x10000 + (high - 0xd800) * 0x400 + (low - 0xdc00)))
  else none

def escaped? : Char → Option Char
  | '"' => some '"'
  | '\\' => some '\\'
  | '/' => some '/'
  | 'b' => some '\x08'
  | 'f' => some '\x0c'
  | 'n' => some '\n'
  | 'r' => some '\r'
  | 't' => some '\t'
  | _ => none

/-- Reads a text after its opening mark; `before` holds what was read, last first. -/
def readText (before : List Char) : List Char → Option (String × List Char)
  | [] => none
  | '"' :: rest => some (String.ofList before.reverse, rest)
  | '\\' :: 'u' :: a :: b :: c :: d :: '\\' :: 'u' :: e :: f :: g :: h :: rest =>
      match hexNumber? [a, b, c, d] with
      | none => none
      | some high =>
          match (hexNumber? [e, f, g, h]).bind (pairChar? high) with
          | some char => readText (char :: before) rest
          | none => readText (unitChar high :: before) ('\\' :: 'u' :: e :: f :: g :: h :: rest)
  | '\\' :: 'u' :: a :: b :: c :: d :: rest =>
      match hexNumber? [a, b, c, d] with
      | none => none
      | some unit => readText (unitChar unit :: before) rest
  | '\\' :: c :: rest =>
      match escaped? c with
      | none => none
      | some char => readText (char :: before) rest
  | c :: rest => if c.toNat < 0x20 then none else readText (c :: before) rest

/-- Takes a point and the digits after it, or nothing. -/
def takePlaces : List Char → List Char × List Char
  | '.' :: rest =>
      match rest.takeWhile isDigit with
      | [] => ([], '.' :: rest)
      | digits => ('.' :: digits, rest.dropWhile isDigit)
  | cs => ([], cs)

/-- Takes an exponent, or nothing. -/
def takeExponent (cs : List Char) : List Char × List Char :=
  let after (head rest : List Char) : List Char × List Char :=
    match rest.takeWhile isDigit with
    | [] => ([], cs)
    | digits => (head ++ digits, rest.dropWhile isDigit)
  match cs with
  | e :: '-' :: rest => if e == 'e' || e == 'E' then after [e, '-'] rest else ([], cs)
  | e :: '+' :: rest => if e == 'e' || e == 'E' then after [e, '+'] rest else ([], cs)
  | e :: rest => if e == 'e' || e == 'E' then after [e] rest else ([], cs)
  | [] => ([], [])

/-- Takes the whole part: a zero alone, or digits that do not start with one. -/
def takeWhole : List Char → List Char × List Char
  | '0' :: rest => (['0'], rest)
  | cs => (cs.takeWhile isDigit, cs.dropWhile isDigit)

def readNumber (cs : List Char) : Option (Value × List Char) :=
  let (negative, unsigned) :=
    match cs with
    | '-' :: rest => (true, rest)
    | _ => (false, cs)
  let (whole, rest) := takeWhole unsigned
  let (places, rest) := takePlaces rest
  let (exponent, rest) := takeExponent rest
  if whole.isEmpty then none
  else if places.isEmpty && exponent.isEmpty then
    (asciiNumber? whole).map fun n =>
      (.number (.int (if negative then -(n : Int) else n)), rest)
  else
    (unsignedReal? negative (whole ++ places ++ exponent)).map fun x => (.number (.real x), rest)

def words : List (List Char × Value) :=
  [("null".toList, .null), ("true".toList, .bool true), ("false".toList, .bool false),
    ("NaN".toList, .number (.real .nan)),
    ("Infinity".toList, .number (.real (.infinite false))),
    ("-Infinity".toList, .number (.real (.infinite true)))]

def readWord (cs : List Char) : Option (Value × List Char) :=
  words.findSome? fun (word, value) =>
    if word.isPrefixOf cs then some (value, cs.drop word.length) else none

mutual

def readValue : Nat → List Char → Option (Value × List Char)
  | 0, _ => none
  | fuel + 1, cs =>
      match cs with
      | '"' :: rest => (readText [] rest).map fun (s, rest) => (.text s, rest)
      | '[' :: rest =>
          match skip rest with
          | ']' :: rest => some (.list [], rest)
          | rest => (readItems fuel [] rest).map fun (items, rest) => (.list items, rest)
      | '{' :: rest =>
          match skip rest with
          | '}' :: rest => some (.record [], rest)
          | rest =>
              (readPairs fuel [] rest).map fun (pairs, rest) =>
                (.record (Fields.ofPairs pairs), rest)
      | cs =>
          match readWord cs with
          | some result => some result
          | none => readNumber cs

def readItems : Nat → List Value → List Char → Option (List Value × List Char)
  | 0, _, _ => none
  | fuel + 1, before, cs =>
      match readValue fuel cs with
      | none => none
      | some (value, rest) =>
          match skip rest with
          | ',' :: rest => readItems fuel (value :: before) (skip rest)
          | ']' :: rest => some ((value :: before).reverse, rest)
          | _ => none

def readPairs : Nat → List (String × Value) → List Char →
    Option (List (String × Value) × List Char)
  | 0, _, _ => none
  | fuel + 1, before, cs =>
      match cs with
      | '"' :: rest =>
          match readText [] rest with
          | none => none
          | some (name, rest) =>
              match skip rest with
              | ':' :: rest =>
                  match readValue fuel (skip rest) with
                  | none => none
                  | some (value, rest) =>
                      match skip rest with
                      | ',' :: rest => readPairs fuel ((name, value) :: before) (skip rest)
                      | '}' :: rest => some (((name, value) :: before).reverse, rest)
                      | _ => none
              | _ => none
      | _ => none

end

def escape (c : Char) : List Char :=
  if c = '"' ∨ c = '\\' then ['\\', c]
  else if c.toNat < 0x20 ∨ c.toNat = 0x7f then '\\' :: 'u' :: hexDigits 4 c.toNat
  else [c]

def writeText (s : String) : String :=
  String.ofList ('"' :: s.toList.flatMap escape ++ ['"'])

def writeNumber : Number → String
  | .int n => toString n
  | .real .nan => "NaN"
  | .real (.infinite negative) => if negative then "-Infinity" else "Infinity"
  | .real x => x.text

mutual

def write : Value → String
  | null => "null"
  | bool true => "true"
  | bool false => "false"
  | number n => writeNumber n
  | text s => writeText s
  | day d => writeText d.isoText
  | moment m => writeText m.isoText
  | list items => "[" ++ ",".intercalate (writeItems items) ++ "]"
  | record fields => "\x7b" ++ ",".intercalate (writePairs fields) ++ "\x7d"

def writeItems : List Value → List String
  | [] => []
  | v :: rest => write v :: writeItems rest

def writePairs : List (String × Value) → List String
  | [] => []
  | (name, v) :: rest => (writeText name ++ ":" ++ write v) :: writePairs rest

end

end Json

def ofJson (s : String) : Except Fault Value :=
  let cs := s.toList
  match Json.readValue (2 * cs.length + 2) (Json.skip cs) with
  | some (value, rest) =>
      if (Json.skip rest).isEmpty then .ok value else .error .malformedJson
  | none => .error .malformedJson

def toJson (v : Value) : String := Json.write v

end Rostering.Value
