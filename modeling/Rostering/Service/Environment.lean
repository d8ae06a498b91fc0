import Rostering.Text.Blank

namespace Rostering

open Text

/-! Environment variables, and the files that state more of them: a line for each, with a name, an
equality sign and a value that may stand between quotes. -/

abbrev Environment := List (String × String)

namespace Environment

def get? (environment : Environment) (name : String) : Option String := environment.lookup name

/-- The value of a variable without the blanks around it, if that leaves anything. -/
def setting? (environment : Environment) (name : String) : Option String :=
  ((environment.get? name).map trim).filter (!·.isEmpty)

def lines : List Char → List (List Char)
  | [] => [[]]
  | '\r' :: '\n' :: rest => [] :: lines rest
  | c :: rest =>
      if c = '\n' ∨ c = '\r' then [] :: lines rest
      else
        match lines rest with
        | [] => [[c]]
        | line :: others => (c :: line) :: others

def commentMark : Char := '#'

/-- Whether nothing follows on a line but blanks or a comment. -/
def endsHere (cs : List Char) : Bool :=
  match trimStart cs with
  | [] => true
  | c :: _ => c == commentMark

/-- What stands before the closing quote, and what follows it. An escaped quote closes only where
no other one does. -/
def untilQuote? (mark : Char) : List Char → Option (List Char × List Char)
  | [] => none
  | '\\' :: next :: rest =>
      if next = mark then
        match untilQuote? mark rest with
        | some (content, after) => some ('\\' :: mark :: content, after)
        | none => some (['\\'], rest)
      else (untilQuote? mark (next :: rest)).map fun (content, after) => ('\\' :: content, after)
  | c :: rest =>
      if c = mark then some ([], rest)
      else (untilQuote? mark rest).map fun (content, after) => (c :: content, after)

/-- What an escaped character stands for between quotes of a kind. -/
def escaped? (mark c : Char) : Option Char :=
  if c = '\\' ∨ c = '\'' then some c
  else if mark = '\'' then none
  else
    match c with
    | '"' => some '"'
    | 'a' => some '\x07'
    | 'b' => some '\x08'
    | 'f' => some '\x0c'
    | 'n' => some '\n'
    | 'r' => some '\r'
    | 't' => some '\t'
    | 'v' => some '\x0b'
    | _ => none

/-- Puts characters in place of what escapes them. -/
def unescape (mark : Char) : List Char → List Char
  | '\\' :: c :: rest =>
      match escaped? mark c with
      | some char => char :: unescape mark rest
      | none => '\\' :: c :: unescape mark rest
  | c :: rest => c :: unescape mark rest
  | [] => []

/-- A value without quotes: up to a comment that follows a blank. -/
def plainValue (before : List Char) : List Char → List Char
  | [] => before.reverse
  | c :: rest =>
      if isBlank c ∧ (trimStart rest).head? = some commentMark then before.reverse
      else plainValue (c :: before) rest

def value? (cs : List Char) : Option String :=
  match cs with
  | mark :: rest =>
      if mark = '\'' ∨ mark = '"' then
        match untilQuote? mark rest with
        | some (content, after) =>
            if endsHere after then some (String.ofList (unescape mark content)) else none
        | none => none
      else some (String.ofList (trimEnd (plainValue [] cs)))
  | [] => some ""

def withoutExport (cs : List Char) : List Char :=
  let word := "export".toList
  match cs.drop word.length with
  | c :: rest => if word.isPrefixOf cs && isBlank c then trimStart rest else cs
  | [] => cs

def ofLine? (cs : List Char) : Option (String × String) :=
  let cs := withoutExport (trimStart cs)
  let inName (c : Char) : Bool := c != '=' && c != commentMark && !isBlank c
  match cs.takeWhile inName, trimStart (cs.dropWhile inName) with
  | c :: name, '=' :: rest =>
      (value? (trimStart rest)).map fun value => (String.ofList (c :: name), value)
  | _, _ => none

def ofText (text : String) : Environment := (lines text.toList).filterMap ofLine?

/-- Adds stated variables. One that is set stays as it is; of a name stated twice the last value
counts. -/
def extend (environment stated : Environment) : Environment := environment ++ stated.reverse

end Environment

end Rostering
