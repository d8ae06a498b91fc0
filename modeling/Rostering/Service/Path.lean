import Rostering.Fault
import Rostering.Text.Blank
import Rostering.Text.Case

namespace Rostering

open Text

/-! Paths of files, by their parts. -/

structure Path where
  isAbsolute : Bool
  parts : List String
  deriving DecidableEq, Repr

namespace Path

/-- Reads a path; empty parts and single dots count for nothing. -/
def ofText (s : String) : Path where
  isAbsolute := s.toList.head? == some '/'
  parts := ((splitOnChar '/' s.toList).map String.ofList).filter fun part =>
    part != "" && part != "."

def text (p : Path) : String :=
  let joined := "/".intercalate p.parts
  if p.isAbsolute then "/" ++ joined else if joined.isEmpty then "." else joined

/-- The path of something within a directory. -/
def join (p : Path) (name : String) : Path :=
  let q := ofText name
  if q.isAbsolute then q else { p with parts := p.parts ++ q.parts }

def name (p : Path) : String := p.parts.getLastD ""

def homeMark : Char := '~'

/-- Puts a home directory in place of the mark for it at the start. -/
def expandHome (home : Option String) (p : Path) : Except Fault Path :=
  match p.isAbsolute, p.parts with
  | false, first :: rest =>
      if first.toList.head? != some homeMark then .ok p
      else
        match first.toList, home with
        | [_], some home =>
            let start := ofText home
            .ok { start with parts := start.parts ++ rest }
        | _, _ => .error .noHome
  | _, _ => .ok p

/-- Takes a part off for every pair of dots after it. -/
def collapse (parts : List String) : List String :=
  (parts.foldl (fun before part => if part == ".." then before.drop 1 else part :: before)
    []).reverse

/-- The absolute path, seen from a directory, without pairs of dots. -/
def resolve (base p : Path) : Path where
  isAbsolute := true
  parts := collapse (if p.isAbsolute then p.parts else base.parts ++ p.parts)

/-- The name's ending from its last dot on, unless that dot starts or ends the name. -/
def ending (p : Path) : String :=
  match (splitOnChar '.' p.name.toList).reverse with
  | [] | [_] | [_, []] | [] :: _ => ""
  | last :: _ => String.ofList ('.' :: last)

def isWorkbook (p : Path) : Bool := lower p.ending == ".xlsx"

end Path

end Rostering
