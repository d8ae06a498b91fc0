import Rostering.Service.Path
import Rostering.Table.Sheet

namespace Rostering

/-! The files that the service reads, by their paths. -/

inductive Stored where
  | text (content : String)
  /-- Bytes that are no text. -/
  | bytes
  | workbook (workbook : Workbook)
  | directory

abbrev Files := List (Path × Stored)

namespace Files

def at? (files : Files) (p : Path) : Option Stored :=
  (files.find? fun entry => entry.1 == p).map (·.2)

/-- The parts of a path after its pairs of dots were followed, last first. There must be a
directory that each pair leads out of. -/
def follow? (files : Files) (isAbsolute : Bool) : List String → List String → Option (List String)
  | before, [] => some before
  | before, part :: rest =>
      if part == ".." then
        match files.at? ⟨isAbsolute, before.reverse⟩ with
        | some .directory => follow? files isAbsolute (before.drop 1) rest
        | _ => none
      else follow? files isAbsolute (part :: before) rest

def find? (files : Files) (p : Path) : Option Stored :=
  (files.follow? p.isAbsolute [] p.parts).bind fun parts =>
    files.at? ⟨p.isAbsolute, parts.reverse⟩

def has (files : Files) (p : Path) : Bool := (files.find? p).isSome

def read (files : Files) (p : Path) : Except Fault String :=
  match files.find? p with
  | none => .error (.missingFile p.text)
  | some (.text content) => .ok content
  | some .bytes | some (.workbook _) => .error .malformedUtf8
  | some .directory => .error .isDirectory

/-- The endings that workbooks may have. -/
def workbookEndings : List String := [".xlsx", ".xlsm", ".xltx", ".xltm"]

def workbook (files : Files) (p : Path) : Except Fault Workbook :=
  match files.find? p with
  | none => .error (.missingFile p.text)
  | some stored =>
      if !workbookEndings.contains (Text.lower p.ending) then .error .notAWorkbook
      else
        match stored with
        | .workbook workbook => .ok workbook
        | .directory => .error .isDirectory
        | .text _ | .bytes => .error .brokenWorkbook

end Files

end Rostering
