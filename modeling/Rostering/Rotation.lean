import Rostering.Override
import Rostering.Rota.Shift

namespace Rostering

/-! The shifts of a rotation before anybody is placed: their dates, and what overrides make of
them. -/

/-- The dates of some shifts, one every so many days from a start. When the last of them is a
day of the calendar, so are all. -/
def shiftDates (start : Day) (count : Int) (intervalDays : Int := 7) :
    Except Fault (List Day) := do
  if count < 0 then throw (.shiftCount count)
  if 0 < count then
    let _ ← start.plus ((count - 1) * intervalDays)
  (List.range count.toNat).mapM fun (i : Nat) => start.plus (i * intervalDays)

namespace Rotation

/-- What the overrides that hit a day make of its shift. -/
structure Plan where
  size : Int
  preallocated : List String := []
  closed : Bool := false

def addNew (people more : List String) : List String :=
  more.foldl (fun people p => if people.contains p then people else people ++ [p]) people

/-- A later override wins for the size; people add up, and once closed is closed. -/
def Plan.apply (plan : Plan) (o : Override) : Plan where
  size := o.size.getD plan.size
  preallocated := addNew plan.preallocated o.preallocated
  closed := plan.closed || o.closed

/-- The size is raised to the people fixed beforehand; a closed shift has neither. -/
def Plan.shift (plan : Plan) (day : Day) (index : Int) : Shift :=
  if plan.closed then { day, index, size := 0 }
  else
    { day, index
      size := max plan.size plan.preallocated.length
      preallocated := plan.preallocated }

/-- An override with the days that it hits. -/
abbrev Hits := Override × List Day

def planOf (defaultSize : Int) (hits : List Hits) (day : Day) : Plan :=
  (hits.filter fun hit => hit.2.contains day).foldl (fun plan hit => plan.apply hit.1)
    { size := defaultSize }

/-- The hits of overrides over a rotation, from its first date in the list to its last. -/
def hitsOf (dates : List Day) (overrides : List Override) : Except Fault (List Hits) :=
  match dates.head?, dates.getLast? with
  | some first, some last => overrides.mapM fun o => return (o, ← o.occurrences first last)
  | _, _ => .ok []

end Rotation

open Rotation in
def buildShifts (dates : List Day) (defaultSize : Int) (overrides : List Override := []) :
    Except Fault (List Shift) := do
  if defaultSize < 0 then throw (.defaultSize defaultSize)
  let hits ← hitsOf dates overrides
  return dates.zipIdx.map fun (day, i) => (planOf defaultSize hits day).shift day i

end Rostering
