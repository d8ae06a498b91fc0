import Rostering.Calendar.Stamp

namespace Rostering

/-! Sequences of hits that are looked at one after the other, as far as they are wanted. They end,
or break off with a fault. -/

inductive Timeline (α : Type) where
  | ended
  | broken (cause : Fault)
  | hit (time : α) (later : Unit → Timeline α)

namespace Timeline

variable {α β : Type}

def ofList : List α → Timeline α
  | [] => ended
  | t :: rest => hit t fun _ => ofList rest

def ofResult : Except Fault (List α) → Timeline α
  | .ok times => ofList times
  | .error cause => broken cause

def map (f : α → β) : Timeline α → Timeline β
  | ended => ended
  | broken cause => broken cause
  | hit t later => hit (f t) fun _ => (later ()).map f

/-- Puts a hit at its place in a timeline, with `rest` for what follows it. -/
def place (t : Point) (rest : Timeline Point → Timeline Point) : Timeline Point → Timeline Point
  | ended => hit t fun _ => rest ended
  | broken cause => broken cause
  | hit s later =>
      match s.lt t with
      | .error cause => broken cause
      | .ok true => hit s fun _ => place t rest (later ())
      | .ok false => hit t fun _ => rest (hit s later)

/-- The hits of two timelines in the order of time. What breaks either breaks both. -/
def merge : Timeline Point → Timeline Point → Timeline Point
  | ended, other => other
  | broken cause, _ => broken cause
  | hit t later, other => place t (fun other => (later ()).merge other) other

def mergeAll (timelines : List (Timeline Point)) : Timeline Point := timelines.foldr merge ended

/-- Whether a timeline has a point, and what it has from there on. -/
def reach (t : Point) : Timeline Point → Except Fault (Bool × Timeline Point)
  | ended => .ok (false, ended)
  | broken cause => .error cause
  | hit s later =>
      match s.lt t with
      | .error cause => .error cause
      | .ok true => reach t (later ())
      | .ok false => (fun after => (!after, hit s later)) <$> t.lt s

/-- The hits of one timeline that another does not have. -/
def exclude : Timeline Point → Timeline Point → Timeline Point
  | broken cause, _ => broken cause
  | ended, broken cause => broken cause
  | ended, _ => ended
  | hit t later, others =>
      match others.reach t with
      | .error cause => broken cause
      | .ok (true, others) => (later ()).exclude others
      | .ok (false, others) => hit t fun _ => (later ()).exclude others

/-- The hits by no particular clock from a first reading to a last one, after those in `before`,
which holds the last first. -/
def within (first last : Int) : List Int → Timeline Point → Except Fault (List Int)
  | before, ended => .ok before.reverse
  | _, broken cause => .error cause
  | before, hit t later =>
      match Point.lt ⟨last, none⟩ t with
      | .error cause => .error cause
      | .ok true => .ok before.reverse
      | .ok false =>
          within first last (if t.reading < first then before else t.reading :: before) (later ())

end Timeline

end Rostering
