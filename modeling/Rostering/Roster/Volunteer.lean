import Rostering.IndexSet
import Rostering.Value.Convert

namespace Rostering

open Text

/-! The people of a roster and what they answered about their availability. -/

inductive Gender where
  | male
  | female
  | other
  | unknown
  deriving DecidableEq, Repr

namespace Gender

def name : Gender → String
  | male => "Male"
  | female => "Female"
  | other => "Other"
  | unknown => ""

def ofName : String → Except Fault Gender
  | "Male" => .ok male
  | "Female" => .ok female
  | "Other" => .ok other
  | "" => .ok unknown
  | text => .error (.unknownGender text)

/-- Reads a name, a usual short form or another word in any case; all else is unknown. -/
def ofText (text : String) : Gender :=
  match lower (trim text) with
  | "male" | "m" | "man" => male
  | "female" | "f" | "w" | "woman" => female
  | "other" => other
  | _ => unknown

theorem ofName_name (g : Gender) : ofName g.name = .ok g := by cases g <;> rfl

end Gender

inductive Role where
  | volunteer
  | teamLead
  deriving DecidableEq, Repr

namespace Role

def name : Role → String
  | volunteer => "Volunteer"
  | teamLead => "Team Lead"

def ofName : String → Except Fault Role
  | "Volunteer" => .ok volunteer
  | "Team Lead" => .ok teamLead
  | text => .error (.unknownRole text)

/-- Reads a role; underscores and dashes count as spaces, and all but a lead is a volunteer. -/
def ofText (text : String) : Role :=
  let spaced := String.ofList ((lower (trim text)).toList.map fun c =>
    if c = '_' ∨ c = '-' then ' ' else c)
  match spaced with
  | "team lead" | "teamlead" | "lead" | "tl" => teamLead
  | _ => volunteer

theorem ofName_name (r : Role) : ofName r.name = .ok r := by cases r <;> rfl

end Role

/-- Starts the key of a group that one volunteer without a group forms. -/
def individualMark : String := "individual_"

structure Volunteer where
  id : String
  firstName : String := ""
  lastName : String := ""
  gender : Gender := .unknown
  role : Role := .volunteer
  groupKey : String := ""
  deriving DecidableEq, Repr

namespace Volunteer

def isTeamLead (v : Volunteer) : Bool := v.role == .teamLead

def isMale (v : Volunteer) : Bool := v.gender == .male

/-- Both names, or the identifier where they are blank. -/
def fullName (v : Volunteer) : String :=
  let both := trim (v.firstName ++ " " ++ v.lastName)
  if both.isEmpty then v.id else both

/-- The key of the group that a volunteer belongs to; without one, a group of their own. -/
def effectiveKey (v : Volunteer) : String :=
  if v.groupKey.isEmpty then individualMark ++ v.id else v.groupKey

end Volunteer

/-- What a volunteer answered. The indices count only with an answer. -/
structure Response where
  volunteerId : String
  responded : Bool
  unavailable : IndexSet := .empty
  deriving DecidableEq, Repr

end Rostering
