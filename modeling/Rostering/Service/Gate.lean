import Rostering.Value.Basic

namespace Rostering

open Text

/-! The gate in front of the service: an open health check, and a key that all else asks for. -/

structure WebRequest where
  method : String
  path : String
  headers : List (String × String) := []

inductive WebAnswer where
  | content (status : Nat) (body : Value)
  /-- The request goes on to the service itself. -/
  | forward
  deriving Repr

namespace WebRequest

def target (request : WebRequest) : String :=
  String.ofList (request.path.toList.takeWhile fun c => c != '?' && c != '#')

def header? (request : WebRequest) (name : String) : Option String :=
  (request.headers.find? fun header => lower header.1 == name).map (·.2)

end WebRequest

namespace Gate

def healthPath : String := "/health"

def servicePath : String := "/mcp"

def isKnown (target : String) : Bool := target == healthPath || target == servicePath

/-- The health check answers only to be read. -/
def health (method : String) : WebAnswer :=
  match method with
  | "GET" => .content 200 "ok"
  | "HEAD" => .content 200 ""
  | _ => .content 405 "Method Not Allowed"

/-- Whether a request may pass. The health check is open, and all is without a key. -/
def admits (key : Option String) (request : WebRequest) : Bool :=
  match key.filter (!·.isEmpty) with
  | none => true
  | some key =>
      request.target == healthPath || request.header? "authorization" == some ("Bearer " ++ key)

/-- Whether a target is a known one but for a slash at its end. -/
def isMisspelled (target : String) : Bool :=
  let cs := target.toList
  if cs.getLast? == some '/' then
    isKnown (String.ofList (cs.reverse.dropWhile (· == '/')).reverse)
  else isKnown (target ++ "/")

def route (request : WebRequest) : WebAnswer :=
  let target := request.target
  if target == healthPath then health request.method
  else if target == servicePath then .forward
  else if isMisspelled target then .content 307 ""
  else .content 404 "Not Found"

def answer (key : Option String) (request : WebRequest) : WebAnswer :=
  if admits key request then route request
  else .content 401 (.record [("error", "unauthorized")])

end Gate

end Rostering
