import Rostering.Service.Arguments
import Rostering.Service.Site

namespace Rostering

open Text

/-! Starting the service: what a command line and the environment make of it. -/

/-- Where the service listens for requests over the web. -/
structure Listener where
  host : String
  port : Int
  logLevel : String
  deriving DecidableEq, Repr

inductive Launch where
  | exit (code : Nat)
  | serve (transport : Transport) (logLevel : String) (listener : Option Listener)
  deriving DecidableEq, Repr

namespace Launch

/-- The names of log levels, with the name that each is known by. -/
def levelNames : List (String × String) :=
  [("CRITICAL", "CRITICAL"), ("FATAL", "CRITICAL"), ("ERROR", "ERROR"), ("WARN", "WARNING"),
    ("WARNING", "WARNING"), ("INFO", "INFO"), ("DEBUG", "DEBUG"), ("NOTSET", "NOTSET")]

def levelOf (name : String) : Except Fault String :=
  match levelNames.lookup name with
  | some level => .ok level
  | none => .error (.unknownLogLevel name)

def defaultPort : Int := 8000

/-- The port that is set; a port of zero is none. -/
def portOf (settings : Settings) : Option Int := settings.port.filter (· != 0)

def listenerOf (settings : Settings) : Listener where
  host := settings.host
  port := (portOf settings).getD defaultPort
  logLevel := lower settings.logLevel

/-- Starts the service as some arguments say. The settings are read only for what the arguments
leave open, so that settings at fault do no harm elsewhere. -/
def start (site : Site) (arguments : Arguments) : Except Fault Launch := do
  let site := site.withEnvironmentFrom arguments.environmentFile
  let name ←
    match arguments.logLevel with
    | some name => pure name
    | none => pure (← site.settings).logLevel
  let level ← levelOf name
  let transport ←
    match arguments.transport with
    | some transport => pure transport
    | none =>
        pure (if (portOf (← site.settings)).isSome then .streaming else .standard)
  match transport with
  | .streaming => return .serve transport level (some (listenerOf (← site.settings)))
  | _ => return .serve transport level none

def ofCommandLine (site : Site) (args : List String) : Except Fault Launch :=
  match Arguments.ofList args with
  | .ok arguments => start site arguments
  | .error stop => .ok (.exit stop.exitCode)

end Launch

end Rostering
