import Rostering.Service.Launch

namespace Rostering.CommandLine

/-! The command line of the service. It says how the service is to be started, or why it is not. -/

def usage : String :=
  "usage: [-h] [--env-file FILE] [--transport TRANSPORT] [--log-level LEVEL]"

def variableNames : List String :=
  ["HOME", "DROPIN_ROTA_INPUT_DIR", "DROPIN_ROTA_PROFILE_FILE", "DROPIN_ROTA_LOG_LEVEL",
    "DROPIN_ROTA_HOST", "DROPIN_ROTA_PORT", "DROPIN_ROTA_API_KEY"]

def readEnvironment : IO Environment :=
  variableNames.filterMapM fun name => return (← IO.getEnv name).map fun value => (name, value)

/-- The variables that a file states; none if it cannot be read. -/
def readStated (file : Option String) : IO Environment := do
  match file with
  | none => return []
  | some path =>
      try return .ofText (← IO.FS.readFile path)
      catch _ => return []

def describe (transport : Transport) (level : String) (listener : Option Listener) : String :=
  let place :=
    match listener with
    | some l => s!" on {l.host}, port {l.port}"
    | none => ""
  s!"serving over {transport.name}{place} at log level {level}"

end Rostering.CommandLine

open Rostering CommandLine in
def main (args : List String) : IO UInt32 := do
  let stated ←
    match Arguments.ofList args with
    | .ok arguments => readStated arguments.environmentFile
    | .error _ => pure []
  let site : Site := {
    environment := (← readEnvironment).extend stated
    files := []
    directory := .ofText (← IO.currentDir).toString }
  match Launch.ofCommandLine site args with
  | .ok (.serve transport level listener) =>
      IO.println (describe transport level listener)
      return 0
  | .ok (.exit code) =>
      IO.println usage
      return code.toUInt32
  | .error cause =>
      IO.eprintln cause.message
      return 1
