import Rostering.Number.Numeral
import Rostering.Service.Path
import Rostering.Service.Environment

namespace Rostering

open Text

/-! What the environment sets for the service. A blank variable counts as one that is not set. -/

structure Settings where
  inputDirectory : Option Path
  profileFile : Option Path
  logLevel : String
  host : String
  port : Option Int
  apiKey : Option String
  deriving DecidableEq, Repr

namespace Settings

def defaultLogLevel : String := "INFO"

def defaultHost : String := "127.0.0.1"

/-- The path that a variable holds, seen from a directory. -/
def path? (base : Path) (environment : Environment) (name : String) :
    Except Fault (Option Path) :=
  match environment.setting? name with
  | none => .ok none
  | some text =>
      return some (.resolve base (← (Path.ofText text).expandHome (environment.get? "HOME")))

def port? (environment : Environment) : Except Fault (Option Int) :=
  match environment.setting? "DROPIN_ROTA_PORT" with
  | none => .ok none
  | some text =>
      match integerOfText? text with
      | some port => .ok (some port)
      | none => .error (.integerText text)

def ofEnvironment (base : Path) (environment : Environment) : Except Fault Settings := do
  return {
    inputDirectory := ← path? base environment "DROPIN_ROTA_INPUT_DIR"
    profileFile := ← path? base environment "DROPIN_ROTA_PROFILE_FILE"
    logLevel := ((environment.setting? "DROPIN_ROTA_LOG_LEVEL").map upper).getD defaultLogLevel
    host := (environment.setting? "DROPIN_ROTA_HOST").getD defaultHost
    port := ← port? environment
    apiKey := environment.setting? "DROPIN_ROTA_API_KEY" }

end Settings

end Rostering
