import Rostering.Intake
import Rostering.Profile
import Rostering.Service.Files
import Rostering.Service.Settings
import Rostering.Value.Json

namespace Rostering

/-! A site: the variables and files that the service runs on. Inputs and profiles are found on it
by their paths and names. -/

structure Site where
  environment : Environment
  files : Files
  /-- Where relative paths start. -/
  directory : Path := ⟨true, []⟩

namespace Site

def settings (site : Site) : Except Fault Settings :=
  Settings.ofEnvironment site.directory site.environment

/-- The site with the variables that a file states, if there is such a file. -/
def withEnvironmentFrom (site : Site) (file : Option String) : Site :=
  match (file.filter (!·.isEmpty)).bind fun p => site.files.find? (.ofText p) with
  | some (.text content) =>
      { site with environment := site.environment.extend (.ofText content) }
  | _ => site

/-- The profiles of a file, or of the one that is set, or the standard ones. A file that is not
there has none. -/
def profiles (site : Site) (file : Option Path := none) : Except Fault Value := do
  let file ←
    match file with
    | some p => pure (some p)
    | none => pure (← site.settings).profileFile
  match file with
  | none => return Profile.standard
  | some p =>
      if site.files.has p then Value.ofJson (← site.files.read p) else return .record []

def profile (site : Site) (name : Option String) (file : Option Path := none) :
    Except Fault Profile := do
  Profile.find (← site.profiles file) name

/-- Takes in a directory with metadata, two tables and perhaps one of the history. -/
def directoryIntake (site : Site) (p : Path) : Except Fault Intake := do
  let table (name : String) (columns : List String) : Except Fault (List Value) := do
    Csv.rows (← site.files.read (p.join name)) name columns
  let metadata ← Value.ofJson (← site.files.read (p.join "rota.json"))
  let volunteers ← table "volunteers.csv" Columns.volunteers
  let availability ← table "availability.csv" Columns.availability
  let history ←
    if site.files.has (p.join "history.csv") then table "history.csv" Columns.history
    else pure []
  Intake.ofRows metadata volunteers availability history

def workbookIntake (site : Site) (p : Path) : Except Fault Intake := do
  Intake.ofWorkbook (← site.files.workbook p)

/-- Takes in a workbook or a directory, as its ending tells. -/
def intake (site : Site) (source : String) : Except Fault Intake := do
  let p ← (Path.ofText source).expandHome (site.environment.get? "HOME")
  if p.isWorkbook then site.workbookIntake p else site.directoryIntake p

/-- Generates a rota from a source, under the profile given or else the one that the source
names. -/
def generate (site : Site) (source : String) (profileName : Option String := none) :
    Except Fault Outcome := do
  let intake ← site.intake source
  let name := (profileName.filter (!·.isEmpty)).getD intake.profileName
  let profile ← site.profile name
  Rostering.generate (← profile.request intake)

/-- The groups of a source that may be placed, with the report on all of them. -/
def resolution (site : Site) (source : String) :
    Except Fault (List Group × ResolutionReport) := do
  let intake ← site.intake source
  resolve intake.volunteers intake.responses intake.dates.length intake.history

end Site

end Rostering
