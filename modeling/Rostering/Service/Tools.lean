import Rostering.Evaluation
import Rostering.Service.Site
import Rostering.Summary

namespace Rostering

/-! The tools that the service offers. Their answers are loose values. -/

namespace Tools

def environmentFile : String := "DROPIN_ROTA_ENV_FILE"

/-- The site with the variables of the file that it is told to read, and the source of input:
the one given, or the one that is set. -/
def sourceOn (site : Site) (given : Option String) : Except Fault (Site × String) := do
  let site := site.withEnvironmentFrom (site.environment.get? environmentFile)
  match given.filter (!·.isEmpty) with
  | some source => return (site, source)
  | none =>
      match (← site.settings).inputDirectory with
      | some p => return (site, p.text)
      | none => throw .noInputDirectory

def listProfiles (site : Site) : Except Fault Value := do
  Profile.summaries (← site.profiles)

def loadProfile (site : Site) (name : String) : Except Fault Value := do
  Profile.raw (← site.profiles) name

def resolveAvailability (site : Site) (source : Option String := none) :
    Except Fault Value := do
  let (site, source) ← sourceOn site source
  let (groups, report) ← site.resolution source
  return resolutionSummary groups report

def generateRota (site : Site) (source profileName : Option String := none) :
    Except Fault Value := do
  let (site, source) ← sourceOn site source
  (← site.generate source profileName).summary

def evaluateRota (site : Site) (source profileName : Option String := none) :
    Except Fault Value := do
  return (← evaluate (← generateRota site source profileName)).toValue

end Tools

end Rostering
