import Rostering.Text.Digit

namespace Rostering

open Text

/-! The command line of the service. A long option may be cut short as long as it stays the only
one meant, and takes its value after an equality sign or as the next argument. -/

inductive Transport where
  | standard
  | events
  | streaming
  deriving DecidableEq, Repr

namespace Transport

def all : List Transport := [standard, events, streaming]

def name : Transport → String
  | standard => "stdio"
  | events => "sse"
  | streaming => "streamable-http"

def ofName? (name : String) : Option Transport := all.find? fun t => t.name == name

end Transport

structure Arguments where
  environmentFile : Option String := none
  transport : Option Transport := none
  logLevel : Option String := none
  deriving DecidableEq, Repr

namespace Arguments

/-- Why a command line is not followed: it asks for help, or it cannot be understood. -/
inductive Stop where
  | help
  | misuse
  deriving DecidableEq, Repr

def Stop.exitCode : Stop → Nat
  | help => 0
  | misuse => 2

inductive Flag where
  | help
  | environmentFile
  | transport
  | logLevel
  deriving DecidableEq, Repr

def spellings : List (String × Flag) :=
  [("--help", .help), ("--env-file", .environmentFile), ("--transport", .transport),
    ("--log-level", .logLevel)]

def shortHelp : List Char := ['-', 'h']

def logLevels : List String := ["DEBUG", "INFO", "WARNING", "ERROR"]

inductive Word where
  | value (text : String)
  /-- After this mark all arguments are values. -/
  | endMark
  | option (flag : Flag) (attached : Option String)
  /-- The short option for help with more characters after it. -/
  | helpTail (tail : List Char)
  | unknown
  | ambiguous
  deriving DecidableEq, Repr

def isNegative (cs : List Char) : Bool :=
  let isDigit (c : Char) : Bool := (digitValue? c).isSome
  match cs with
  | '-' :: digits =>
      match digits.dropWhile isDigit with
      | [] => !digits.isEmpty
      | '.' :: places => !places.isEmpty && places.all isDigit
      | _ => false
  | _ => false

/-- An argument that starts with a dash and is no option: a number or anything with a space is a
value. -/
def otherWord (text : String) : Word :=
  if isNegative text.toList || text.toList.contains ' ' then .value text else .unknown

def splitAttached (cs : List Char) : List Char × Option String :=
  match cs.dropWhile (· != '=') with
  | [] => (cs, none)
  | _ :: attached => (cs.takeWhile (· != '='), some (String.ofList attached))

def wordOf (text : String) : Word :=
  match text.toList with
  | [] | ['-'] => .value text
  | '-' :: '-' :: rest =>
      let (spelled, attached) := splitAttached ('-' :: '-' :: rest)
      match spellings.filter fun s => spelled.isPrefixOf s.1.toList with
      | [] => otherWord text
      | [(_, flag)] => .option flag attached
      | _ => .ambiguous
  | '-' :: rest =>
      if shortHelp.isPrefixOf ('-' :: rest) then
        match rest.drop 1 with
        | [] => .option .help none
        | tail => .helpTail tail
      else otherWord text
  | _ => .value text

def wordsOf : List String → List Word
  | [] => []
  | text :: rest =>
      if text == "--" then .endMark :: rest.map Word.value else wordOf text :: wordsOf rest

/-- Whether the characters after the short option for help leave it one. -/
def helpHolds : List Char → Bool
  | [] => true
  | '=' :: _ | '-' :: _ => false
  | 'h' :: rest => helpHolds rest
  | _ => true

/-- Sets the value of an option, which may have to be one of a choice. -/
def set (arguments : Arguments) (flag : Flag) (value : String) : Except Stop Arguments :=
  match flag with
  | .help => .error .misuse
  | .environmentFile => .ok { arguments with environmentFile := some value }
  | .transport =>
      match Transport.ofName? value with
      | some transport => .ok { arguments with transport := some transport }
      | none => .error .misuse
  | .logLevel =>
      if logLevels.contains value then .ok { arguments with logLevel := some value }
      else .error .misuse

/-- Follows the words in turn. A word that belongs to no option is held against the command line
only at its end. -/
def follow (arguments : Arguments) (hasStray : Bool) : List Word → Except Stop Arguments
  | [] => if hasStray then .error .misuse else .ok arguments
  | .option .help none :: _ => .error .help
  | .option flag (some value) :: rest => do follow (← arguments.set flag value) hasStray rest
  | .option flag none :: .value value :: rest => do
      follow (← arguments.set flag value) hasStray rest
  | .option _ none :: _ => .error .misuse
  | .helpTail tail :: _ => .error (if helpHolds tail then .help else .misuse)
  | _ :: rest => follow arguments true rest

/-- Reads a command line. An option cut too short is refused before anything is followed. -/
def ofList (args : List String) : Except Stop Arguments :=
  let words := wordsOf args
  if words.contains .ambiguous then .error .misuse else follow {} false words

end Arguments

end Rostering
