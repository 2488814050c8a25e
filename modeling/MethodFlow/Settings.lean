import MethodFlow.LogLevel
import MethodFlow.Text.Alphanumeric
import MethodFlow.Text.Blank

/-!
Settings, and how they are read from environment variables. Blanks around a value and its case do
not matter.
-/
namespace MethodFlow

inductive Backend where
  | lines
  | tree
  deriving DecidableEq, Repr

namespace Backend

def all : List Backend :=
  [lines, tree]

def label : Backend → String
  | lines => "lines"
  | tree => "tree-sitter"

structure Unknown where
  label : String
  deriving DecidableEq, Repr

def Unknown.message (unknown : Unknown) : String :=
  Text.quoted unknown.label ++ " is not a valid ExtractorBackend"

def ofLabel (label : String) : Except Unknown Backend :=
  match all.find? fun backend => backend.label = label with
  | some backend => .ok backend
  | none => .error ⟨label⟩

end Backend

inductive SettingsError where
  | unknownBackend (value : String)
  | unknownLogLevel (value : String)
  | notBoolean (name value : String)
  deriving DecidableEq, Repr

def SettingsError.message : SettingsError → String
  | unknownBackend value =>
    "Unknown extractor backend " ++ Text.quoted value ++ " (expected one of: " ++
      ", ".intercalate (Backend.all.map Backend.label) ++ ")"
  | unknownLogLevel value => "Unknown log level " ++ Text.quoted value
  | notBoolean name value => name ++ " must be a boolean, got " ++ Text.quoted value

structure Settings where
  backend : Backend
  linkEnd : Bool
  logLevel : LogLevel
  deriving DecidableEq, Repr

namespace Settings

def lowered (value : String) : String :=
  String.ofList (Text.lower (Text.trim value.toList))

def raised (value : String) : String :=
  String.ofList (Text.upper (Text.trim value.toList))

def parseBackend (value : String) : Except SettingsError Backend :=
  match Backend.ofLabel (lowered value) with
  | .ok backend => .ok backend
  | .error _ => .error (.unknownBackend value)

def parseLogLevel (value : String) : Except SettingsError LogLevel :=
  match LogLevel.ofName? (raised value) with
  | some level => .ok level
  | none => .error (.unknownLogLevel value)

def trueWords : List String :=
  ["1", "true", "yes", "on"]

def falseWords : List String :=
  ["0", "false", "no", "off", ""]

def parseBool (name value : String) : Except SettingsError Bool :=
  if trueWords.contains (lowered value) then .ok true
  else if falseWords.contains (lowered value) then .ok false
  else .error (.notBoolean name value)

def backendVariable : String :=
  "CALL_FLOW_BACKEND"

def linkEndVariable : String :=
  "CALL_FLOW_LINK_END"

def logLevelVariable : String :=
  "CALL_FLOW_LOG_LEVEL"

def ofEnvironment (lookup : String → Option String) : Except SettingsError Settings := do
  let backend ← parseBackend ((lookup backendVariable).getD Backend.lines.label)
  let linkEnd ← parseBool linkEndVariable ((lookup linkEndVariable).getD "")
  let logLevel ← parseLogLevel ((lookup logLevelVariable).getD LogLevel.warning.name)
  return { backend, linkEnd, logLevel }

end Settings
end MethodFlow
