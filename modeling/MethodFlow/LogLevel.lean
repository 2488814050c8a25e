import MethodFlow.Text.Quoted

/-!
Log levels. Two of them go by two names.
-/
namespace MethodFlow

inductive LogLevel where
  | critical
  | fatal
  | error
  | warning
  | warn
  | info
  | debug
  | notSet
  deriving DecidableEq, Repr

namespace LogLevel

def all : List LogLevel :=
  [critical, fatal, error, warning, warn, info, debug, notSet]

def name : LogLevel → String
  | critical => "CRITICAL"
  | fatal => "FATAL"
  | error => "ERROR"
  | warning => "WARNING"
  | warn => "WARN"
  | info => "INFO"
  | debug => "DEBUG"
  | notSet => "NOTSET"

def severity : LogLevel → Nat
  | critical => 50
  | fatal => 50
  | error => 40
  | warning => 30
  | warn => 30
  | info => 20
  | debug => 10
  | notSet => 0

def ofName? (name : String) : Option LogLevel :=
  all.find? fun level => level.name = name

/-- From which severity on records are shown. Where no level is set, warnings are. -/
def threshold : LogLevel → Nat
  | notSet => warning.severity
  | level => level.severity

end LogLevel

structure UnknownLevel where
  name : String
  deriving DecidableEq, Repr

def UnknownLevel.message (error : UnknownLevel) : String :=
  "Unknown level: " ++ Text.quoted error.name

structure Logger where
  level : LogLevel
  handlers : Nat
  deriving DecidableEq, Repr

namespace Logger

def name : String :=
  "call_flow"

def initial : Logger :=
  ⟨.notSet, 0⟩

def configure (logger : Logger) (name : String) : Except UnknownLevel Logger :=
  match LogLevel.ofName? name with
  | some level => .ok ⟨level, max logger.handlers 1⟩
  | none => .error ⟨name⟩

end Logger
end MethodFlow
