import MethodFlow.Flow.Trace
import MethodFlow.Report.Wire
import MethodFlow.Scan.Feed
import MethodFlow.Settings
import MethodFlow.Tree.Classes

/-!
A set of sources analysed together. Java sources are scanned line by line or, with a grammar, read
off their syntax trees; Kotlin sources are always scanned.
-/
namespace MethodFlow

structure Source where
  path : String
  text : String
  /-- The dialect, where it does not follow from the path. -/
  dialect : Option Dialect
  deriving DecidableEq, Repr

def Source.resolvedDialect (source : Source) : Dialect :=
  source.dialect.getD (.ofPath source.path)

/-- What parses Java: it gives the syntax tree of a text. -/
abbrev Grammar := String → Tree.Node

inductive ProjectError where
  | grammarUnavailable
  | entryRequired
  | unknownEntry (entry : String)
  | unsupported (error : UnsupportedStatement)
  deriving DecidableEq, Repr

def ProjectError.message : ProjectError → String
  | grammarUnavailable =>
    "Could not load Java grammar.\n- Install `tree-sitter-java` (pip install tree-sitter-java)."
  | entryRequired => "Entry method is required"
  | unknownEntry entry => "Unknown entry method: " ++ Text.quoted entry
  | unsupported error => error.message

inductive Extractor where
  | lines
  | tree (grammar : Grammar)

namespace Extractor

def ofBackend (grammar : Option Grammar) : Backend → Except ProjectError Extractor
  | .lines => .ok .lines
  | .tree =>
    match grammar with
    | some grammar => .ok (.tree grammar)
    | none => .error .grammarUnavailable

def grammarFor? (extractor : Extractor) (source : Source) : Option Grammar :=
  match extractor, source.resolvedDialect with
  | .tree grammar, .java => some grammar
  | _, _ => none

def extract (extractor : Extractor) (source : Source) : Tree.Classes :=
  match extractor.grammarFor? source with
  | some grammar => Tree.extract (some source.path) source.text (grammar source.text)
  | none => .ok (Scan.extract source.resolvedDialect (some source.path) source.text)

end Extractor

structure Project where
  classes : List ClassDecl
  functions : FunctionMap

namespace Project

def ofClasses (classes : List ClassDecl) : Project :=
  ⟨classes, .ofClasses classes⟩

def ofSources (extractor : Extractor) (sources : List Source) :
    Except Tree.MissingCondition Project := do
  return ofClasses (← sources.mapM extractor.extract).flatten

def listing (project : Project) : Listing :=
  .ofMap project.functions project.classes.length

def validEntry (project : Project) (entry : Option String) : Except ProjectError String :=
  let trimmed := String.ofList (Text.trim (entry.getD "").toList)
  if trimmed.isEmpty then .error .entryRequired
  else if project.functions.contains trimmed then .ok trimmed
  else .error (.unknownEntry trimmed)

def trace (project : Project) (entry : Option String) (linkEnd : Bool) :
    Except ProjectError FlowGraph := do
  let entry ← project.validEntry entry
  match Trace.graph project.functions linkEnd entry with
  | .ok graph => return graph
  | .error error => throw (.unsupported error)

def response (project : Project) (entry : Option String) (linkEnd : Bool) :
    Except ProjectError JsonValue :=
  return (← project.trace entry linkEnd).toResponse project.listing

end Project
end MethodFlow
