import MethodFlow.CommandLine.Help
import MethodFlow.CommandLine.Options
import MethodFlow.CommandLine.Sample
import MethodFlow.Log
import MethodFlow.Report.Wire

/-!
What the command does: from the arguments, the environment variables and the files to the exit code
and the two output texts. Options win over the variables. The command ends with 0, or with 2 if
something that was asked for cannot be had. A fault, which the user has no part in, leaves it
without an outcome.
-/
namespace MethodFlow

structure World where
  lookup : String → Option String
  files : FileSystem
  grammar : Option Grammar
  time : String

structure Outcome where
  exitCode : Nat
  stdout : String
  stderr : String
  deriving DecidableEq, Repr

inductive Fault where
  | unsupported (error : UnsupportedStatement)
  | unknownNode (error : UnknownNode)
  | missingCondition (error : Tree.MissingCondition)
  deriving DecidableEq, Repr

def Fault.message : Fault → String
  | unsupported error => error.message
  | unknownNode error => error.message
  | missingCondition error => error.message

inductive RunError where
  | settings (error : SettingsError)
  | notADirectory (path : String)
  | project (error : ProjectError)
  | fault (fault : Fault)
  deriving DecidableEq, Repr

namespace RunError

def message : RunError → String
  | settings error => error.message
  | notADirectory path => "not a directory: " ++ path
  | project error => error.message
  | fault cause => cause.message

def ofProject : ProjectError → RunError
  | .unsupported error => .fault (.unsupported error)
  | error => .project error

def ofMissingCondition (error : Tree.MissingCondition) : RunError :=
  .fault (.missingCondition error)

end RunError

namespace Command

def given (value : Option String) : Option String :=
  value.filter fun text => !text.isEmpty

/-- The settings of the environment with the options over them. The environment is checked even
where an option wins. -/
def settings (lookup : String → Option String) (options : Options) :
    Except SettingsError Settings := do
  let settings ← Settings.ofEnvironment lookup
  let backend ← (given options.backend).elim (.ok settings.backend) Settings.parseBackend
  let logLevel ← (given options.logLevel).elim (.ok settings.logLevel) Settings.parseLogLevel
  return { backend, linkEnd := options.linkEnd || settings.linkEnd, logLevel }

def visits (files : FileSystem) (path : Option String) : Except RunError (List FileTree.Visit) :=
  match given path with
  | none => .ok (Sample.sources.map .source)
  | some path =>
    match files.folder? path with
    | some entries => .ok (FileTree.walk path entries)
    | none => .error (.notADirectory path)

structure Progress where
  stdout : String
  log : List LogRecord
  error : Option RunError

def answer (options : Options) (linkEnd : Bool) (project : Project) :
    Except RunError (String × List LogRecord) :=
  match given options.entry with
  | none =>
    let listing := project.listing
    .ok (if options.json then listing.toJson.render ++ "\n" else Printout.listing listing, [])
  | some entry =>
    match project.trace (some entry) linkEnd with
    | .error error => .error (.ofProject error)
    | .ok graph =>
      if options.json then
        .ok ((graph.toResponse project.listing).render ++ "\n", [LogRecord.ofGraph graph])
      else
        match Printout.graph graph with
        | .ok text => .ok (text, [LogRecord.ofGraph graph])
        | .error error => .error (.fault (.unknownNode error))

/-- The classes come first where they are asked for, whatever becomes of the rest. -/
def report (options : Options) (linkEnd : Bool) (project : Project) : Progress :=
  match if options.list then Printout.classes project.classes else .ok "" with
  | .error error => ⟨"", [], some (.fault (.unsupported error))⟩
  | .ok classes =>
    match answer options linkEnd project with
    | .ok (text, log) => ⟨classes ++ text, log, none⟩
    | .error error => ⟨classes, [], some error⟩

def analyse (world : World) (backend : Backend) (path : Option String) :
    Except RunError (Project × List LogRecord) := do
  let visits ← visits world.files path
  let extractor ← (Extractor.ofBackend world.grammar backend).mapError .ofProject
  let project ← (Project.ofSources extractor (FileTree.sources visits)).mapError .ofMissingCondition
  let log ← (visits.mapM (LogRecord.ofVisit extractor)).mapError .ofMissingCondition
  return (project, log.flatten ++ LogRecord.ofProject project)

def complaint (error : RunError) : String :=
  "error: " ++ error.message ++ "\n"

def stopped (stdout records : String) : RunError → Except Fault Outcome
  | .fault fault => .error fault
  | error => .ok ⟨2, stdout, records ++ complaint error⟩

def runWith (world : World) (options : Options) : Except Fault Outcome :=
  match settings world.lookup options with
  | .error error => stopped "" "" (.settings error)
  | .ok settings =>
    match analyse world settings.backend options.path with
    | .error error => stopped "" "" error
    | .ok (project, log) =>
      let progress := report options settings.linkEnd project
      let records := LogRecord.renderAll world.time settings.logLevel (log ++ progress.log)
      match progress.error with
      | none => .ok ⟨0, progress.stdout, records⟩
      | some error => stopped progress.stdout records error

def run (world : World) (arguments : List String) : Except Fault Outcome :=
  match Options.parse arguments with
  | .ok options => runWith world options
  | .error .helpWanted => .ok ⟨0, Help.text, ""⟩
  | .error (.usage error) => .ok ⟨2, "", Help.complaint error.message⟩

end Command
end MethodFlow
