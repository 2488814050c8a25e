import MethodFlow.CommandLine.Run

/-!
The command. The files below a path that is given are named on standard input, one to a line, from
the root or from the working directory, and with a slash behind the folders. Java is read line by
line: no grammar is built in. Log records show the milliseconds of a clock that only goes forward.
-/
namespace MethodFlow.Main

partial def readLines (input : IO.FS.Stream) (lines : List String) : IO (List String) := do
  let line ← input.getLine
  if line.isEmpty then return lines.reverse
  readLines input ((if line.endsWith "\n" then (line.dropEnd 1).copy else line) :: lines)

def readEntry (path : String) : IO FileTree := do
  if path.endsWith "/" then return .empty
  try
    return .file (← IO.FS.readBinFile path).toList
  catch _ =>
    return .broken

def emptySystem : IO FileSystem := do
  let here := FileTree.names ((← IO.getEnv "PWD").getD "/")
  return ⟨FileTree.empty.insert here .empty, here⟩

def readFiles : IO FileSystem := do
  let paths ← readLines (← IO.getStdin) []
  paths.foldlM (fun files path => do
    return files.add path (← readEntry path)) (← emptySystem)

def wantsFiles (arguments : List String) : Bool :=
  match Options.parse arguments with
  | .ok options => (Command.given options.path).isSome
  | .error _ => false

def readVariables : IO (List (String × String)) := do
  let names := [Settings.backendVariable, Settings.linkEndVariable, Settings.logLevelVariable]
  names.filterMapM fun name => do return (← IO.getEnv name).map fun value => (name, value)

def world (arguments : List String) : IO World := do
  let given ← readVariables
  let files ← if wantsFiles arguments then readFiles else emptySystem
  let now ← IO.monoMsNow
  return { lookup := fun name => given.lookup name, files, grammar := none, time := toString now }

end MethodFlow.Main

def main (arguments : List String) : IO UInt32 := do
  match MethodFlow.Command.run (← MethodFlow.Main.world arguments) arguments with
  | .ok outcome =>
    IO.print outcome.stdout
    IO.eprint outcome.stderr
    return outcome.exitCode.toUInt32
  | .error fault =>
    IO.eprintln fault.message
    return 1
