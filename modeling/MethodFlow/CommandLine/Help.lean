import MethodFlow.Report.Printout

/-!
The texts that explain the command line.
-/
namespace MethodFlow.Help

def usage : List String :=
  ["usage: call-flow [-h] [--entry ENTRY] [--list] [--json] [--backend BACKEND]",
    "                 [--link-end] [--log-level LOG_LEVEL]",
    "                 [path]"]

def body : List String :=
  ["",
    "Trace the call flow of Java/Kotlin sources from an entry method.",
    "",
    "positional arguments:",
    "  path                  directory of .java/.kt sources (default: built-in",
    "                        sample)",
    "",
    "options:",
    "  -h, --help            show this help message and exit",
    "  --entry ENTRY         fully-qualified entry method, e.g.",
    "                        MainActivity.onCreate",
    "  --list                print the extracted classes and methods",
    "  --json                print JSON instead of a text summary",
    "  --backend BACKEND     extractor backend: lines or tree-sitter",
    "  --link-end            connect the last traced node to END",
    "  --log-level LOG_LEVEL",
    "                        logging level (default: WARNING)"]

def text : String :=
  Printout.unlines (usage ++ body)

def complaint (message : String) : String :=
  Printout.unlines (usage ++ ["call-flow: error: " ++ message])

end MethodFlow.Help
