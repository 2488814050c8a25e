import MethodFlow.FileTree

/-!
Log records: what is told about an analysis, part by part, in the order in which things happen. Of
the scan of a source they tell each declaration in the order of its line; a line opens one at
most.
-/
namespace MethodFlow

inductive Component where
  | scanner
  | treeReader
  | functionMap
  | analysis
  | tracer
  | directory
  deriving DecidableEq, Repr

def Component.label : Component → String
  | scanner => "call_flow.src.call_flow.extractor"
  | treeReader => "call_flow.src.call_flow.tree_sitter_extractor"
  | functionMap => "call_flow.src.call_flow.function_map"
  | analysis => "call_flow.src.call_flow.analysis"
  | tracer => "call_flow.src.call_flow.tracer"
  | directory => "call_flow.src.call_flow.inputs.directory_scanning"

structure LogRecord where
  component : Component
  level : LogLevel
  message : String
  deriving DecidableEq, Repr

namespace LogRecord

def render (time : String) (record : LogRecord) : String :=
  " - ".intercalate [time, record.component.label, record.level.name, record.message] ++ "\n"

def renderAll (time : String) (level : LogLevel) (records : List LogRecord) : String :=
  String.join
    ((records.filter fun record => level.threshold ≤ record.level.severity).map (render time))

def openings (cls : ClassDecl) : List (Int × String) :=
  (cls.line, "Class " ++ cls.name ++ " opened at line " ++ toString cls.line) ::
    cls.methods.map fun method =>
      (method.line, "Method " ++ method.fullName ++ " opened at line " ++ toString method.line)

def extracted (source : Source) (classes : List ClassDecl) : String :=
  let path := if source.path.isEmpty then "<source>" else source.path
  "Extracted " ++ toString classes.length ++ " classes from " ++ path

def ofSource (extractor : Extractor) (source : Source) (classes : List ClassDecl) :
    List LogRecord :=
  match extractor.grammarFor? source with
  | some _ => [⟨.treeReader, .debug, extracted source classes ++ " (tree-sitter)"⟩]
  | none =>
    let opened := (classes.flatMap openings).mergeSort fun a b => decide (a.1 ≤ b.1)
    opened.map (fun (_, message) => ⟨.scanner, .debug, message⟩) ++
      [⟨.scanner, .debug, extracted source classes⟩]

def ofVisit (extractor : Extractor) :
    FileTree.Visit → Except Tree.MissingCondition (List LogRecord)
  | .source source => ofSource extractor source <$> extractor.extract source
  | .unreadable path =>
    .ok [⟨.directory, .warning, "Failed to read " ++ path ++
      ": [Errno 2] No such file or directory: " ++ Text.quoted path⟩]

def ofProject (project : Project) : List LogRecord :=
  (FunctionMap.duplicates project.classes).map (fun method =>
    ⟨.functionMap, .debug, "Duplicate method " ++ method.fullName ++
      "; keeping the later declaration (line " ++ toString method.line ++ ")"⟩) ++
  [⟨.analysis, .info, "Analysed " ++ toString project.classes.length ++ " classes, " ++
    toString project.functions.keys.length ++ " methods"⟩]

def ofGraph (graph : FlowGraph) : LogRecord :=
  ⟨.tracer, .info, "Traced " ++ graph.entryMethod ++ ": " ++ toString graph.nodes.length ++
    " nodes, " ++ toString graph.edges.length ++ " links"⟩

end LogRecord
end MethodFlow
