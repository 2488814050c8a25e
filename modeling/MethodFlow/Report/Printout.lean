import MethodFlow.Declaration
import MethodFlow.Flow.Graph
import MethodFlow.FunctionMap

/-!
Classes, listings and graphs as text. An empty superclass, return type, receiver, class name or
condition is not shown.
-/
namespace MethodFlow.Printout

def unlines (lines : List String) : String :=
  String.join (lines.map (· ++ "\n"))

def shown (before : String) (text : Option String) (after : String) : String :=
  match text with
  | none => ""
  | some "" => ""
  | some text => before ++ text ++ after

def headed (indent word condition : String) (line : Int) : String :=
  indent ++ word ++ " (" ++ condition ++ ")  @ " ++ toString line

mutual

def statement (indent : String) : Statement → Except UnsupportedStatement (List String)
  | .call name line receiver =>
    .ok [indent ++ "calls: " ++ shown "" receiver "." ++ name ++ "  @ " ++ toString line]
  | .branch condition line whenTrue whenFalse => do
    let trueLines ← statements (indent ++ "  ") whenTrue
    let falseLines ← statements (indent ++ "  ") whenFalse
    let otherwise := if whenFalse.isEmpty then [] else (indent ++ "else") :: falseLines
    return headed indent "if" condition line :: trueLines ++ otherwise
  | .loop kind condition line body => do
    return headed indent kind.label condition line :: (← statements (indent ++ "  ") body)
  | .unsupported typeName => .error ⟨typeName⟩

def statements (indent : String) : List Statement → Except UnsupportedStatement (List String)
  | [] => .ok []
  | first :: rest => do return (← statement indent first) ++ (← statements indent rest)

end

def method (method : Method) : Except UnsupportedStatement (List String) := do
  let parameters := method.parameters.map fun parameter => parameter.type ++ " " ++ parameter.name
  let title := "  - " ++ method.visibility ++ " " ++ method.name ++ "(" ++
    ", ".intercalate parameters ++ ")" ++ shown " -> " method.returnType "" ++ "  @ " ++
    toString method.line
  return title :: (← statements "      " method.statements)

def parents (supertypes : Supertypes) : List String :=
  (match supertypes.superclass with
    | none => []
    | some "" => []
    | some superclass => ["extends " ++ superclass]) ++
  if supertypes.interfaces.isEmpty then []
  else ["implements " ++ ", ".intercalate supertypes.interfaces]

def classDecl (cls : ClassDecl) : Except UnsupportedStatement (List String) := do
  let parents := parents cls.supertypes
  let suffix := if parents.isEmpty then "" else "  " ++ " ".intercalate parents
  let title := "[" ++ cls.name ++ "]" ++ suffix ++ "  (line " ++ toString cls.line ++ ")"
  return "" :: title :: (← cls.methods.mapM method).flatten

def classes (classes : List ClassDecl) : Except UnsupportedStatement String := do
  return unlines ("" :: "=== CLASSES & METHODS ===" :: (← classes.mapM classDecl).flatten)

def listing (listing : Listing) : String :=
  unlines (["", "=== ENTRY METHODS ==="] ++ listing.entryMethods.map (" - " ++ ·) ++
    ["", toString listing.totalMethods ++ " methods in " ++ toString listing.totalClasses ++
      " classes"])

def nodeTitle (node : NodeLabel) : String :=
  let className := if "(ref)".toList.isSuffixOf node.name.toList then none else node.className
  shown "" className "." ++ node.name ++ shown " [" node.condition "]"

def titleOf (graph : FlowGraph) (id : String) : Except UnknownNode String :=
  match graph.nodes.reverse.find? (·.id = id) with
  | some node => .ok (nodeTitle node.toNodeLabel)
  | none => .error ⟨id⟩

def edge (graph : FlowGraph) (edge : Edge String) : Except UnknownNode String := do
  let source ← titleOf graph edge.source
  let target ← titleOf graph edge.target
  return "  " ++ source ++ " --" ++ edge.kind.label ++ "--> " ++ target

def graph (graph : FlowGraph) : Except UnknownNode String := do
  let edges ← graph.edges.mapM (edge graph)
  return unlines (["", "=== CALL FLOW from " ++ graph.entryMethod ++ " ===",
    toString graph.nodes.length ++ " nodes, " ++ toString graph.edges.length ++ " links"] ++ edges)

end MethodFlow.Printout
