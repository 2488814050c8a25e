import MethodFlow.Flow.Graph
import MethodFlow.FunctionMap
import MethodFlow.JsonValue

/-!
Graphs and listings as JSON values. Of a node and an edge only the fields that it has are written.
-/
namespace MethodFlow

def optionalField (name : String) (value : Option JsonValue) : List (String × JsonValue) :=
  (value.map fun value => (name, value)).toList

def FlowNode.toJson (node : FlowNode) : JsonValue :=
  .obj ([("id", .str node.id), ("kind", .str node.kind.label), ("name", .str node.name)] ++
    optionalField "className" (node.className.map .str) ++
    optionalField "condition" (node.condition.map .str) ++
    optionalField "loopKind" (node.loopKind.map fun kind => .str kind.label) ++
    optionalField "line" (node.line.map .int))

def Edge.toJson (edge : Edge String) : JsonValue :=
  .obj ([("source", .str edge.source), ("target", .str edge.target),
      ("kind", .str edge.kind.label)] ++
    optionalField "branchLabel" (edge.branchLabel.map .str))

def FlowGraph.toJson (graph : FlowGraph) : JsonValue :=
  .obj [("nodes", .arr (graph.nodes.map FlowNode.toJson)),
    ("links", .arr (graph.edges.map Edge.toJson)),
    ("entryMethod", .str graph.entryMethod)]

def Listing.toJson (listing : Listing) : JsonValue :=
  .obj [("entryMethods", .strings listing.entryMethods),
    ("allMethods", .strings listing.allMethods),
    ("totalMethods", .int listing.totalMethods),
    ("totalClasses", .int listing.totalClasses)]

def FlowGraph.toResponse (graph : FlowGraph) (listing : Listing) : JsonValue :=
  .obj [("callFlowGraph", graph.toJson),
    ("availableEntryMethods", .strings listing.entryMethods),
    ("allMethods", .strings listing.allMethods),
    ("totalMethods", .int listing.totalMethods),
    ("totalClasses", .int listing.totalClasses)]

end MethodFlow
