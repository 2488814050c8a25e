import MethodFlow.Statement
import MethodFlow.Text.Quoted

/-!
Flow graphs: what a program passes through from one entry method on.
-/
namespace MethodFlow

inductive NodeKind where
  | start
  | finish
  | method
  | decision
  | loop
  deriving DecidableEq, Repr

def NodeKind.label : NodeKind → String
  | start => "start"
  | finish => "end"
  | method => "method"
  | decision => "decision"
  | loop => "loop"

inductive EdgeKind where
  | calls
  | ifTrue
  | ifFalse
  | loopEntry
  | loopExit
  | sequence
  deriving DecidableEq, Repr

def EdgeKind.label : EdgeKind → String
  | calls => "calls"
  | ifTrue => "if_true"
  | ifFalse => "if_false"
  | loopEntry => "loop_entry"
  | loopExit => "loop_exit"
  | sequence => "sequence"

structure NodeLabel where
  kind : NodeKind
  name : String
  className : Option String := none
  condition : Option String := none
  loopKind : Option LoopKind := none
  line : Option Int := none
  deriving DecidableEq, Repr

structure FlowNode extends NodeLabel where
  id : String
  deriving DecidableEq, Repr

structure Edge (ι : Type) where
  source : ι
  target : ι
  kind : EdgeKind
  branchLabel : Option String := none
  deriving DecidableEq, Repr

def Edge.map {ι κ : Type} (f : ι → κ) (edge : Edge ι) : Edge κ :=
  { edge with source := f edge.source, target := f edge.target }

structure FlowGraph where
  nodes : List FlowNode
  edges : List (Edge String)
  entryMethod : String
  deriving DecidableEq, Repr

structure UnknownNode where
  id : String
  deriving DecidableEq, Repr

def UnknownNode.message (error : UnknownNode) : String :=
  Text.quoted error.id

namespace FlowGraph

def node (graph : FlowGraph) (id : String) : Except UnknownNode FlowNode :=
  match graph.nodes.find? (·.id = id) with
  | some node => .ok node
  | none => .error ⟨id⟩

def edgesFrom (graph : FlowGraph) (id : String) : List (Edge String) :=
  graph.edges.filter (·.source = id)

end FlowGraph
end MethodFlow
