import MethodFlow.Flow.Graph
import MethodFlow.FunctionMap

/-!
Tracing: the statements of an entry method are unfolded into a flow graph, and with them the methods
that they call. A method is unfolded where it is first met; wherever it is met again a reference
stands for it, so a trace ends even if methods call each other in circles.
-/
namespace MethodFlow

namespace NodeLabel

def start : NodeLabel :=
  { kind := .start, name := "START", line := some 1 }

def finish : NodeLabel :=
  { kind := .finish, name := "END" }

def method (fullName : String) : NodeLabel :=
  let (className, name) := splitMethodName fullName
  { kind := .method, name, className }

def reference (fullName : String) : NodeLabel :=
  { kind := .method, name := fullName ++ " (ref)", className := (splitMethodName fullName).1 }

def leaf (name : String) (line : Int) : NodeLabel :=
  { kind := .method, name, line }

def decision (condition : String) (line : Int) : NodeLabel :=
  { kind := .decision, name := "Decision", condition, line }

def merge : NodeLabel :=
  { kind := .method, name := "Merge" }

def loopName : LoopKind → String
  | .forLoop => "FOR Loop"
  | .whileLoop => "WHILE Loop"
  | .doWhile => "DO_WHILE Loop"

def loop (kind : LoopKind) (condition : String) (line : Int) : NodeLabel :=
  { kind := .loop, name := loopName kind, condition, loopKind := kind, line }

def loopExit : NodeLabel :=
  { kind := .method, name := "Loop Exit" }

end NodeLabel

/-- A graph as far as it is drawn. A node's number is its place in the list. -/
structure Draft where
  unfolded : List String
  nodes : List NodeLabel
  edges : List (Edge Nat)
  deriving Repr

namespace Draft

def empty : Draft :=
  ⟨[], [], []⟩

def add (draft : Draft) (node : NodeLabel) : Draft × Nat :=
  ({ draft with nodes := draft.nodes ++ [node] }, draft.nodes.length)

def link (draft : Draft) (edge : Edge Nat) : Draft :=
  { draft with edges := draft.edges ++ [edge] }

def follow (draft : Draft) (source : Nat) (kind : EdgeKind) (node : NodeLabel) : Draft × Nat :=
  let (draft, target) := draft.add node
  (draft.link { source, target, kind }, target)

def enter (draft : Draft) (parent : Nat) (fullName : String) : Draft × Nat :=
  { draft with unfolded := fullName :: draft.unfolded }.follow parent .calls (.method fullName)

/-- Draws a branch of a decision: to the end of its body and from there on to the place where the
branches meet, or straight there if the body drew nothing. A branch without a body is not drawn. -/
def joinBranch (draft : Draft) (decision last merge : Nat) (kind : EdgeKind) (branchLabel : String)
    (body : List Statement) : Draft :=
  if body.isEmpty then draft
  else if last = decision then
    draft.link { source := decision, target := merge, kind, branchLabel }
  else
    (draft.link { source := decision, target := last, kind, branchLabel }).link
      { source := last, target := merge, kind := .sequence }

def mergeBranches (draft : Draft) (decision trueEnd falseEnd : Nat)
    (whenTrue whenFalse : List Statement) : Draft × Nat :=
  if whenTrue.isEmpty && whenFalse.isEmpty then (draft, decision)
  else
    let (draft, merge) := draft.add .merge
    let draft := draft.joinBranch decision trueEnd merge .ifTrue "true" whenTrue
    (draft.joinBranch decision falseEnd merge .ifFalse "false" whenFalse, merge)

def closeLoop (draft : Draft) (head bodyEnd : Nat) : Draft × Nat :=
  let draft := if bodyEnd = head then draft
    else draft.link { source := bodyEnd, target := head, kind := .loopExit }
  draft.follow head .loopExit .loopExit

end Draft

/-- Where a trace stopped: the error, and what was drawn by then. -/
structure Halt where
  error : UnsupportedStatement
  draft : Draft

/-- A step draws on from a node and gives the node where it ends. -/
abbrev Step := Draft → Nat → Except Halt (Draft × Nat)

mutual

/-- Draws a statement, where `call` draws the calls of a name on a line. -/
def Statement.unfold (call : String → Int → Step) : Statement → Step
  | .call name line _, draft, parent => call name line draft parent
  | .branch condition line whenTrue whenFalse, draft, parent => do
    let (draft, decision) := draft.follow parent .sequence (.decision condition line)
    let (draft, trueEnd) ← unfoldAll call whenTrue draft decision
    let (draft, falseEnd) ← unfoldAll call whenFalse draft decision
    return draft.mergeBranches decision trueEnd falseEnd whenTrue whenFalse
  | .loop kind condition line body, draft, parent => do
    let (draft, head) := draft.follow parent .sequence (.loop kind condition line)
    let (draft, bodyEnd) ← unfoldAll call body draft head
    return draft.closeLoop head bodyEnd
  | .unsupported typeName, draft, _ => .error ⟨⟨typeName⟩, draft⟩

def Statement.unfoldAll (call : String → Int → Step) : List Statement → Step
  | [], draft, parent => .ok (draft, parent)
  | statement :: statements, draft, parent => do
    let (draft, next) ← statement.unfold call draft parent
    unfoldAll call statements draft next

end

namespace Trace

def call (map : FunctionMap) (method : String → Step) (name : String) (line : Int) : Step :=
  fun draft parent =>
    match map.callee? name with
    | some callee => method callee draft parent
    | none => .ok (draft.follow parent .calls (.leaf name line))

def method (map : FunctionMap) : (depth : Nat) → (fullName : String) → Step
  | 0, fullName, draft, parent => .ok (draft.follow parent .calls (.reference fullName))
  | depth + 1, fullName, draft, parent =>
    if draft.unfolded.contains fullName then
      .ok (draft.follow parent .calls (.reference fullName))
    else
      let (draft, node) := draft.enter parent fullName
      Statement.unfoldAll (call map (method map depth)) (map.body fullName) draft node

def nodeId (number : Nat) : String :=
  "node_" ++ toString number

def toGraph (draft : Draft) (entry : String) : FlowGraph :=
  { nodes := draft.nodes.zipIdx.map fun (node, number) => { node with id := nodeId number }
    edges := draft.edges.map (·.map nodeId)
    entryMethod := entry }

def opening : Draft :=
  (Draft.empty.add .start).1

/-- The start node and what is drawn from it on, and the node where that ends. Each method in the
map is unfolded once at most, so calls nest no deeper than there are methods, the entry method
apart. -/
def fromStart (map : FunctionMap) (entry : String) : Except Halt (Draft × Nat) :=
  method map (map.entries.length + 1) entry opening 0

def close (linkEnd : Bool) (draft : Draft) (last : Nat) : Draft :=
  let (draft, finish) := draft.add .finish
  if linkEnd then draft.link { source := last, target := finish, kind := .sequence } else draft

end Trace

/-- What traces one request after another. The draft is what the last one has drawn, to the end or
up to where it stopped. -/
structure Tracer where
  functions : FunctionMap
  linkEnd : Bool
  draft : Draft

namespace Tracer

def new (functions : FunctionMap) (linkEnd : Bool) : Tracer :=
  ⟨functions, linkEnd, .empty⟩

def trace (tracer : Tracer) (entry : String) : Tracer × Except UnsupportedStatement FlowGraph :=
  match Trace.fromStart tracer.functions entry with
  | .error halt => ({ tracer with draft := halt.draft }, .error halt.error)
  | .ok (draft, last) =>
    let draft := Trace.close tracer.linkEnd draft last
    ({ tracer with draft }, .ok (Trace.toGraph draft entry))

def traceAll (tracer : Tracer) :
    List String → Tracer × List (Except UnsupportedStatement FlowGraph)
  | [] => (tracer, [])
  | entry :: entries =>
    let (tracer, graph) := tracer.trace entry
    let (tracer, graphs) := tracer.traceAll entries
    (tracer, graph :: graphs)

end Tracer

def Trace.graph (map : FunctionMap) (linkEnd : Bool) (entry : String) :
    Except UnsupportedStatement FlowGraph :=
  ((Tracer.new map linkEnd).trace entry).2

end MethodFlow
