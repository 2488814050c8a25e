import MethodFlow.Proofs.Flow.Strokes
import MethodFlow.Proofs.Flow.Connected
import Mathlib.Data.List.Basic

/-!
The record of a whole trace: the strokes by which the statements of all methods that calls lead to
were drawn. The nodes and edges of a traced graph are those of the strokes, each of them once,
beside the few that are the graph's own (`Recorded.graph_nodes`, `Recorded.closed_edges`).
-/
namespace MethodFlow

theorem Draft.Extends.getElem?_added {draft draft₁ draft₂ : Draft} {node : NodeLabel}
    (grown : draft₁.Extends draft₂) (added : draft₁.nodes = draft.nodes ++ [node]) :
    draft₂.nodes[draft.nodes.length]? = some node := by
  rw [grown.getElem?_eq (by simp [added]), added]
  simp

namespace Stroke

def closingLabels : Stroke → List NodeLabel
  | .call _ _ _ _ _ => []
  | .branch _ _ whenTrue whenFalse _ _ _ _ =>
      if whenTrue.isEmpty && whenFalse.isEmpty then [] else [.merge]
  | .loop _ _ _ _ _ _ _ => [.loopExit]

def labels (map : FunctionMap) (stroke : Stroke) : List NodeLabel :=
  stroke.label map :: stroke.closingLabels

variable {map : FunctionMap} {draft : Draft}

theorem Drawn.label_at {stroke : Stroke} (drawn : stroke.Drawn map draft) :
    draft.nodes[stroke.number]? = some (stroke.label map) := by
  cases drawn with
  | call drawn kept =>
      cases drawn with
      | leaf unresolved =>
          simp only [label, unresolved]
          exact kept.getElem?_added (Draft.follow_nodes _ _ _ _)
      | call resolved target =>
          simp only [label, resolved]
          cases target with
          | reference met =>
              rw [if_pos (List.contains_iff_mem.mpr met)]
              exact kept.getElem?_added (Draft.follow_nodes _ _ _ _)
          | unfold fresh body =>
              rw [if_neg (mt List.contains_iff_mem.mp fresh)]
              exact (body.draft_extends.trans kept).getElem?_added (Draft.enter_nodes _ _ _)
  | branch onTrue onFalse kept merged =>
      exact ((onTrue.draft_extends.trans onFalse.draft_extends).trans kept).getElem?_added
        (Draft.follow_nodes _ _ _ _)
  | loop body kept left =>
      exact (body.draft_extends.trans kept).getElem?_added (Draft.follow_nodes _ _ _ _)

theorem Drawn.closing_at {stroke : Stroke} (drawn : stroke.Drawn map draft) :
    stroke.closing?.toList.map (draft.nodes[·]?) = stroke.closingLabels.map some := by
  cases drawn with
  | call drawn kept => rfl
  | branch onTrue onFalse kept merged =>
      simp only [closing?, closingLabels]
      split
      · rfl
      · rename_i bodies
        simpa using merged (by simpa [imp_iff_not_or] using bodies)
  | loop body kept left => simpa [closing?, closingLabels] using left

theorem Drawn.labels_at {stroke : Stroke} (drawn : stroke.Drawn map draft) :
    stroke.nodes.map (draft.nodes[·]?) = (stroke.labels map).map some := by
  rw [nodes, labels, List.map_cons, List.map_cons, drawn.label_at, drawn.closing_at]

end Stroke

namespace Trace

/-- `strokes` are what a trace from `entry` drew until it was closed, where `reached` are the
methods that calls lead to. -/
structure Recorded (map : FunctionMap) (entry : String) (draft : Draft) (reached : List String)
    (strokes : List Stroke) : Prop where
  once : reached.Nodup
  reached_iff : ∀ name, name ∈ reached ↔ map.Reaches entry name
  statements : (strokes.map Stroke.statement).Perm
    (reached.flatMap fun name => Statement.allIn (map.body name))
  drawn : ∀ stroke ∈ strokes, stroke.Drawn map draft
  unfolds : reached.Perm (entry :: strokes.flatMap (Stroke.unfolds map))
  start : draft.nodes[0]? = some .start
  entered : draft.nodes[1]? = some (.method entry)
  nodes : (List.range draft.nodes.length).Perm (0 :: 1 :: strokes.flatMap Stroke.nodes)
  edges : draft.edges.Perm
    ({ source := 0, target := 1, kind := .calls } :: strokes.flatMap Stroke.edges)

theorem exists_recorded {map : FunctionMap} {entry : String} {trail : List String} {draft : Draft}
    {last : Nat} (drawn : Draws map (.method entry) opening 0 trail draft last) :
    ∃ strokes, Recorded map entry draft trail strokes := by
  obtain ⟨strokes, accounted⟩ := drawn.accounted
  refine ⟨strokes, drawn.trail_nodup, drawn.mem_trail_iff, accounted.statements, accounted.drawn,
    accounted.unfolds, ?_, ?_, accounted.nodes, accounted.edges⟩
  · rw [drawn.draft_extends.getElem?_eq (by decide)]
    rfl
  · cases drawn with
    | reference met => cases met
    | unfold fresh body =>
        have nodes : (opening.enter 0 entry).1.nodes = opening.nodes ++ [.method entry] := rfl
        exact body.draft_extends.getElem?_added nodes

end Trace

def Trace.numbered (label : NodeLabel) (number : Nat) : FlowNode :=
  { label with id := nodeId number }

@[simp] theorem Trace.numbered_toNodeLabel (label : NodeLabel) (number : Nat) :
    (numbered label number).toNodeLabel = label :=
  rfl

namespace Stroke

def flowNodes (map : FunctionMap) (stroke : Stroke) : List FlowNode :=
  (stroke.labels map).zipWith Trace.numbered stroke.nodes

def openingNode (map : FunctionMap) (stroke : Stroke) : FlowNode :=
  Trace.numbered (stroke.label map) stroke.number

@[simp] theorem openingNode_toNodeLabel (map : FunctionMap) (stroke : Stroke) :
    (stroke.openingNode map).toNodeLabel = stroke.label map :=
  rfl

def closingNodes (stroke : Stroke) : List FlowNode :=
  stroke.closingLabels.zipWith Trace.numbered stroke.closing?.toList

theorem flowNodes_eq (map : FunctionMap) (stroke : Stroke) :
    stroke.flowNodes map = stroke.openingNode map :: stroke.closingNodes :=
  rfl

theorem map_closingNodes (stroke : Stroke) :
    stroke.closingNodes.map FlowNode.toNodeLabel = stroke.closingLabels := by
  cases stroke with
  | call name line receiver parent before => rfl
  | branch condition line whenTrue whenFalse parent before afterTrue afterFalse =>
      simp only [closingNodes, closingLabels, closing?]
      split
      · rfl
      · rfl
  | loop kind condition line body parent before afterBody => rfl

theorem map_flowNodes (map : FunctionMap) (stroke : Stroke) :
    (stroke.flowNodes map).map FlowNode.toNodeLabel = stroke.labels map := by
  rw [flowNodes_eq, List.map_cons, map_closingNodes]
  rfl

end Stroke

namespace Trace

theorem filterMap_range {α : Type} (items : List α) :
    (List.range items.length).filterMap (items[·]?) = items := by
  have found : (List.range items.length).map (items[·]?) = items.map some := by
    apply List.ext_getElem?
    intro number
    by_cases bound : number < items.length
    · simp [bound]
    · simp [bound]
  have joined := congrArg (List.filterMap id) found
  simpa [List.filterMap_map] using joined

section Closed

variable {map : FunctionMap} {entry : String} {draft : Draft} {reached : List String}
  {strokes : List Stroke}

theorem closed_getElem? {number : Nat} {label : NodeLabel}
    (found : draft.nodes[number]? = some label) (linkEnd : Bool) (last : Nat) :
    (toGraph (close linkEnd draft last) entry).nodes[number]? = some (numbered label number) := by
  rw [toGraph_getElem?,
    (close_extends linkEnd draft last).getElem?_eq (Stroke.bound_of_getElem? found), found]
  rfl

theorem closed_filterMap {numbers : List Nat} {labels : List NodeLabel}
    (found : numbers.map (draft.nodes[·]?) = labels.map some) (linkEnd : Bool) (last : Nat) :
    numbers.filterMap ((toGraph (close linkEnd draft last) entry).nodes[·]?) =
      labels.zipWith numbered numbers := by
  induction numbers generalizing labels with
  | nil =>
      obtain rfl := List.map_eq_nil_iff.mp found.symm
      rfl
  | cons number numbers ih =>
      cases labels with
      | nil => cases found
      | cons label labels =>
          obtain ⟨first, rest⟩ := List.cons.inj found
          rw [List.filterMap_cons, closed_getElem? first, ih rest]
          rfl

theorem Recorded.graph_nodes (recorded : Recorded map entry draft reached strokes) (linkEnd : Bool)
    (last : Nat) :
    (toGraph (close linkEnd draft last) entry).nodes.Perm
      (numbered .start 0 :: numbered (.method entry) 1 ::
        (strokes.flatMap (Stroke.flowNodes map) ++ [numbered .finish draft.nodes.length])) := by
  have finish : (toGraph (close linkEnd draft last) entry).nodes[draft.nodes.length]? =
      some (numbered .finish draft.nodes.length) := by
    rw [toGraph_getElem?, close_nodes, List.getElem?_concat_length]
    rfl
  have numbers : (List.range (toGraph (close linkEnd draft last) entry).nodes.length).Perm
      (0 :: 1 :: (strokes.flatMap Stroke.nodes ++ [draft.nodes.length])) := by
    rw [toGraph_close_length, List.range_succ]
    exact recorded.nodes.append_right _
  have strokeNodes : ∀ stroke ∈ strokes,
      stroke.nodes.filterMap ((toGraph (close linkEnd draft last) entry).nodes[·]?) =
        stroke.flowNodes map :=
    fun stroke member => closed_filterMap (recorded.drawn stroke member).labels_at linkEnd last
  have found := numbers.filterMap ((toGraph (close linkEnd draft last) entry).nodes[·]?)
  rw [filterMap_range] at found
  simpa only [List.filterMap_cons, List.filterMap_append, List.filterMap_nil,
    List.filterMap_flatMap, closed_getElem? recorded.start, closed_getElem? recorded.entered,
    finish, List.flatMap_congr strokeNodes] using found

def endEdges (linkEnd : Bool) (draft : Draft) (last : Nat) : List (Edge Nat) :=
  if linkEnd then [{ source := last, target := draft.nodes.length, kind := .sequence }] else []

theorem Recorded.closed_edges (recorded : Recorded map entry draft reached strokes)
    (linkEnd : Bool) (last : Nat) :
    (close linkEnd draft last).edges.Perm
      ({ source := 0, target := 1, kind := .calls } ::
        (strokes.flatMap Stroke.edges ++ endEdges linkEnd draft last)) := by
  rw [close_edges]
  exact recorded.edges.append_right _

end Closed

end Trace
end MethodFlow
