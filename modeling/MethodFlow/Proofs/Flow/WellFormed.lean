import MethodFlow.Proofs.Flow.Wiring
import MethodFlow.Report.Printout
import Mathlib.Data.List.Nodup

/-!
A trace gives a well-formed graph: its nodes bear their numbers, it starts at its first node and
ends at its last one, its edges run between its nodes, and the end is linked only if that is asked
for. So all that is looked up in a traced graph is found.
-/
namespace MethodFlow

namespace Trace

theorem nodeId_injective : Function.Injective nodeId := by
  intro first second same
  have shown : toString first = toString second := by
    simpa [nodeId] using same
  have digits : Nat.toDigits 10 first = Nat.toDigits 10 second := by
    rw [← Nat.toList_repr, ← Nat.toList_repr]
    exact congrArg String.toList shown
  calc
    first = Nat.ofDigitChars 10 (Nat.toDigits 10 first) 0 := Nat.ofDigitChars_ten_toDigits.symm
    _ = Nat.ofDigitChars 10 (Nat.toDigits 10 second) 0 := by rw [digits]
    _ = second := Nat.ofDigitChars_ten_toDigits

theorem toGraph_getElem? (draft : Draft) (entry : String) (number : Nat) :
    (toGraph draft entry).nodes[number]? =
      draft.nodes[number]?.map fun label => { label with id := nodeId number } := by
  simp [toGraph, Function.comp_def]

theorem toGraph_ids (draft : Draft) (entry : String) :
    (toGraph draft entry).nodes.map (·.id) = (List.range draft.nodes.length).map nodeId := by
  apply List.ext_getElem?
  intro number
  rw [List.getElem?_map, toGraph_getElem?]
  by_cases bound : number < draft.nodes.length
  · simp [bound]
  · simp [bound]

theorem toGraph_length (draft : Draft) (entry : String) :
    (toGraph draft entry).nodes.length = draft.nodes.length := by
  simp [toGraph]

theorem mem_toGraph_edges {draft : Draft} {entry : String} {edge : Edge String} :
    edge ∈ (toGraph draft entry).edges ↔ ∃ drawn ∈ draft.edges, drawn.map nodeId = edge := by
  simp [toGraph]

section Close

variable (linkEnd : Bool) (draft : Draft) (last : Nat)

@[simp] theorem close_nodes : (close linkEnd draft last).nodes = draft.nodes ++ [.finish] := by
  cases linkEnd <;> rfl

@[simp] theorem close_edges :
    (close linkEnd draft last).edges = draft.edges ++
      if linkEnd then [{ source := last, target := draft.nodes.length, kind := .sequence }]
      else [] := by
  cases linkEnd
  · simp [close]
  · rfl

end Close

theorem close_node_cases {linkEnd : Bool} {draft : Draft} {last number : Nat} {label : NodeLabel}
    (found : (close linkEnd draft last).nodes[number]? = some label) :
    (number < draft.nodes.length ∧ draft.nodes[number]? = some label) ∨
      (number = draft.nodes.length ∧ label = .finish) := by
  rw [close_nodes, List.getElem?_append] at found
  split at found
  · exact .inl ⟨‹_›, found⟩
  · rename_i late
    obtain ⟨bound, same⟩ := List.getElem?_eq_some_iff.mp found
    simp only [List.length_singleton, List.getElem_singleton] at bound same
    exact .inr ⟨by omega, same.symm⟩

/-- What a trace is like before it is closed. -/
structure Unclosed (draft : Draft) (last : Nat) : Prop where
  extends_opening : opening.Extends draft
  inner : opening.InnerNodes draft
  wired : opening.Wired 0 draft
  ends : opening.EndsAt draft last

theorem unclosed_of_draws {map : FunctionMap} {entry : String} {trail : List String}
    {draft : Draft} {last : Nat} (drawn : Draws map (.method entry) opening 0 trail draft last) :
    Unclosed draft last where
  extends_opening := drawn.draft_extends
  inner := drawn.inner_nodes
  wired := drawn.wired (by decide)
  ends := by
    rcases drawn.ends with bare | ends
    · cases bare
    · exact ends

namespace Unclosed

variable {draft : Draft} {last : Nat} (unclosed : Unclosed draft last)

include unclosed

theorem size : 1 < draft.nodes.length :=
  unclosed.ends.grown

theorem onward {edge : Edge Nat} (member : edge ∈ draft.edges) :
    opening.Onward 0 draft edge := by
  rcases unclosed.wired edge member with old | onward
  · cases old
  · exact onward

theorem target_pos {edge : Edge Nat} (member : edge ∈ draft.edges) : 0 < edge.target :=
  (unclosed.onward member).target

theorem kind_start {number : Nat} {label : NodeLabel} (found : draft.nodes[number]? = some label) :
    label.kind = .start ↔ number = 0 := by
  cases number with
  | zero =>
      rw [unclosed.extends_opening.getElem?_eq (by decide)] at found
      cases found
      simp
  | succ number =>
      have inner := unclosed.inner (number + 1) label (Nat.le_add_left _ _) found
      simp [inner.1]

theorem kind_ne_finish {number : Nat} {label : NodeLabel}
    (found : draft.nodes[number]? = some label) : label.kind ≠ .finish := by
  cases number with
  | zero =>
      rw [unclosed.extends_opening.getElem?_eq (by decide)] at found
      cases found
      simp
  | succ number => exact (unclosed.inner (number + 1) label (Nat.le_add_left _ _) found).2

variable {linkEnd : Bool}

theorem closed_kind_start {number : Nat} {label : NodeLabel}
    (found : (close linkEnd draft last).nodes[number]? = some label) :
    label.kind = .start ↔ number = 0 := by
  rcases close_node_cases found with ⟨-, old⟩ | ⟨rfl, rfl⟩
  · exact unclosed.kind_start old
  · have size := unclosed.size
    simp only [NodeLabel.finish_kind, reduceCtorEq, false_iff]
    omega

theorem closed_kind_finish {number : Nat} {label : NodeLabel}
    (found : (close linkEnd draft last).nodes[number]? = some label) :
    label.kind = .finish ↔ number = draft.nodes.length := by
  rcases close_node_cases found with ⟨bound, old⟩ | ⟨rfl, rfl⟩
  · exact iff_of_false (unclosed.kind_ne_finish old) bound.ne
  · simp

theorem closed_edge {edge : Edge Nat} (member : edge ∈ (close linkEnd draft last).edges) :
    edge.source < draft.nodes.length ∧ 0 < edge.target ∧ edge.target ≤ draft.nodes.length := by
  have size := unclosed.size
  have newest := unclosed.ends.newest
  rw [close_edges, List.mem_append] at member
  rcases member with old | added
  · have onward := unclosed.onward old
    exact ⟨onward.source_lt, unclosed.target_pos old, onward.target_lt.le⟩
  · cases linkEnd with
    | false => cases added
    | true =>
        obtain rfl := List.mem_singleton.mp added
        exact ⟨Nat.lt_of_succ_le newest.le, Nat.zero_lt_of_lt size, Nat.le_refl _⟩

end Unclosed
end Trace

namespace FlowGraph

def endEdge (graph : FlowGraph) : Edge String :=
  { source := Trace.nodeId (graph.nodes.length - 2)
    target := Trace.nodeId (graph.nodes.length - 1)
    kind := .sequence }

def linked (graph : FlowGraph) : FlowGraph :=
  { graph with edges := graph.edges ++ [graph.endEdge] }

structure WellFormed (graph : FlowGraph) (linkEnd : Bool) : Prop where
  size : 2 < graph.nodes.length
  ids : ∀ number node, graph.nodes[number]? = some node → node.id = Trace.nodeId number
  unique : (graph.nodes.map (·.id)).Nodup
  start : ∀ number node, graph.nodes[number]? = some node → (node.kind = .start ↔ number = 0)
  finish : ∀ number node, graph.nodes[number]? = some node →
    (node.kind = .finish ↔ number + 1 = graph.nodes.length)
  endpoints : ∀ edge ∈ graph.edges,
    edge.source ∈ graph.nodes.map (·.id) ∧ edge.target ∈ graph.nodes.map (·.id)
  /-- No edge enters the start. -/
  initial : ∀ edge ∈ graph.edges, edge.target ≠ Trace.nodeId 0
  /-- No edge leaves the end. -/
  final : ∀ edge ∈ graph.edges, edge.source ≠ Trace.nodeId (graph.nodes.length - 1)
  /-- One edge enters the end if it is linked, and none otherwise. -/
  intoEnd : graph.edges.filter (·.target = Trace.nodeId (graph.nodes.length - 1)) =
    if linkEnd then [graph.endEdge] else []
  lastEdge : linkEnd = true → graph.edges.getLast? = some graph.endEdge

end FlowGraph

namespace Trace

variable {draft : Draft} {last : Nat}

theorem nodeId_mem_ids {entry : String} {number : Nat} :
    nodeId number ∈ (toGraph draft entry).nodes.map (·.id) ↔ number < draft.nodes.length := by
  rw [toGraph_ids, List.mem_map_of_injective nodeId_injective, List.mem_range]

theorem toGraph_node {entry : String} {number : Nat} {node : FlowNode}
    (found : (toGraph draft entry).nodes[number]? = some node) :
    node.id = nodeId number ∧ draft.nodes[number]? = some node.toNodeLabel := by
  rw [toGraph_getElem?, Option.map_eq_some_iff] at found
  obtain ⟨label, foundLabel, rfl⟩ := found
  exact ⟨rfl, foundLabel⟩

@[simp] theorem toGraph_close_length (linkEnd : Bool) (entry : String) :
    (toGraph (close linkEnd draft last) entry).nodes.length = draft.nodes.length + 1 := by
  simp [toGraph_length]

theorem Unclosed.into_end (unclosed : Unclosed draft last) (linkEnd : Bool) (entry : String) :
    (toGraph (close linkEnd draft last) entry).edges.filter
        (·.target = nodeId draft.nodes.length) =
      if linkEnd then
        [{ source := nodeId last, target := nodeId draft.nodes.length, kind := .sequence }]
      else [] := by
  have none : (draft.edges.map (·.map nodeId)).filter (·.target = nodeId draft.nodes.length) =
      [] := by
    rw [List.filter_eq_nil_iff]
    intro edge member
    obtain ⟨drawn, drawnMember, rfl⟩ := List.mem_map.mp member
    have below := (unclosed.onward drawnMember).target_lt
    simpa [Edge.map, nodeId_injective.eq_iff] using below.ne
  cases linkEnd with
  | false => simpa [toGraph] using none
  | true => simpa [toGraph, Edge.map] using none

/-- Linking the end adds one edge and changes nothing else. -/
theorem Unclosed.toGraph_linked (unclosed : Unclosed draft last) (entry : String) :
    toGraph (close true draft last) entry = (toGraph (close false draft last) entry).linked := by
  have newest := unclosed.ends.newest
  have index : draft.nodes.length + 1 - 2 = last := by omega
  simp [toGraph, FlowGraph.linked, FlowGraph.endEdge, Edge.map, index]

theorem Unclosed.toGraph_wellFormed (unclosed : Unclosed draft last) (linkEnd : Bool)
    (entry : String) : (toGraph (close linkEnd draft last) entry).WellFormed linkEnd where
  size := by
    rw [toGraph_close_length]
    exact Nat.succ_lt_succ unclosed.size
  ids := fun _ _ found => (toGraph_node found).1
  unique := by
    rw [toGraph_ids]
    exact List.nodup_range.map nodeId_injective
  start := fun _ _ found => unclosed.closed_kind_start (toGraph_node found).2
  finish := by
    intro number node found
    rw [unclosed.closed_kind_finish (toGraph_node found).2, toGraph_close_length]
    exact (Nat.add_right_cancel_iff).symm
  endpoints := by
    intro edge member
    obtain ⟨drawn, drawnMember, rfl⟩ := mem_toGraph_edges.mp member
    obtain ⟨source, -, target⟩ := unclosed.closed_edge drawnMember
    constructor
    · exact nodeId_mem_ids.mpr (by simpa using Nat.lt_succ_of_lt source)
    · exact nodeId_mem_ids.mpr (by simpa using Nat.lt_succ_of_le target)
  initial := by
    intro edge member
    obtain ⟨drawn, drawnMember, rfl⟩ := mem_toGraph_edges.mp member
    have positive := (unclosed.closed_edge drawnMember).2.1
    exact nodeId_injective.ne positive.ne'
  final := by
    intro edge member
    obtain ⟨drawn, drawnMember, rfl⟩ := mem_toGraph_edges.mp member
    have below := (unclosed.closed_edge drawnMember).1
    rw [toGraph_close_length]
    exact nodeId_injective.ne below.ne
  intoEnd := by
    have newest := unclosed.ends.newest
    have index : draft.nodes.length + 1 - 2 = last := by omega
    simpa [FlowGraph.endEdge, index] using unclosed.into_end linkEnd entry
  lastEdge := by
    have newest := unclosed.ends.newest
    have index : draft.nodes.length + 1 - 2 = last := by omega
    rintro rfl
    simp [FlowGraph.endEdge, index, toGraph, Edge.map]

end Trace

section Lookup

variable {graph : FlowGraph} {id : String}

theorem FlowGraph.node_total (present : id ∈ graph.nodes.map (·.id)) :
    ∃ node, graph.node id = .ok node ∧ node.id = id := by
  unfold node
  cases found : graph.nodes.find? (·.id = id) with
  | none =>
      obtain ⟨node, member, same⟩ := List.mem_map.mp present
      exact absurd same (by simpa using List.find?_eq_none.mp found node member)
  | some node => exact ⟨node, rfl, by simpa using List.find?_some found⟩

theorem Printout.titleOf_total (present : id ∈ graph.nodes.map (·.id)) :
    ∃ title, Printout.titleOf graph id = .ok title := by
  unfold titleOf
  cases found : graph.nodes.reverse.find? (·.id = id) with
  | none =>
      obtain ⟨node, member, same⟩ := List.mem_map.mp present
      exact absurd same
        (by simpa using List.find?_eq_none.mp found node (List.mem_reverse.mpr member))
  | some node => exact ⟨_, rfl⟩

theorem Printout.edge_total {edge : Edge String}
    (present : edge.source ∈ graph.nodes.map (·.id) ∧ edge.target ∈ graph.nodes.map (·.id)) :
    ∃ line, Printout.edge graph edge = .ok line := by
  obtain ⟨source, titledSource⟩ := titleOf_total present.1
  obtain ⟨target, titledTarget⟩ := titleOf_total present.2
  exact ⟨_, bind_eq_ok.mpr ⟨source, titledSource, bind_eq_ok.mpr ⟨target, titledTarget, rfl⟩⟩⟩

theorem Printout.graph_total
    (endpoints : ∀ edge ∈ graph.edges,
      edge.source ∈ graph.nodes.map (·.id) ∧ edge.target ∈ graph.nodes.map (·.id)) :
    ∃ text, Printout.graph graph = .ok text := by
  obtain ⟨lines, printed⟩ := mapM_total fun edge member => edge_total (endpoints edge member)
  exact ⟨_, bind_eq_ok.mpr ⟨lines, printed, rfl⟩⟩

/-- What is looked up in a graph by its edges is found. -/
structure FlowGraph.Readable (graph : FlowGraph) : Prop where
  nodes : ∀ edge ∈ graph.edges, ∃ source target,
    graph.node edge.source = .ok source ∧ graph.node edge.target = .ok target
  printout : ∃ text, Printout.graph graph = .ok text

theorem FlowGraph.WellFormed.readable {linkEnd : Bool} (wellFormed : graph.WellFormed linkEnd) :
    graph.Readable where
  nodes := by
    intro edge member
    obtain ⟨source, foundSource, -⟩ := node_total (wellFormed.endpoints edge member).1
    obtain ⟨target, foundTarget, -⟩ := node_total (wellFormed.endpoints edge member).2
    exact ⟨source, target, foundSource, foundTarget⟩
  printout := Printout.graph_total wellFormed.endpoints

end Lookup

namespace Trace

theorem graph_wellFormed (map : FunctionMap) (supported : map.isSupported = true)
    (entry : String) :
    ∃ unlinked : FlowGraph,
      graph map false entry = .ok unlinked ∧ graph map true entry = .ok unlinked.linked ∧
      unlinked.WellFormed false ∧ unlinked.linked.WellFormed true ∧
      unlinked.Readable ∧ unlinked.linked.Readable := by
  obtain ⟨draft, last, trail, -, traced, drawn⟩ := graph_total supported entry
  have unclosed := unclosed_of_draws drawn
  have unlinked := unclosed.toGraph_wellFormed false entry
  have linked := unclosed.toGraph_wellFormed true entry
  have tracedLinked := traced true
  rw [unclosed.toGraph_linked] at linked tracedLinked
  exact ⟨_, traced false, tracedLinked, unlinked, linked, unlinked.readable, linked.readable⟩

theorem mutualCalls_wellFormed :
    FunctionMap.mutualCalls.isSupported = true ∧
    ∃ unlinked : FlowGraph,
      graph FunctionMap.mutualCalls false "A.f" = .ok unlinked ∧
      graph FunctionMap.mutualCalls true "A.f" = .ok unlinked.linked ∧
      unlinked.WellFormed false ∧ unlinked.linked.WellFormed true ∧
      unlinked.Readable ∧ unlinked.linked.Readable :=
  ⟨by decide, graph_wellFormed FunctionMap.mutualCalls (by decide) "A.f"⟩

end Trace
end MethodFlow
