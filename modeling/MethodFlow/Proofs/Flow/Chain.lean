import MethodFlow.Proofs.Flow.WellFormed

/-!
Where no statement has a body, a trace is a chain: each node is linked to the one drawn next, and
nothing branches.
-/
namespace MethodFlow

def Statement.isFlat : Statement → Bool
  | .call _ _ _ => true
  | .branch _ _ whenTrue whenFalse => whenTrue.isEmpty && whenFalse.isEmpty
  | .loop _ _ _ body => body.isEmpty
  | .unsupported _ => false

def FunctionMap.isFlat (map : FunctionMap) : Bool :=
  map.entries.all fun entry => entry.2.all Statement.isFlat

def Work.IsFlat : Work → Prop
  | .method _ => True
  | .statement item => item.isFlat = true
  | .body items => items.all Statement.isFlat = true

theorem Statement.isFlat_branch {condition : String} {line : Int}
    {whenTrue whenFalse : List Statement} :
    (branch condition line whenTrue whenFalse).isFlat = true ↔ whenTrue = [] ∧ whenFalse = [] := by
  simp [isFlat]

theorem Statement.isFlat_loop {kind : LoopKind} {condition : String} {line : Int}
    {body : List Statement} : (loop kind condition line body).isFlat = true ↔ body = [] := by
  simp [isFlat]

theorem Statement.areSupported_of_flat {statements : List Statement}
    (flat : statements.all isFlat = true) : areSupported statements = true := by
  induction statements with
  | nil => rfl
  | cons statement statements ih =>
      rw [List.all_cons, Bool.and_eq_true] at flat
      have rest := ih flat.2
      cases statement with
      | call name line receiver => simpa [areSupported, isSupported] using rest
      | branch condition line whenTrue whenFalse =>
          obtain ⟨rfl, rfl⟩ := isFlat_branch.mp flat.1
          simpa [areSupported, isSupported] using rest
      | loop kind condition line body =>
          obtain rfl := isFlat_loop.mp flat.1
          simpa [areSupported, isSupported] using rest
      | unsupported kind => cases flat.1

namespace FunctionMap

variable {map : FunctionMap}

theorem isSupported_of_flat (flat : map.isFlat = true) : map.isSupported = true := by
  rw [isFlat, List.all_eq_true] at flat
  rw [isSupported, List.all_eq_true]
  exact fun entry member => Statement.areSupported_of_flat (flat entry member)

theorem body_flat (flat : map.isFlat = true) (key : String) :
    (map.body key).all Statement.isFlat = true :=
  body_of_entries (List.all · Statement.isFlat) rfl flat key

end FunctionMap

def EdgeKind.intoBodies : List EdgeKind :=
  [.ifTrue, .ifFalse, .loopEntry]

def Edge.IsPlain {ι : Type} (edge : Edge ι) : Prop :=
  edge.kind ∉ EdgeKind.intoBodies ∧ edge.branchLabel = none

namespace Draft

/-- Each node is linked to the next one, and leads nowhere else. -/
structure IsChain (draft : Draft) : Prop where
  links : draft.edges.map (fun edge => (edge.source, edge.target)) =
    (List.range (draft.nodes.length - 1)).map fun number => (number, number + 1)
  plain : ∀ edge ∈ draft.edges, edge.IsPlain

theorem IsChain.append {draft draft₁ : Draft} {parent : Nat} {node : NodeLabel} {kind : EdgeKind}
    (chain : draft.IsChain) (newest : parent + 1 = draft.nodes.length)
    (nodes : draft₁.nodes = draft.nodes ++ [node])
    (edges : draft₁.edges =
      draft.edges ++ [{ source := parent, target := draft.nodes.length, kind }])
    (plain : kind ∉ EdgeKind.intoBodies) : draft₁.IsChain where
  links := by
    have length : draft₁.nodes.length - 1 = draft.nodes.length - 1 + 1 := by
      simp only [nodes, List.length_append, List.length_singleton]
      omega
    have index : draft.nodes.length - 1 = parent := by omega
    rw [edges, length, List.range_succ, List.map_append, List.map_append, chain.links]
    simp [index, newest]
  plain := by
    intro edge member
    rw [edges, List.mem_append, List.mem_singleton] at member
    rcases member with old | rfl
    · exact chain.plain edge old
    · exact ⟨plain, rfl⟩

theorem IsChain.follow {draft : Draft} {parent : Nat} {kind : EdgeKind} (chain : draft.IsChain)
    (newest : parent + 1 = draft.nodes.length) (plain : kind ∉ EdgeKind.intoBodies)
    (node : NodeLabel) : (draft.follow parent kind node).1.IsChain :=
  chain.append newest (follow_nodes _ _ _ _) (follow_edges _ _ _ _) plain

theorem IsChain.leave {draft : Draft} {head : Nat} (chain : draft.IsChain)
    (newest : head + 1 = draft.nodes.length) : (draft.leave head head).IsChain := by
  have edges : (draft.leave head head).edges = draft.edges ++
      [{ source := head, target := draft.nodes.length, kind := .loopExit }] := by
    simp [backEdges]
  exact chain.append newest (leave_nodes _ _ _) edges (by decide)

end Draft

theorem Draws.isChain {map : FunctionMap} {work : Work} {draft draft' : Draft} {parent last : Nat}
    {trail : List String} (drawn : Draws map work draft parent trail draft' last)
    (flatMap : map.isFlat = true) (flat : work.IsFlat) (chain : draft.IsChain)
    (newest : parent + 1 = draft.nodes.length) : draft'.IsChain := by
  induction drawn with
  | reference met => exact chain.follow newest (by decide) _
  | unfold fresh body ih =>
      apply ih (map.body_flat flatMap _) _ (by simp)
      exact chain.append newest (Draft.enter_nodes _ _ _) (Draft.enter_edges _ _ _) (by decide)
  | call resolved target ih => exact ih trivial chain newest
  | leaf unresolved => exact chain.follow newest (by decide) _
  | bareBranch => exact chain.follow newest (by decide) _
  | branch bodies onTrue onFalse ihTrue ihFalse =>
      have bare := Statement.isFlat_branch.mp flat
      rcases bodies with proper | proper
      · exact absurd bare.1 proper
      · exact absurd bare.2 proper
  | loop body ih =>
      obtain rfl := Statement.isFlat_loop.mp flat
      obtain ⟨-, rfl, rfl⟩ := body.of_nil
      -- An empty body ends at the head of the loop, so nothing leads back and the exit comes next.
      exact (chain.follow newest (by decide) _).leave (by simp)
  | nil => exact chain
  | cons first rest ihFirst ihRest =>
      simp only [Work.IsFlat, List.all_cons, Bool.and_eq_true] at flat
      rcases first.ends with bare | ends
      · cases bare
      · exact ihRest flat.2 (ihFirst flat.1 chain newest) ends.newest

/-- Before its end is linked, each node of the graph but the end is linked to the next one. -/
structure FlowGraph.IsChain (graph : FlowGraph) : Prop where
  size : 2 < graph.nodes.length
  ids : graph.nodes.map (·.id) = (List.range graph.nodes.length).map Trace.nodeId
  links : graph.edges.map (fun edge => (edge.source, edge.target)) =
    (List.range (graph.nodes.length - 2)).map fun number =>
      (Trace.nodeId number, Trace.nodeId (number + 1))
  plain : ∀ edge ∈ graph.edges, edge.IsPlain

theorem FlowGraph.endEdge_isPlain (graph : FlowGraph) : graph.endEdge.IsPlain :=
  ⟨by simp [endEdge, EdgeKind.intoBodies], rfl⟩

theorem FlowGraph.IsChain.linked_plain {graph : FlowGraph} (chain : graph.IsChain) :
    ∀ edge ∈ graph.linked.edges, edge.IsPlain := by
  intro edge member
  rcases List.mem_append.mp member with old | added
  · exact chain.plain edge old
  · obtain rfl := List.mem_singleton.mp added
    exact graph.endEdge_isPlain

namespace Trace

theorem Unclosed.toGraph_isChain {draft : Draft} {last : Nat} (unclosed : Unclosed draft last)
    (chain : draft.IsChain) (entry : String) :
    (toGraph (close false draft last) entry).IsChain where
  size := (unclosed.toGraph_wellFormed false entry).size
  ids := by rw [toGraph_ids, toGraph_length]
  links := by
    have edges : (toGraph (close false draft last) entry).edges.map
        (fun edge => (edge.source, edge.target)) =
        (draft.edges.map fun edge => (edge.source, edge.target)).map
          (Prod.map nodeId nodeId) := by
      simp [toGraph, Edge.map, Function.comp_def]
    rw [edges, chain.links, toGraph_close_length, List.map_map]
    rfl
  plain := by
    intro edge member
    obtain ⟨drawn, drawnMember, rfl⟩ := mem_toGraph_edges.mp member
    exact chain.plain drawn (by simpa using drawnMember)

theorem opening_isChain : opening.IsChain where
  links := rfl
  plain := fun _ member => nomatch member

/-- Where no statement has a body, each entry gives a chain. -/
theorem graph_of_flat {map : FunctionMap} (flat : map.isFlat = true) (entry : String) :
    ∃ unlinked : FlowGraph,
      graph map false entry = .ok unlinked ∧ graph map true entry = .ok unlinked.linked ∧
      unlinked.IsChain := by
  obtain ⟨draft, last, trail, -, traced, drawn⟩ :=
    graph_total (FunctionMap.isSupported_of_flat flat) entry
  have unclosed := unclosed_of_draws drawn
  have chain := drawn.isChain flat trivial opening_isChain rfl
  have tracedLinked := traced true
  rw [unclosed.toGraph_linked] at tracedLinked
  exact ⟨_, traced false, tracedLinked, unclosed.toGraph_isChain chain entry⟩

end Trace
end MethodFlow
