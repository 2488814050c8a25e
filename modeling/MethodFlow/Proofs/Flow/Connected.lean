import MethodFlow.Proofs.Flow.WellFormed
import Mathlib.Logic.Relation

/-!
A traced graph hangs together: every node but the end can be reached from the start, and the end, if
it is linked, from every node. Edges lead to later nodes, except back to the heads of loops, so that
without these the graph has no cycles.
-/
namespace MethodFlow

namespace Draft

def Leads (draft : Draft) (source target : Nat) : Prop :=
  ∃ edge ∈ draft.edges, edge.source = source ∧ edge.target = target

def Path (draft : Draft) : Nat → Nat → Prop :=
  Relation.ReflTransGen draft.Leads

theorem path_of_mem {draft : Draft} {edge : Edge Nat} (member : edge ∈ draft.edges) :
    draft.Path edge.source edge.target :=
  .single ⟨edge, member, rfl, rfl⟩

theorem path_of_branchEdges {draft : Draft} {decision last merge : Nat} {kind : EdgeKind}
    {branchLabel : String} {body : List Statement} (proper : body ≠ [])
    (drawn : branchEdges decision last merge kind branchLabel body ⊆ draft.edges) :
    draft.Path last merge := by
  have member : { source := last, target := merge, kind := .sequence } ∈ draft.edges := by
    apply drawn
    simp [branchEdges, proper]
  exact path_of_mem member

theorem Extends.path {draft draft' : Draft} (grown : draft.Extends draft') {first second : Nat}
    (path : draft.Path first second) : draft'.Path first second := by
  have edges : draft.Leads ≤ draft'.Leads := by
    rintro source target ⟨edge, member, ends⟩
    exact ⟨edge, grown.mem_edges member, ends⟩
  exact Relation.ReflTransGen.mono edges first second path

/-- The nodes that `draft'` has more than `draft` lie on ways from `parent` to `last`. -/
structure Connects (draft : Draft) (parent : Nat) (draft' : Draft) (last : Nat) : Prop where
  through : draft'.Path parent last
  reached : ∀ number, draft.nodes.length ≤ number → number < draft'.nodes.length →
    draft'.Path parent number
  leaving : ∀ number, draft.nodes.length ≤ number → number < draft'.nodes.length →
    draft'.Path number last

namespace Connects

variable {draft draft₁ draft₂ : Draft} {parent next last : Nat}

theorem refl : draft.Connects parent draft parent where
  through := .refl
  reached := fun _ new bound => absurd bound (Nat.not_lt.mpr new)
  leaving := fun _ new bound => absurd bound (Nat.not_lt.mpr new)

theorem trans (first : draft.Connects parent draft₁ next)
    (second : draft₁.Connects next draft₂ last) (grown : draft₁.Extends draft₂) :
    draft.Connects parent draft₂ last where
  through := (grown.path first.through).trans second.through
  reached := by
    intro number new bound
    by_cases early : number < draft₁.nodes.length
    · exact grown.path (first.reached number new early)
    · exact (grown.path first.through).trans (second.reached number (Nat.le_of_not_lt early) bound)
  leaving := by
    intro number new bound
    by_cases early : number < draft₁.nodes.length
    · exact (grown.path (first.leaving number new early)).trans second.through
    · exact second.leaving number (Nat.le_of_not_lt early) bound

theorem of_append {node : NodeLabel} {kind : EdgeKind}
    (nodes : draft₁.nodes = draft.nodes ++ [node])
    (edges : draft₁.edges =
      draft.edges ++ [{ source := parent, target := draft.nodes.length, kind }]) :
    draft.Connects parent draft₁ draft.nodes.length := by
  have length : draft₁.nodes.length = draft.nodes.length + 1 := by simp [nodes]
  have step : draft₁.Path parent draft.nodes.length := by
    have member : { source := parent, target := draft.nodes.length, kind } ∈ draft₁.edges := by
      simp [edges]
    exact path_of_mem member
  refine ⟨step, ?_, ?_⟩
  · intro number new bound
    obtain rfl : number = draft.nodes.length := by omega
    exact step
  · intro number new bound
    obtain rfl : number = draft.nodes.length := by omega
    exact .refl

theorem follow (kind : EdgeKind) (node : NodeLabel) :
    draft.Connects parent (draft.follow parent kind node).1 draft.nodes.length :=
  of_append (draft.follow_nodes _ _ _) (draft.follow_edges _ _ _)

theorem enter (fullName : String) :
    draft.Connects parent (draft.enter parent fullName).1 draft.nodes.length :=
  of_append (draft.enter_nodes _ _) (draft.enter_edges _ _)

theorem meet {decision trueEnd falseEnd : Nat} {whenTrue whenFalse : List Statement}
    (bodies : whenTrue ≠ [] ∨ whenFalse ≠ [])
    (onTrue : draft.Connects decision draft₁ trueEnd)
    (trueProper : draft.nodes.length < draft₁.nodes.length → whenTrue ≠ [])
    (onFalse : draft₁.Connects decision draft₂ falseEnd) (grownFalse : draft₁.Extends draft₂)
    (falseProper : draft₁.nodes.length < draft₂.nodes.length → whenFalse ≠ []) :
    draft.Connects decision (draft₂.meet decision trueEnd falseEnd whenTrue whenFalse)
      draft₂.nodes.length := by
  have met := draft₂.meet_extends decision trueEnd falseEnd whenTrue whenFalse
  have grown := grownFalse.trans met
  have trueOut (proper : whenTrue ≠ []) :
      (draft₂.meet decision trueEnd falseEnd whenTrue whenFalse).Path trueEnd
        draft₂.nodes.length :=
    path_of_branchEdges proper fun _ member =>
      List.mem_append_right _ (List.mem_append_left _ member)
  have falseOut (proper : whenFalse ≠ []) :
      (draft₂.meet decision trueEnd falseEnd whenTrue whenFalse).Path falseEnd
        draft₂.nodes.length :=
    path_of_branchEdges proper fun _ member =>
      List.mem_append_right _ (List.mem_append_right _ member)
  have through : (draft₂.meet decision trueEnd falseEnd whenTrue whenFalse).Path decision
      draft₂.nodes.length := by
    rcases bodies with proper | proper
    · exact (grown.path onTrue.through).trans (trueOut proper)
    · exact (met.path onFalse.through).trans (falseOut proper)
  refine ⟨through, ?_, ?_⟩
  · intro number new bound
    rw [meet_nodes, List.length_append, List.length_singleton] at bound
    by_cases inTrue : number < draft₁.nodes.length
    · exact grown.path (onTrue.reached number new inTrue)
    · by_cases inFalse : number < draft₂.nodes.length
      · exact met.path (onFalse.reached number (Nat.le_of_not_lt inTrue) inFalse)
      · obtain rfl : number = draft₂.nodes.length := by omega
        exact through
  · intro number new bound
    rw [meet_nodes, List.length_append, List.length_singleton] at bound
    by_cases inTrue : number < draft₁.nodes.length
    · -- A node of this branch shows that it has a body, so an edge leads from its end to the merge.
      have proper := trueProper (new.trans_lt inTrue)
      exact (grown.path (onTrue.leaving number new inTrue)).trans (trueOut proper)
    · by_cases inFalse : number < draft₂.nodes.length
      · have late := Nat.le_of_not_lt inTrue
        have proper := falseProper (late.trans_lt inFalse)
        exact (met.path (onFalse.leaving number late inFalse)).trans (falseOut proper)
      · obtain rfl : number = draft₂.nodes.length := by omega
        exact .refl

theorem leave {head bodyEnd : Nat} (body : draft.Connects head draft₁ bodyEnd) :
    draft.Connects head (draft₁.leave head bodyEnd) draft₁.nodes.length := by
  have left := draft₁.leave_extends head bodyEnd
  have out : (draft₁.leave head bodyEnd).Path head draft₁.nodes.length := by
    have member : { source := head, target := draft₁.nodes.length, kind := .loopExit } ∈
        (draft₁.leave head bodyEnd).edges := by simp
    exact path_of_mem member
  have back : (draft₁.leave head bodyEnd).Path bodyEnd head := by
    by_cases bare : bodyEnd = head
    · rw [bare]
      exact .refl
    · have member : { source := bodyEnd, target := head, kind := .loopExit } ∈
          (draft₁.leave head bodyEnd).edges := by simp [backEdges, bare]
      exact path_of_mem member
  refine ⟨out, ?_, ?_⟩
  · intro number new bound
    rw [leave_nodes, List.length_append, List.length_singleton] at bound
    by_cases inBody : number < draft₁.nodes.length
    · exact left.path (body.reached number new inBody)
    · obtain rfl : number = draft₁.nodes.length := by omega
      exact out
  · intro number new bound
    rw [leave_nodes, List.length_append, List.length_singleton] at bound
    by_cases inBody : number < draft₁.nodes.length
    · exact ((left.path (body.leaving number new inBody)).trans back).trans out
    · obtain rfl : number = draft₁.nodes.length := by omega
      exact .refl

end Connects
end Draft

namespace Draws

variable {map : FunctionMap} {work : Work} {draft draft' : Draft} {parent last : Nat}
  {trail : List String}

theorem body_proper {statements : List Statement}
    (drawn : Draws map (.body statements) draft parent trail draft' last)
    (grown : draft.nodes.length < draft'.nodes.length) : statements ≠ [] := by
  rintro rfl
  obtain ⟨-, rfl, -⟩ := drawn.of_nil
  exact Nat.lt_irrefl _ grown

theorem connects (drawn : Draws map work draft parent trail draft' last) :
    draft.Connects parent draft' last := by
  induction drawn with
  | reference met => exact .follow _ _
  | unfold fresh body ih => exact .trans (.enter _) ih body.draft_extends
  | call resolved target ih => exact ih
  | leaf unresolved => exact .follow _ _
  | bareBranch => exact .follow _ _
  | branch bodies onTrue onFalse ihTrue ihFalse =>
      have grown := onTrue.draft_extends.trans onFalse.draft_extends
      refine .trans (.follow _ _) ?_ (grown.trans (Draft.meet_extends _ _ _ _ _ _))
      exact .meet bodies ihTrue onTrue.body_proper ihFalse onFalse.draft_extends
        onFalse.body_proper
  | loop body ih =>
      exact .trans (.follow _ _) (.leave ih)
        (body.draft_extends.trans (Draft.leave_extends _ _ _))
  | nil => exact .refl
  | cons first rest ihFirst ihRest => exact ihFirst.trans ihRest rest.draft_extends

end Draws

namespace FlowGraph

def Leads (graph : FlowGraph) (source target : String) : Prop :=
  ∃ edge ∈ graph.edges, edge.source = source ∧ edge.target = target

def Path (graph : FlowGraph) : String → String → Prop :=
  Relation.ReflTransGen graph.Leads

def IsBack (graph : FlowGraph) (edge : Edge String) : Prop :=
  edge.kind = .loopExit ∧ ∃ node ∈ graph.nodes, node.id = edge.target ∧ node.kind = .loop

/-- The edges that are left without those back to the heads of loops. -/
def LeadsAhead (graph : FlowGraph) (source target : String) : Prop :=
  ∃ edge ∈ graph.edges, ¬ graph.IsBack edge ∧ edge.source = source ∧ edge.target = target

structure Connected (graph : FlowGraph) (linkEnd : Bool) (start finish : String) : Prop where
  reached : ∀ node ∈ graph.nodes, node.kind ≠ .finish → graph.Path start node.id
  through : linkEnd = true → ∀ node ∈ graph.nodes,
    graph.Path start node.id ∧ graph.Path node.id finish
  /-- Only edges back to the heads of loops do not lead from an earlier node to a later one. -/
  numbered : ∀ edge ∈ graph.edges, ∃ first second, edge.source = Trace.nodeId first ∧
    edge.target = Trace.nodeId second ∧ first < graph.nodes.length ∧
    second < graph.nodes.length ∧ (first < second ↔ ¬ graph.IsBack edge)
  acyclic : ∀ id, ¬ Relation.TransGen graph.LeadsAhead id id

end FlowGraph

namespace Trace

theorem toGraph_path {draft : Draft} {entry : String} {first second : Nat}
    (path : draft.Path first second) :
    (toGraph draft entry).Path (nodeId first) (nodeId second) := by
  refine Relation.ReflTransGen.lift nodeId ?_ _ _ path
  rintro source target ⟨edge, member, rfl, rfl⟩
  exact ⟨edge.map nodeId, mem_toGraph_edges.mpr ⟨edge, member, rfl⟩, rfl, rfl⟩

theorem toGraph_isBack {draft : Draft} {entry : String} {edge : Edge Nat} :
    (toGraph draft entry).IsBack (edge.map nodeId) ↔ draft.IsBack edge := by
  constructor
  · rintro ⟨kind, node, member, same, isLoop⟩
    obtain ⟨number, found⟩ := List.mem_iff_getElem?.mp member
    obtain ⟨named, foundLabel⟩ := toGraph_node found
    obtain rfl : number = edge.target := nodeId_injective (named.symm.trans same)
    exact ⟨kind, node.toNodeLabel, foundLabel, isLoop⟩
  · rintro ⟨kind, label, found, isLoop⟩
    have foundNode : (toGraph draft entry).nodes[edge.target]? =
        some { label with id := nodeId edge.target } := by
      rw [toGraph_getElem?, found]
      rfl
    exact ⟨kind, _, List.mem_of_getElem? foundNode, rfl, isLoop⟩

theorem close_extends (linkEnd : Bool) (draft : Draft) (last : Nat) :
    draft.Extends (close linkEnd draft last) := by
  refine ⟨?_, ?_⟩
  · rw [close_nodes]
    exact List.prefix_append _ _
  · rw [close_edges]
    exact List.prefix_append _ _

variable {map : FunctionMap} {entry : String} {trail : List String} {draft : Draft} {last : Nat}

theorem unclosed_path (drawn : Draws map (.method entry) opening 0 trail draft last) {number : Nat}
    (bound : number < draft.nodes.length) : draft.Path 0 number ∧ draft.Path number last := by
  have connects := drawn.connects
  cases number with
  | zero => exact ⟨.refl, connects.through⟩
  | succ number =>
      have new : opening.nodes.length ≤ number + 1 := Nat.le_add_left _ _
      exact ⟨connects.reached _ new bound, connects.leaving _ new bound⟩

/-- An edge of a closed trace leads to an earlier node, or to its own source, only if it leads back
to the head of a loop. -/
theorem closed_edge_back (unclosed : Unclosed draft last) {linkEnd : Bool} {edge : Edge Nat}
    (member : edge ∈ (close linkEnd draft last).edges) :
    edge.source < edge.target ↔ ¬ (close linkEnd draft last).IsBack edge := by
  have newest := unclosed.ends.newest
  rw [close_edges, List.mem_append] at member
  rcases member with old | added
  · have onward := unclosed.onward old
    rw [(close_extends linkEnd draft last).isBack_iff onward.target_lt, ← onward.back, Nat.not_le]
  · cases linkEnd with
    | false => cases added
    | true =>
        obtain rfl := List.mem_singleton.mp added
        refine iff_of_true (Nat.lt_of_succ_le newest.le) ?_
        rintro ⟨kind, -⟩
        cases kind

theorem leadsAhead_lt (unclosed : Unclosed draft last) {linkEnd : Bool} {source target : String}
    (leads : (toGraph (close linkEnd draft last) entry).LeadsAhead source target) :
    ∃ first second, source = nodeId first ∧ target = nodeId second ∧ first < second := by
  obtain ⟨edge, member, ahead, rfl, rfl⟩ := leads
  obtain ⟨drawn, drawnMember, rfl⟩ := mem_toGraph_edges.mp member
  rw [toGraph_isBack] at ahead
  exact ⟨drawn.source, drawn.target, rfl, rfl, (closed_edge_back unclosed drawnMember).mpr ahead⟩

theorem transGen_lt (unclosed : Unclosed draft last) {linkEnd : Bool} {source target : String}
    (way : Relation.TransGen (toGraph (close linkEnd draft last) entry).LeadsAhead source target) :
    ∃ first second, source = nodeId first ∧ target = nodeId second ∧ first < second := by
  induction way with
  | single leads => exact leadsAhead_lt unclosed leads
  | tail way leads ih =>
      obtain ⟨first, second, rfl, same, rising⟩ := ih
      obtain ⟨third, fourth, sameThird, rfl, risingOn⟩ := leadsAhead_lt unclosed leads
      obtain rfl : second = third := nodeId_injective (same.symm.trans sameThird)
      exact ⟨first, fourth, rfl, rfl, rising.trans risingOn⟩

theorem close_head? (unclosed : Unclosed draft last) (linkEnd : Bool) :
    (toGraph (close linkEnd draft last) entry).nodes.head? =
      some { NodeLabel.start with id := nodeId 0 } := by
  have old : (close linkEnd draft last).nodes[0]? = some .start := by
    have grown := unclosed.extends_opening.trans (close_extends linkEnd draft last)
    rw [grown.getElem?_eq (by decide)]
    rfl
  rw [List.head?_eq_getElem?, toGraph_getElem?, old]
  rfl

theorem close_getLast? (linkEnd : Bool) :
    (toGraph (close linkEnd draft last) entry).nodes.getLast? =
      some { NodeLabel.finish with id := nodeId draft.nodes.length } := by
  have new : (close linkEnd draft last).nodes[draft.nodes.length]? = some .finish := by simp
  rw [List.getLast?_eq_getElem?, toGraph_close_length, Nat.add_sub_cancel, toGraph_getElem?, new]
  rfl

theorem linked_path : (close true draft last).Path last draft.nodes.length := by
  have member : { source := last, target := draft.nodes.length, kind := .sequence } ∈
      (close true draft last).edges := by simp
  exact Draft.path_of_mem member

theorem toGraph_connected (drawn : Draws map (.method entry) opening 0 trail draft last)
    (linkEnd : Bool) :
    (toGraph (close linkEnd draft last) entry).Connected linkEnd (nodeId 0)
      (nodeId draft.nodes.length) where
  reached := by
    intro node member inner
    obtain ⟨number, found⟩ := List.mem_iff_getElem?.mp member
    obtain ⟨named, foundLabel⟩ := toGraph_node found
    rw [named]
    rcases close_node_cases foundLabel with ⟨bound, -⟩ | ⟨-, isFinish⟩
    · exact toGraph_path ((close_extends linkEnd draft last).path (unclosed_path drawn bound).1)
    · exact absurd (congrArg NodeLabel.kind isFinish) inner
  through := by
    rintro rfl node member
    have grown := close_extends true draft last
    obtain ⟨number, found⟩ := List.mem_iff_getElem?.mp member
    obtain ⟨named, foundLabel⟩ := toGraph_node found
    rw [named]
    rcases close_node_cases foundLabel with ⟨bound, -⟩ | ⟨rfl, -⟩
    · obtain ⟨reached, leaving⟩ := unclosed_path drawn bound
      exact ⟨toGraph_path (grown.path reached),
        toGraph_path ((grown.path leaving).trans linked_path)⟩
    · exact ⟨toGraph_path ((grown.path drawn.connects.through).trans linked_path), .refl⟩
  numbered := by
    have unclosed := unclosed_of_draws drawn
    intro edge member
    obtain ⟨drawnEdge, drawnMember, rfl⟩ := mem_toGraph_edges.mp member
    obtain ⟨source, -, target⟩ := unclosed.closed_edge drawnMember
    rw [toGraph_isBack, toGraph_close_length]
    exact ⟨drawnEdge.source, drawnEdge.target, rfl, rfl, Nat.lt_succ_of_lt source,
      Nat.lt_succ_of_le target, closed_edge_back unclosed drawnMember⟩
  acyclic := by
    intro id cycle
    obtain ⟨first, second, same, sameSecond, rising⟩ := transGen_lt (unclosed_of_draws drawn) cycle
    exact rising.ne (nodeId_injective (same.symm.trans sameSecond))

theorem graph_connected (map : FunctionMap) (supported : map.isSupported = true) (entry : String)
    (linkEnd : Bool) :
    ∃ traced start finish,
      graph map linkEnd entry = .ok traced ∧
      traced.nodes.head? = some start ∧ start.kind = .start ∧
      traced.nodes.getLast? = some finish ∧ finish.kind = .finish ∧
      traced.Connected linkEnd start.id finish.id := by
  obtain ⟨draft, last, trail, -, traced, drawn⟩ := graph_total supported entry
  have unclosed := unclosed_of_draws drawn
  exact ⟨_, _, _, traced linkEnd, close_head? unclosed linkEnd, rfl, close_getLast? linkEnd, rfl,
    toGraph_connected drawn linkEnd⟩

theorem mutualCalls_connected :
    FunctionMap.mutualCalls.isSupported = true ∧
    ∃ traced start finish,
      graph FunctionMap.mutualCalls true "A.f" = .ok traced ∧
      traced.nodes.head? = some start ∧ start.kind = .start ∧
      traced.nodes.getLast? = some finish ∧ finish.kind = .finish ∧
      traced.Connected true start.id finish.id :=
  ⟨by decide, graph_connected FunctionMap.mutualCalls (by decide) "A.f" true⟩

end Trace
end MethodFlow
