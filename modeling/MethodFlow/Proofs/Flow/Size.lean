import MethodFlow.Proofs.Flow.Reachable
import MethodFlow.Proofs.Flow.WellFormed
import Mathlib.Algebra.BigOperators.Group.Finset.Basic
import Mathlib.Algebra.GroupWithZero.Nat

/-!
How large a traced graph is: each method that calls lead to adds the nodes and edges of its own
statements, once, however often it is called and wherever it is unfolded.
-/
namespace MethodFlow

mutual

/-- The nodes that stand for a statement, what it calls left out. -/
def Statement.nodeCount : Statement → Nat
  | .call _ _ _ => 1
  | .branch _ _ whenTrue whenFalse =>
      1 + nodesIn whenTrue + nodesIn whenFalse +
        if whenTrue.isEmpty && whenFalse.isEmpty then 0 else 1
  | .loop _ _ _ body => 2 + nodesIn body
  | .unsupported _ => 0

def Statement.nodesIn : List Statement → Nat
  | [] => 0
  | statement :: statements => statement.nodeCount + nodesIn statements

end

mutual

def Statement.edgeCount : Statement → Nat
  | .call _ _ _ => 1
  | .branch _ _ whenTrue whenFalse =>
      1 + edgesIn whenTrue + edgesIn whenFalse +
        2 * [whenTrue, whenFalse].countP fun body => !body.isEmpty
  | .loop _ _ _ body => 2 + edgesIn body + if body.isEmpty then 0 else 1
  | .unsupported _ => 0

def Statement.edgesIn : List Statement → Nat
  | [] => 0
  | statement :: statements => statement.edgeCount + edgesIn statements

end

namespace Work

/-- The nodes that work draws by itself. A method is one node to whoever calls it. -/
def nodeCount : Work → Nat
  | .method _ => 1
  | .statement item => item.nodeCount
  | .body items => Statement.nodesIn items

def edgeCount : Work → Nat
  | .method _ => 1
  | .statement item => item.edgeCount
  | .body items => Statement.edgesIn items

end Work

theorem Draft.length_branchEdges (decision last merge : Nat) (kind : EdgeKind)
    (branchLabel : String) (body : List Statement) :
    (branchEdges decision last merge kind branchLabel body).length =
      2 * [body].countP fun body => !body.isEmpty := by
  cases body with
  | nil => rfl
  | cons statement statements => rfl

namespace Draws

variable {map : FunctionMap} {work : Work} {draft draft' : Draft} {parent last : Nat}
  {trail : List String}

theorem size (drawn : Draws map work draft parent trail draft' last) :
    draft'.nodes.length = draft.nodes.length + work.nodeCount +
      (trail.map fun name => Statement.nodesIn (map.body name)).sum ∧
    draft'.edges.length = draft.edges.length + work.edgeCount +
      (trail.map fun name => Statement.edgesIn (map.body name)).sum := by
  induction drawn with
  | reference met => simp [Work.nodeCount, Work.edgeCount]
  | unfold fresh body ih =>
      -- The node of the method is counted with the work, its statements with the trail.
      simp only [Draft.enter_nodes, Draft.enter_edges, List.length_append, List.length_singleton,
        Work.nodeCount, Work.edgeCount] at ih
      simp only [Work.nodeCount, Work.edgeCount, List.map_cons, List.sum_cons]
      omega
  | call resolved target ih => exact ih
  | leaf unresolved =>
      simp [Work.nodeCount, Work.edgeCount, Statement.nodeCount, Statement.edgeCount]
  | bareBranch =>
      simp [Work.nodeCount, Work.edgeCount, Statement.nodeCount, Statement.edgeCount,
        Statement.nodesIn, Statement.edgesIn]
  | @branch _ _ whenTrue whenFalse _ _ _ _ _ _ _ _ bodies onTrue onFalse ihTrue ihFalse =>
      have merged : ¬(whenTrue.isEmpty && whenFalse.isEmpty) = true := by
        simpa [imp_iff_not_or] using bodies
      simp only [Draft.follow_nodes, Draft.follow_edges, List.length_append, List.length_singleton,
        Work.nodeCount, Work.edgeCount] at ihTrue ihFalse
      simp only [Draft.meet_nodes, Draft.meet_edges, List.length_append, List.length_singleton,
        Draft.length_branchEdges, Work.nodeCount, Work.edgeCount, Statement.nodeCount,
        Statement.edgeCount, List.map_append, List.sum_append, List.countP_cons, List.countP_nil,
        if_neg merged]
      omega
  | loop body ih =>
      simp only [Draft.follow_nodes, Draft.follow_edges, List.length_append, List.length_singleton,
        Work.nodeCount, Work.edgeCount] at ih
      simp only [Draft.leave_nodes, Draft.leave_edges, body.backEdges_eq, List.length_append,
        List.length_singleton, apply_ite List.length, List.length_nil, Work.nodeCount,
        Work.edgeCount, Statement.nodeCount, Statement.edgeCount]
      omega
  | nil => simp [Work.nodeCount, Work.edgeCount, Statement.nodesIn, Statement.edgesIn]
  | cons first rest ihFirst ihRest =>
      simp only [Work.nodeCount, Work.edgeCount] at ihFirst ihRest
      simp only [Work.nodeCount, Work.edgeCount, Statement.nodesIn, Statement.edgesIn,
        List.map_append, List.sum_append]
      omega

end Draws

namespace Trace

/-- Three nodes are the graph's own, the start, the end and the entry method, and one edge, from the
start to the entry method. The others stand for the statements of the methods that calls lead
to. -/
theorem graph_size (map : FunctionMap) (supported : map.isSupported = true) (entry : String) :
    ∃ reached : Finset String, (∀ name, name ∈ reached ↔ map.Reaches entry name) ∧
      ∀ linkEnd, ∃ traced, graph map linkEnd entry = .ok traced ∧
        traced.nodes.length = 3 + ∑ name ∈ reached, Statement.nodesIn (map.body name) ∧
        traced.edges.length = 1 + ∑ name ∈ reached, Statement.edgesIn (map.body name) +
          if linkEnd then 1 else 0 := by
  obtain ⟨draft, last, trail, -, traced, drawn⟩ := graph_total supported entry
  refine ⟨trail.toFinset, fun name => ?_, fun linkEnd => ⟨_, traced linkEnd, ?_, ?_⟩⟩
  · rw [List.mem_toFinset]
    exact drawn.mem_trail_iff name
  · have opened : opening.nodes.length = 1 := rfl
    rw [toGraph_close_length, List.sum_toFinset _ drawn.trail_nodup, drawn.size.1, opened]
    simp only [Work.nodeCount]
    omega
  · have opened : opening.edges.length = 0 := rfl
    have edges : (toGraph (close linkEnd draft last) entry).edges.length =
        draft.edges.length + if linkEnd then 1 else 0 := by
      cases linkEnd <;> simp [toGraph]
    rw [edges, List.sum_toFinset _ drawn.trail_nodup, drawn.size.2, opened]
    simp only [Work.edgeCount]

theorem mutualCalls_size :
    FunctionMap.mutualCalls.isSupported = true ∧
    ∃ reached : Finset String,
      (∀ name, name ∈ reached ↔ FunctionMap.mutualCalls.Reaches "A.f" name) ∧
      ∀ linkEnd, ∃ traced, graph FunctionMap.mutualCalls linkEnd "A.f" = .ok traced ∧
        traced.nodes.length =
          3 + ∑ name ∈ reached, Statement.nodesIn (FunctionMap.mutualCalls.body name) ∧
        traced.edges.length =
          1 + ∑ name ∈ reached, Statement.edgesIn (FunctionMap.mutualCalls.body name) +
            if linkEnd then 1 else 0 :=
  ⟨by decide, graph_size FunctionMap.mutualCalls (by decide) "A.f"⟩

end Trace
end MethodFlow
