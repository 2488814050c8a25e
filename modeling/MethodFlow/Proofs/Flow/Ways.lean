import MethodFlow.Proofs.Flow.Junctions

/-!
Where the ways out of a decision lead. The way into a body leads to the node that was drawn last for
it, from which the body goes on to where the branches meet. It leads to the node that was drawn
first only if the body drew no other one.
-/
namespace MethodFlow

/-- One side of a decision: the way there, its body, and the nodes that were drawn for the body, in
their order. -/
structure Side where
  kind : EdgeKind
  branchLabel : String
  body : List Statement
  drawn : List Nat

def Draft.newIn (draft draft' : Draft) : List Nat :=
  List.range' draft.nodes.length (draft'.nodes.length - draft.nodes.length)

def Stroke.sides : Stroke → List Side
  | .call _ _ _ _ _ => []
  | .branch condition line whenTrue whenFalse parent before afterTrue afterFalse =>
      [⟨.ifTrue, "true", whenTrue,
          (before.follow parent .sequence (.decision condition line)).1.newIn afterTrue⟩,
        ⟨.ifFalse, "false", whenFalse, afterTrue.newIn afterFalse⟩]
  | .loop _ _ _ _ _ _ _ => []

namespace Side

open Trace (nodeId nodeId_injective)

/-- There is one way to a side that has a body, and it leads to the node that `pick` takes from
those drawn for the body. -/
def LeadsTo (side : Side) (pick : List Nat → Option Nat) (graph : FlowGraph) (decision : Nat) :
    Prop :=
  side.body ≠ [] → ∃ target, pick side.drawn = some target ∧
    graph.edges.filter (Edge.leaves (nodeId decision) side.kind) =
      [{ source := nodeId decision, target := nodeId target, kind := side.kind,
         branchLabel := side.branchLabel }]

variable {side : Side} {graph : FlowGraph} {decision first count : Nat}

theorem leadsTo_last (drawn : side.drawn = List.range' first (count + 1))
    (way : graph.edges.filter (Edge.leaves (nodeId decision) side.kind) =
      [{ source := nodeId decision, target := nodeId (first + count), kind := side.kind,
         branchLabel := side.branchLabel }]) : side.LeadsTo List.getLast? graph decision := by
  intro _
  refine ⟨first + count, ?_, way⟩
  rw [drawn, List.getLast?_range']
  rfl

theorem leadsTo_first_iff (proper : side.body ≠ [])
    (drawn : side.drawn = List.range' first (count + 1))
    (way : graph.edges.filter (Edge.leaves (nodeId decision) side.kind) =
      [{ source := nodeId decision, target := nodeId (first + count), kind := side.kind,
         branchLabel := side.branchLabel }]) :
    side.LeadsTo List.head? graph decision ↔ side.drawn.length = 1 := by
  have entered : side.drawn.head? = some first := by
    rw [drawn, List.head?_range']
    rfl
  have counted : side.drawn.length = count + 1 := by rw [drawn, List.length_range']
  rw [counted]
  constructor
  · intro leads
    obtain ⟨target, picked, single⟩ := leads proper
    obtain rfl := Option.some.inj (entered.symm.trans picked)
    have targets := congrArg (List.map Edge.target) (way.symm.trans single)
    have same := nodeId_injective (List.head_eq_of_cons_eq targets)
    omega
  · intro alone
    obtain rfl : count = 0 := by omega
    exact fun _ => ⟨first, entered, way⟩

end Side

namespace Draws

variable {map : FunctionMap} {draft draft' : Draft} {parent last : Nat} {trail : List String}
  {statements : List Statement}

theorem newIn_eq (drawn : Draws map (.body statements) draft parent trail draft' last)
    (proper : statements ≠ []) :
    ∃ count, draft.newIn draft' = List.range' draft.nodes.length (count + 1) ∧
      draft'.newest = draft.nodes.length + count := by
  have reached := drawn.body_advances proper
  rw [drawn.body_ends proper] at reached
  have grown : draft.nodes.length < draft'.nodes.length := by
    rcases drawn.ends with bare | ends
    · exact absurd (Work.body.inj bare) proper
    · exact ends.grown
  refine ⟨draft'.nodes.length - draft.nodes.length - 1, ?_, ?_⟩
  · rw [Draft.newIn]
    congr 1
    omega
  · unfold Draft.newest
    omega

theorem body_grows (drawn : Draws map (.body statements) draft parent trail draft' last) :
    draft.nodes.length + statements.length ≤ draft'.nodes.length := by
  induction statements generalizing draft parent trail with
  | nil =>
      obtain ⟨-, rfl, -⟩ := drawn.of_nil
      exact Nat.le_refl _
  | cons statement statements ih =>
      cases drawn with
      | cons first rest =>
          have others := ih rest
          rcases first.ends with bare | ends
          · cases bare
          · have grown := ends.grown
            rw [List.length_cons]
            omega

end Draws

namespace Trace

variable {map : FunctionMap} {entry : String} {draft : Draft} {reached : List String}
  {strokes : List Stroke} {stroke : Stroke}

theorem Recorded.side_ways (recorded : Recorded map entry draft reached strokes)
    (member : stroke ∈ strokes) (linkEnd : Bool) (last : Nat) {side : Side}
    (own : side ∈ stroke.sides) (proper : side.body ≠ []) :
    ∃ first count, side.drawn = List.range' first (count + 1) ∧
      (toGraph (close linkEnd draft last) entry).edges.filter
          (Edge.leaves (nodeId stroke.number) side.kind) =
        [{ source := nodeId stroke.number, target := nodeId (first + count), kind := side.kind,
           branchLabel := side.branchLabel }] := by
  have drawn := recorded.drawn stroke member
  cases drawn with
  | call drawn kept => cases own
  | loop body kept left => cases own
  | branch onTrue onFalse kept merged =>
      have wires := recorded.wiresBranch member linkEnd last
      simp only [Stroke.sides, List.mem_cons, List.not_mem_nil, or_false] at own
      rcases own with rfl | rfl
      · obtain ⟨count, numbers, newest⟩ := onTrue.newIn_eq proper
        have way := wires.onTrue
        rw [newest, Edge.forBody, if_neg (by simpa using proper)] at way
        exact ⟨_, count, numbers, way⟩
      · obtain ⟨count, numbers, newest⟩ := onFalse.newIn_eq proper
        have way := wires.onFalse
        rw [newest, Edge.forBody, if_neg (by simpa using proper)] at way
        exact ⟨_, count, numbers, way⟩

theorem Recorded.side_leads (recorded : Recorded map entry draft reached strokes)
    (member : stroke ∈ strokes) (linkEnd : Bool) (last : Nat) {side : Side}
    (own : side ∈ stroke.sides) :
    side.LeadsTo List.getLast? (toGraph (close linkEnd draft last) entry) stroke.number ∧
      (side.body ≠ [] →
        (side.LeadsTo List.head? (toGraph (close linkEnd draft last) entry) stroke.number ↔
          side.drawn.length = 1)) := by
  constructor
  · intro proper
    obtain ⟨first, count, drawn, way⟩ := recorded.side_ways member linkEnd last own proper
    exact Side.leadsTo_last drawn way proper
  · intro proper
    obtain ⟨first, count, drawn, way⟩ := recorded.side_ways member linkEnd last own proper
    exact Side.leadsTo_first_iff proper drawn way

/-- In a traced graph the way into a body leads to the node that was drawn last for it. -/
theorem ways_lead_to_ends {map : FunctionMap} {linkEnd : Bool} {entry : String}
    {traced : FlowGraph} (drawn : graph map linkEnd entry = .ok traced) :
    ∃ draft last reached strokes, Recorded map entry draft reached strokes ∧
      traced = toGraph (close linkEnd draft last) entry ∧
      ∀ stroke ∈ strokes, ∀ side ∈ stroke.sides,
        side.LeadsTo List.getLast? traced stroke.number ∧
        (side.body ≠ [] →
          (side.LeadsTo List.head? traced stroke.number ↔ side.drawn.length = 1)) := by
  obtain ⟨draft, last, traced, rfl⟩ := graph_eq_ok.mp drawn
  obtain ⟨reached, drawn⟩ := fromStart_draws traced
  obtain ⟨strokes, recorded⟩ := exists_recorded drawn
  exact ⟨draft, last, reached, strokes, recorded, rfl,
    fun _ member _ own => recorded.side_leads member linkEnd last own⟩

theorem mutualCalls_ways_lead_to_ends :
    ∃ traced, graph FunctionMap.mutualCalls true "A.f" = .ok traced ∧
      ∃ draft last reached strokes, Recorded FunctionMap.mutualCalls "A.f" draft reached strokes ∧
        traced = toGraph (close true draft last) "A.f" ∧
        ∀ stroke ∈ strokes, ∀ side ∈ stroke.sides,
          side.LeadsTo List.getLast? traced stroke.number ∧
          (side.body ≠ [] →
            (side.LeadsTo List.head? traced stroke.number ↔ side.drawn.length = 1)) := by
  have supported : FunctionMap.mutualCalls.isSupported = true := by decide
  obtain ⟨draft, last, trail, -, traced, -⟩ := graph_total supported "A.f"
  exact ⟨_, traced true, ways_lead_to_ends (traced true)⟩

def twoCalls : FunctionMap :=
  ⟨[("A.run", [.branch "x" 1 [.call "a" 2 none, .call "b" 3 none] []])]⟩

/-- The way into this body passes over the first of its two nodes, however the graph is read as
drawn. -/
theorem twoCalls_way :
    ∃ traced, graph twoCalls false "A.run" = .ok traced ∧
      (∃ draft last reached strokes, Recorded twoCalls "A.run" draft reached strokes ∧
        traced = toGraph (close false draft last) "A.run") ∧
      ∀ draft last reached strokes, Recorded twoCalls "A.run" draft reached strokes →
        traced = toGraph (close false draft last) "A.run" →
        ∃ stroke ∈ strokes, ∃ side ∈ stroke.sides,
          ¬side.LeadsTo List.head? traced stroke.number := by
  have supported : twoCalls.isSupported = true := by decide
  obtain ⟨draft, last, reached, -, traced, drawing⟩ := graph_total supported "A.run"
  obtain ⟨strokes, recorded⟩ := exists_recorded drawing
  refine ⟨_, traced false, ⟨draft, last, reached, strokes, recorded, rfl⟩, ?_⟩
  intro draft last reached strokes recorded same
  have entered : "A.run" ∈ reached := (recorded.reached_iff "A.run").mpr .entry
  have body : twoCalls.body "A.run" = [.branch "x" 1 [.call "a" 2 none, .call "b" 3 none] []] := rfl
  have inside : .branch "x" 1 [.call "a" 2 none, .call "b" 3 none] [] ∈
      strokes.map Stroke.statement := by
    rw [recorded.statements.mem_iff]
    refine List.mem_flatMap.mpr ⟨"A.run", entered, ?_⟩
    rw [body]
    exact List.mem_append_left _ List.mem_cons_self
  obtain ⟨stroke, member, stands⟩ := List.mem_map.mp inside
  have drawn := recorded.drawn stroke member
  cases drawn with
  | call drawn kept => cases stands
  | loop body kept left => cases stands
  | branch onTrue onFalse kept merged =>
      cases stands
      refine ⟨_, member, _, List.mem_cons_self, ?_⟩
      rw [same, (recorded.side_leads member false last List.mem_cons_self).2 (List.cons_ne_nil _ _)]
      have grown := onTrue.body_grows
      simp only [List.length_cons, List.length_nil] at grown
      rw [Draft.newIn, List.length_range']
      omega

end Trace
end MethodFlow
