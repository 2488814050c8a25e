import MethodFlow.Proofs.Flow.Record
import Mathlib.Data.List.Nodup

/-!
How a traced graph is wired around its decisions and loops. The edges of a branch or a loop are
drawn before, between and behind those of its bodies, which may hold further ones and may unfold
whole methods. Still each decision keeps its own ways out and its own place where these meet, and
each loop its own way back and its own way out.
-/
namespace MethodFlow

namespace Edge

variable {ι : Type}

/-- Whether an edge tells which way a decision went, by its kind or by a label. -/
def isWay (edge : Edge ι) : Bool :=
  edge.kind = .ifTrue || edge.kind = .ifFalse || edge.branchLabel.isSome

def forBody (body : List Statement) (edge : Edge ι) : List (Edge ι) :=
  if body.isEmpty then [] else [edge]

theorem mem_forBody {body : List Statement} {edge drawn : Edge ι} :
    drawn ∈ forBody body edge ↔ body ≠ [] ∧ drawn = edge := by
  cases body with
  | nil => simp [forBody]
  | cons statement statements => simp [forBody]

theorem eq_forBody_of_perm {body : List Statement} {edge : Edge ι} {edges : List (Edge ι)}
    (same : edges.Perm (forBody body edge)) : edges = forBody body edge := by
  cases body with
  | nil => exact same.eq_nil
  | cons statement statements => exact List.perm_singleton.mp same

theorem map_forBody {κ : Type} (rename : Edge ι → Edge κ) (body : List Statement) (edge : Edge ι) :
    (forBody body edge).map rename = forBody body (rename edge) := by
  cases body with
  | nil => rfl
  | cons statement statements => rfl

variable [DecidableEq ι]

def leaves (place : ι) (kind : EdgeKind) (edge : Edge ι) : Bool :=
  edge.source = place && edge.kind = kind

def enters (place : ι) (kind : EdgeKind) (edge : Edge ι) : Bool :=
  edge.target = place && edge.kind = kind

end Edge

theorem Draft.branchEdges_eq (decision last merge : Nat) (kind : EdgeKind) (branchLabel : String)
    (body : List Statement) :
    branchEdges decision last merge kind branchLabel body =
      Edge.forBody body { source := decision, target := last, kind, branchLabel } ++
        Edge.forBody body { source := last, target := merge, kind := .sequence } := by
  cases body with
  | nil => rfl
  | cons statement statements => rfl

section Wiring

open Trace (nodeId)

/-- Out of a decision leads one way for each of its bodies. The bodies meet in a node of their own,
to which no way of the decision leads directly. -/
structure FlowGraph.WiresBranch (graph : FlowGraph) (whenTrue whenFalse : List Statement)
    (decision trueEnd falseEnd merge : Nat) : Prop where
  onTrue : graph.edges.filter (Edge.leaves (nodeId decision) .ifTrue) = Edge.forBody whenTrue
    { source := nodeId decision, target := nodeId trueEnd, kind := .ifTrue,
      branchLabel := "true" }
  onFalse : graph.edges.filter (Edge.leaves (nodeId decision) .ifFalse) = Edge.forBody whenFalse
    { source := nodeId decision, target := nodeId falseEnd, kind := .ifFalse,
      branchLabel := "false" }
  apart : ∀ edge ∈ graph.edges, edge.source = nodeId decision →
    edge.kind = .ifTrue ∨ edge.kind = .ifFalse → edge.target ≠ nodeId merge
  merged : whenTrue ≠ [] ∨ whenFalse ≠ [] →
    (graph.edges.filter (Edge.enters (nodeId merge) .sequence)).Perm
      (Edge.forBody whenTrue
          { source := nodeId trueEnd, target := nodeId merge, kind := .sequence } ++
        Edge.forBody whenFalse
          { source := nodeId falseEnd, target := nodeId merge, kind := .sequence })

/-- Out of a loop leads one edge, and one leads back to its head if it has a body. -/
structure FlowGraph.WiresLoop (graph : FlowGraph) (body : List Statement)
    (head bodyEnd exit : Nat) : Prop where
  leaving : graph.edges.filter (Edge.leaves (nodeId head) .loopExit) =
    [{ source := nodeId head, target := nodeId exit, kind := .loopExit }]
  returning : graph.edges.filter (Edge.enters (nodeId head) .loopExit) = Edge.forBody body
    { source := nodeId bodyEnd, target := nodeId head, kind := .loopExit }

end Wiring

namespace Draws

variable {map : FunctionMap} {work : Work} {draft draft' : Draft} {parent last : Nat}
  {trail : List String}

theorem ends_outside (drawn : Draws map work draft parent trail draft' last) :
    work = .body [] ∨ ∃ label, draft'.nodes[last]? = some label ∧ label.kind ≠ .loop := by
  induction drawn with
  | reference met =>
      exact .inr ⟨_, Draft.Extends.refl.getElem?_added (Draft.follow_nodes _ _ _ _), by simp⟩
  | unfold fresh body ih =>
      right
      rcases ih with bare | ended
      · rw [bare] at body
        obtain ⟨-, rfl, rfl⟩ := body.of_nil
        exact ⟨_, Draft.Extends.refl.getElem?_added (Draft.enter_nodes _ _ _), by simp⟩
      · exact ended
  | call resolved target ih =>
      rcases ih with bare | ended
      · cases bare
      · exact .inr ended
  | leaf unresolved =>
      exact .inr ⟨_, Draft.Extends.refl.getElem?_added (Draft.follow_nodes _ _ _ _), by simp⟩
  | bareBranch =>
      exact .inr ⟨_, Draft.Extends.refl.getElem?_added (Draft.follow_nodes _ _ _ _), by simp⟩
  | branch bodies onTrue onFalse ihTrue ihFalse => exact .inr ⟨.merge, by simp, by simp⟩
  | loop body ih => exact .inr ⟨.loopExit, by simp, by simp⟩
  | nil => exact .inl rfl
  | cons first rest ihFirst ihRest =>
      right
      rcases ihRest with bare | ended
      · cases bare
        obtain ⟨-, rfl, rfl⟩ := rest.of_nil
        rcases ihFirst with bare | ended
        · cases bare
        · exact ended
      · exact ended

end Draws

namespace Stroke

variable {map : FunctionMap} {draft : Draft}

def ways : Stroke → List (Edge Nat)
  | .call _ _ _ _ _ => []
  | .branch _ _ whenTrue whenFalse _ before afterTrue afterFalse =>
      Edge.forBody whenTrue
        { source := before.nodes.length, target := afterTrue.newest, kind := .ifTrue,
          branchLabel := "true" } ++
        Edge.forBody whenFalse
          { source := before.nodes.length, target := afterFalse.newest, kind := .ifFalse,
            branchLabel := "false" }
  | .loop _ _ _ _ _ _ _ => []

theorem filter_isWay (stroke : Stroke) : stroke.edges.filter Edge.isWay = stroke.ways := by
  cases stroke with
  | call name line receiver parent before => rfl
  | branch condition line whenTrue whenFalse parent before afterTrue afterFalse =>
      cases whenTrue with
      | nil => cases whenFalse <;> rfl
      | cons statement statements => cases whenFalse <;> rfl
  | loop kind condition line body parent before afterBody => cases body <;> rfl

theorem mem_ways {stroke : Stroke} {edge : Edge Nat} (member : edge ∈ stroke.ways) :
    edge.source = stroke.number ∧ (edge.kind = .ifTrue ∨ edge.kind = .ifFalse) := by
  cases stroke with
  | call name line receiver parent before => cases member
  | branch condition line whenTrue whenFalse parent before afterTrue afterFalse =>
      simp only [ways, List.mem_append, Edge.mem_forBody] at member
      rcases member with ⟨-, rfl⟩ | ⟨-, rfl⟩
      · exact ⟨rfl, .inl rfl⟩
      · exact ⟨rfl, .inr rfl⟩
  | loop kind condition line body parent before afterBody => cases member

theorem merge_mem_nodes {condition : String} {line : Int} {whenTrue whenFalse : List Statement}
    {parent : Nat} {before afterTrue afterFalse : Draft} (bodies : whenTrue ≠ [] ∨ whenFalse ≠ []) :
    afterFalse.nodes.length ∈ (Stroke.branch condition line whenTrue whenFalse parent before
      afterTrue afterFalse).nodes := by
  have merged : ¬(whenTrue.isEmpty && whenFalse.isEmpty) = true := by
    simpa [imp_iff_not_or] using bodies
  simp [nodes, closing?, merged]

/-- What the edges of a statement can be: its ways, and edges that lead to its own nodes. Of these
only an edge out of a loop starts at the head of one, and only at that of its own. -/
theorem Drawn.mem_edges {stroke : Stroke} (drawn : stroke.Drawn map draft) {edge : Edge Nat}
    (member : edge ∈ stroke.edges) :
    edge ∈ stroke.ways ∨
    (edge.kind = .calls ∨ edge.kind = .sequence) ∧ edge.target ∈ stroke.nodes ∨
    edge.kind = .loopExit ∧ edge.target ∈ stroke.nodes ∧
      (edge.source = stroke.number ∨
        ∃ label, draft.nodes[edge.source]? = some label ∧ label.kind ≠ .loop) := by
  cases drawn with
  | call drawn kept =>
      obtain rfl := List.mem_singleton.mp member
      exact .inr (.inl ⟨.inl rfl, List.mem_cons_self⟩)
  | branch onTrue onFalse kept merged =>
      simp only [edges, Draft.branchEdges_eq, List.mem_cons, List.mem_append] at member
      rcases member with rfl | (way | meeting) | (way | meeting)
      · exact .inr (.inl ⟨.inr rfl, List.mem_cons_self⟩)
      · exact .inl (List.mem_append_left _ way)
      · obtain ⟨body, rfl⟩ := Edge.mem_forBody.mp meeting
        exact .inr (.inl ⟨.inr rfl, merge_mem_nodes (.inl body)⟩)
      · exact .inl (List.mem_append_right _ way)
      · obtain ⟨body, rfl⟩ := Edge.mem_forBody.mp meeting
        exact .inr (.inl ⟨.inr rfl, merge_mem_nodes (.inr body)⟩)
  | loop body kept left =>
      right
      rcases List.mem_cons.mp member with rfl | member
      · exact .inl ⟨.inr rfl, List.mem_cons_self⟩
      rcases List.mem_append.mp member with back | out
      · obtain ⟨proper, rfl⟩ := Edge.mem_forBody.mp back
        refine .inr ⟨rfl, List.mem_cons_self, .inr ?_⟩
        rcases body.ends_outside with bare | ⟨label, found, outside⟩
        · exact absurd (Work.body.inj bare) proper
        · refine ⟨label, ?_, outside⟩
          rw [body.body_ends proper] at found
          rw [kept.getElem?_eq (bound_of_getElem? found)]
          exact found
      · obtain rfl := List.mem_singleton.mp out
        exact .inr ⟨rfl, List.mem_cons_of_mem _ List.mem_cons_self, .inl rfl⟩

section Own

variable {condition : String} {line : Int} {whenTrue whenFalse body : List Statement} {parent : Nat}
  {before afterTrue afterFalse afterBody : Draft} {kind : LoopKind}

theorem Drawn.branch_grows
    (drawn : (Stroke.branch condition line whenTrue whenFalse parent before afterTrue
      afterFalse).Drawn map draft) :
    before.nodes.length < afterTrue.nodes.length ∧
      afterTrue.nodes.length ≤ afterFalse.nodes.length := by
  cases drawn with
  | branch onTrue onFalse kept merged =>
      exact ⟨Nat.lt_of_lt_of_le (by simp) onTrue.draft_extends.length_le,
        onFalse.draft_extends.length_le⟩

theorem Drawn.loop_grows
    (drawn : (Stroke.loop kind condition line body parent before afterBody).Drawn map draft) :
    before.nodes.length < afterBody.nodes.length ∧
      (body ≠ [] → before.nodes.length < afterBody.newest) := by
  cases drawn with
  | loop inside kept left =>
      refine ⟨Nat.lt_of_lt_of_le (by simp) inside.draft_extends.length_le, fun proper => ?_⟩
      rw [← inside.body_ends proper]
      exact Nat.lt_of_lt_of_le (by simp) (inside.body_advances proper)

theorem branch_leaves_true :
    (Stroke.branch condition line whenTrue whenFalse parent before afterTrue
      afterFalse).edges.filter (Edge.leaves before.nodes.length .ifTrue) =
      Edge.forBody whenTrue
        { source := before.nodes.length, target := afterTrue.newest, kind := .ifTrue,
          branchLabel := "true" } := by
  simp only [edges, Draft.branchEdges, Edge.forBody]
  cases whenTrue <;> cases whenFalse <;> simp [Edge.leaves]

theorem branch_leaves_false :
    (Stroke.branch condition line whenTrue whenFalse parent before afterTrue
      afterFalse).edges.filter (Edge.leaves before.nodes.length .ifFalse) =
      Edge.forBody whenFalse
        { source := before.nodes.length, target := afterFalse.newest, kind := .ifFalse,
          branchLabel := "false" } := by
  simp only [edges, Draft.branchEdges, Edge.forBody]
  cases whenTrue <;> cases whenFalse <;> simp [Edge.leaves]

theorem Drawn.branch_enters
    (drawn : (Stroke.branch condition line whenTrue whenFalse parent before afterTrue
      afterFalse).Drawn map draft) :
    (Stroke.branch condition line whenTrue whenFalse parent before afterTrue
      afterFalse).edges.filter (Edge.enters afterFalse.nodes.length .sequence) =
      Edge.forBody whenTrue
        { source := afterTrue.newest, target := afterFalse.nodes.length, kind := .sequence } ++
        Edge.forBody whenFalse
          { source := afterFalse.newest, target := afterFalse.nodes.length,
            kind := .sequence } := by
  obtain ⟨inTrue, inFalse⟩ := drawn.branch_grows
  have apart : before.nodes.length ≠ afterFalse.nodes.length := by omega
  simp only [edges, Draft.branchEdges, Edge.forBody]
  cases whenTrue <;> cases whenFalse <;> simp [Edge.enters, apart]

theorem Drawn.loop_leaves
    (drawn : (Stroke.loop kind condition line body parent before afterBody).Drawn map draft) :
    (Stroke.loop kind condition line body parent before afterBody).edges.filter
        (Edge.leaves before.nodes.length .loopExit) =
      [{ source := before.nodes.length, target := afterBody.nodes.length, kind := .loopExit }] := by
  have past := drawn.loop_grows.2
  cases body with
  | nil => simp [edges, Edge.leaves]
  | cons statement statements =>
      have apart := (past (List.cons_ne_nil _ _)).ne'
      simp [edges, Edge.leaves, apart]

theorem Drawn.loop_enters
    (drawn : (Stroke.loop kind condition line body parent before afterBody).Drawn map draft) :
    (Stroke.loop kind condition line body parent before afterBody).edges.filter
        (Edge.enters before.nodes.length .loopExit) =
      Edge.forBody body
        { source := afterBody.newest, target := before.nodes.length, kind := .loopExit } := by
  have apart := drawn.loop_grows.1.ne'
  cases body with
  | nil => simp [edges, Edge.enters, Edge.forBody, apart]
  | cons statement statements => simp [edges, Edge.enters, Edge.forBody, apart]

end Own

end Stroke

namespace Trace

section Names

variable (draft : Draft) (entry : String) (number : Nat) (kind : EdgeKind)

theorem filter_leaves :
    (toGraph draft entry).edges.filter (Edge.leaves (nodeId number) kind) =
      (draft.edges.filter (Edge.leaves number kind)).map (Edge.map nodeId) := by
  rw [toGraph, List.filter_map]
  congr 2
  funext edge
  simp [Edge.leaves, Edge.map, nodeId_injective.eq_iff]

theorem filter_enters :
    (toGraph draft entry).edges.filter (Edge.enters (nodeId number) kind) =
      (draft.edges.filter (Edge.enters number kind)).map (Edge.map nodeId) := by
  rw [toGraph, List.filter_map]
  congr 2
  funext edge
  simp [Edge.enters, Edge.map, nodeId_injective.eq_iff]

end Names

namespace Recorded

variable {map : FunctionMap} {entry : String} {draft : Draft} {reached : List String}
  {strokes : List Stroke} {stroke : Stroke}

theorem mem_nodes (recorded : Recorded map entry draft reached strokes) (member : stroke ∈ strokes)
    {number : Nat} (own : number ∈ stroke.nodes) : number < draft.nodes.length := by
  have drawn : number ∈ strokes.flatMap Stroke.nodes := List.mem_flatMap.mpr ⟨stroke, member, own⟩
  apply List.mem_range.mp
  rw [recorded.nodes.mem_iff]
  exact List.mem_cons_of_mem _ (List.mem_cons_of_mem _ drawn)

theorem others (recorded : Recorded map entry draft reached strokes) (member : stroke ∈ strokes) :
    ∃ others, strokes.Perm (stroke :: others) ∧
      ∀ other ∈ others, List.Disjoint other.nodes stroke.nodes := by
  obtain ⟨before, after, split⟩ := List.append_of_mem member
  have moved : strokes.Perm (stroke :: (before ++ after)) := split ▸ List.perm_middle
  have once : (strokes.flatMap Stroke.nodes).Nodup := by
    have all := recorded.nodes.nodup_iff.mp List.nodup_range
    exact all.of_cons.of_cons
  rw [(moved.flatMap_right Stroke.nodes).nodup_iff, List.flatMap_cons, List.nodup_append'] at once
  refine ⟨_, moved, fun other rest number inOther own => ?_⟩
  exact once.2.2 own (List.mem_flatMap.mpr ⟨other, rest, inOther⟩)

theorem filter_edges (recorded : Recorded map entry draft reached strokes)
    (member : stroke ∈ strokes) (linkEnd : Bool) (last : Nat) {test : Edge Nat → Bool}
    (start : test { source := 0, target := 1, kind := .calls } = false)
    (finish : test { source := last, target := draft.nodes.length, kind := .sequence } = false)
    (foreign : ∀ other ∈ strokes, List.Disjoint other.nodes stroke.nodes →
      ∀ edge ∈ other.edges, test edge = false) :
    ((close linkEnd draft last).edges.filter test).Perm (stroke.edges.filter test) := by
  obtain ⟨others, moved, disjoint⟩ := recorded.others member
  have rest : (others.flatMap Stroke.edges).filter test = [] := by
    rw [List.filter_eq_nil_iff]
    intro edge inRest
    obtain ⟨other, inOthers, own⟩ := List.mem_flatMap.mp inRest
    have drawn : other ∈ strokes := moved.mem_iff.mpr (List.mem_cons_of_mem _ inOthers)
    rw [foreign other drawn (disjoint other inOthers) edge own]
    exact Bool.false_ne_true
  have ending : (endEdges linkEnd draft last).filter test = [] := by
    cases linkEnd with
    | false => rfl
    | true => simp [endEdges, finish]
  have parts := (moved.flatMap_right Stroke.edges).filter test
  rw [List.flatMap_cons, List.filter_append, rest, List.append_nil] at parts
  have all := (recorded.closed_edges linkEnd last).filter test
  rw [List.filter_cons_of_neg (by simp [start]), List.filter_append, ending,
    List.append_nil] at all
  exact all.trans parts

theorem filter_ways (recorded : Recorded map entry draft reached strokes)
    (member : stroke ∈ strokes) (linkEnd : Bool) (last : Nat) {kind : EdgeKind}
    (way : kind = .ifTrue ∨ kind = .ifFalse) :
    ((close linkEnd draft last).edges.filter (Edge.leaves stroke.number kind)).Perm
      (stroke.edges.filter (Edge.leaves stroke.number kind)) := by
  apply recorded.filter_edges member
  · rcases way with rfl | rfl <;> simp [Edge.leaves]
  · rcases way with rfl | rfl <;> simp [Edge.leaves]
  · intro other _ disjoint edge inOther
    by_contra leaves
    simp only [Edge.leaves, Bool.not_eq_false, Bool.and_eq_true, decide_eq_true_eq] at leaves
    obtain ⟨source, rfl⟩ := leaves
    have isWay : edge.isWay = true := by simpa [Edge.isWay] using .inl way
    have inWays : edge ∈ other.ways := by
      rw [← Stroke.filter_isWay]
      exact List.mem_filter.mpr ⟨inOther, isWay⟩
    have same : other.number = stroke.number := (Stroke.mem_ways inWays).1.symm.trans source
    exact disjoint List.mem_cons_self (same ▸ List.mem_cons_self)

theorem mem_ways_of_source (recorded : Recorded map entry draft reached strokes)
    (member : stroke ∈ strokes) {linkEnd : Bool} {last : Nat} {edge : Edge Nat}
    (inDraft : edge ∈ (close linkEnd draft last).edges) (source : edge.source = stroke.number)
    (way : edge.kind = .ifTrue ∨ edge.kind = .ifFalse) : edge ∈ stroke.ways := by
  have leaves : edge ∈ (close linkEnd draft last).edges.filter
      (Edge.leaves stroke.number edge.kind) :=
    List.mem_filter.mpr ⟨inDraft, by simp [Edge.leaves, source]⟩
  have own := (recorded.filter_ways member linkEnd last way).mem_iff.mp leaves
  rw [← Stroke.filter_isWay]
  exact List.mem_filter.mpr ⟨List.mem_of_mem_filter own, by simpa [Edge.isWay] using .inl way⟩

theorem filter_entering (recorded : Recorded map entry draft reached strokes)
    (member : stroke ∈ strokes) (linkEnd : Bool) (last : Nat) {number : Nat}
    (own : number ∈ stroke.nodes) {kind : EdgeKind} (plain : kind = .sequence ∨ kind = .loopExit) :
    ((close linkEnd draft last).edges.filter (Edge.enters number kind)).Perm
      (stroke.edges.filter (Edge.enters number kind)) := by
  have bound := recorded.mem_nodes member own
  apply recorded.filter_edges member
  · rcases plain with rfl | rfl <;> simp [Edge.enters]
  · simp [Edge.enters, bound.ne']
  · intro other drawn disjoint edge inOther
    by_contra enters
    simp only [Edge.enters, Bool.not_eq_false, Bool.and_eq_true, decide_eq_true_eq] at enters
    obtain ⟨rfl, rfl⟩ := enters
    rcases (recorded.drawn other drawn).mem_edges inOther with inWays | ⟨-, target⟩ | ⟨-, target, -⟩
    · have way := (Stroke.mem_ways inWays).2
      grind
    · exact disjoint target own
    · exact disjoint target own

theorem filter_leaving_loop (recorded : Recorded map entry draft reached strokes)
    (member : stroke ∈ strokes) (linkEnd : Bool) (last : Nat)
    (loop : (stroke.label map).kind = .loop) :
    ((close linkEnd draft last).edges.filter (Edge.leaves stroke.number .loopExit)).Perm
      (stroke.edges.filter (Edge.leaves stroke.number .loopExit)) := by
  apply recorded.filter_edges member
  · simp [Edge.leaves]
  · simp [Edge.leaves]
  · intro other drawn disjoint edge inOther
    by_contra leaves
    simp only [Edge.leaves, Bool.not_eq_false, Bool.and_eq_true, decide_eq_true_eq] at leaves
    obtain ⟨source, kind⟩ := leaves
    rcases (recorded.drawn other drawn).mem_edges inOther with
      inWays | ⟨plain, -⟩ | ⟨-, -, head | ⟨label, found, apart⟩⟩
    · have way := (Stroke.mem_ways inWays).2
      grind
    · grind
    · have same : other.number = stroke.number := head.symm.trans source
      exact disjoint List.mem_cons_self (same ▸ List.mem_cons_self)
    · -- The way back of another loop starts where its body ends, which is never at a head.
      rw [source, (recorded.drawn stroke member).label_at] at found
      cases found
      exact apart loop

section Wiring

variable {condition : String} {line : Int} {whenTrue whenFalse body : List Statement} {parent : Nat}
  {before afterTrue afterFalse afterBody : Draft} {kind : LoopKind}

theorem wiresBranch (recorded : Recorded map entry draft reached strokes)
    (member : .branch condition line whenTrue whenFalse parent before afterTrue afterFalse ∈
      strokes) (linkEnd : Bool) (last : Nat) :
    (toGraph (close linkEnd draft last) entry).WiresBranch whenTrue whenFalse before.nodes.length
      afterTrue.newest afterFalse.newest afterFalse.nodes.length := by
  have drawn := recorded.drawn _ member
  obtain ⟨inTrue, inFalse⟩ := drawn.branch_grows
  refine ⟨?_, ?_, ?_, ?_⟩
  · have ways := recorded.filter_ways member linkEnd last (.inl rfl)
    rw [Stroke.number, Stroke.before, Stroke.branch_leaves_true] at ways
    rw [filter_leaves, Edge.eq_forBody_of_perm ways, Edge.map_forBody]
    rfl
  · have ways := recorded.filter_ways member linkEnd last (.inr rfl)
    rw [Stroke.number, Stroke.before, Stroke.branch_leaves_false] at ways
    rw [filter_leaves, Edge.eq_forBody_of_perm ways, Edge.map_forBody]
    rfl
  · -- A way leads to the end of a body, and the bodies come before the node where they meet.
    intro edge inGraph source way
    obtain ⟨drawnEdge, inDraft, rfl⟩ := mem_toGraph_edges.mp inGraph
    have inWays := recorded.mem_ways_of_source member inDraft (nodeId_injective source) way
    have target : drawnEdge.target = afterTrue.newest ∨ drawnEdge.target = afterFalse.newest := by
      simp only [Stroke.ways, List.mem_append, Edge.mem_forBody] at inWays
      rcases inWays with ⟨-, rfl⟩ | ⟨-, rfl⟩
      · exact .inl rfl
      · exact .inr rfl
    apply nodeId_injective.ne
    unfold Draft.newest at target
    omega
  · intro bodies
    have meeting :=
      recorded.filter_entering member linkEnd last (Stroke.merge_mem_nodes bodies) (.inl rfl)
    rw [drawn.branch_enters] at meeting
    have named := meeting.map (Edge.map nodeId)
    rw [List.map_append, Edge.map_forBody, Edge.map_forBody] at named
    rw [filter_enters]
    exact named

theorem wiresLoop (recorded : Recorded map entry draft reached strokes)
    (member : .loop kind condition line body parent before afterBody ∈ strokes)
    (linkEnd : Bool) (last : Nat) :
    (toGraph (close linkEnd draft last) entry).WiresLoop body before.nodes.length
      afterBody.newest afterBody.nodes.length := by
  have drawn := recorded.drawn _ member
  constructor
  · have out := recorded.filter_leaving_loop member linkEnd last rfl
    rw [Stroke.number, Stroke.before, drawn.loop_leaves] at out
    rw [filter_leaves, List.perm_singleton.mp out]
    rfl
  · have back := recorded.filter_entering member linkEnd last List.mem_cons_self (.inr rfl)
    rw [Stroke.number, Stroke.before, drawn.loop_enters] at back
    rw [filter_enters, Edge.eq_forBody_of_perm back, Edge.map_forBody]
    rfl

end Wiring

theorem labelled (recorded : Recorded map entry draft reached strokes) (linkEnd : Bool)
    (last : Nat) :
    ((toGraph (close linkEnd draft last) entry).edges.filter Edge.isWay).Perm
      ((strokes.flatMap Stroke.ways).map (Edge.map nodeId)) := by
  have ending : (endEdges linkEnd draft last).filter Edge.isWay = [] := by
    cases linkEnd <;> rfl
  have drawn := (recorded.closed_edges linkEnd last).filter Edge.isWay
  rw [List.filter_cons_of_neg (by decide), List.filter_append, ending, List.append_nil,
    List.filter_flatMap] at drawn
  simp only [Stroke.filter_isWay] at drawn
  rw [toGraph, List.filter_map]
  exact drawn.map _

theorem no_loopEntry (recorded : Recorded map entry draft reached strokes) {linkEnd : Bool}
    {last : Nat} {edge : Edge String}
    (member : edge ∈ (toGraph (close linkEnd draft last) entry).edges) :
    edge.kind ≠ .loopEntry := by
  obtain ⟨drawn, inDraft, rfl⟩ := mem_toGraph_edges.mp member
  have listed := (recorded.closed_edges linkEnd last).mem_iff.mp inDraft
  rcases List.mem_cons.mp listed with rfl | inDraft
  · exact nofun
  rcases List.mem_append.mp inDraft with inStrokes | ending
  · obtain ⟨stroke, inStrokes, own⟩ := List.mem_flatMap.mp inStrokes
    show drawn.kind ≠ .loopEntry
    rcases (recorded.drawn stroke inStrokes).mem_edges own with inWays | ⟨plain, -⟩ | ⟨exit, -⟩
    · have way := (Stroke.mem_ways inWays).2
      grind
    · grind
    · grind
  · cases linkEnd with
    | false => cases ending
    | true =>
        obtain rfl := List.mem_singleton.mp ending
        exact nofun

end Recorded

end Trace

/-- The nodes of a decision or a loop, and how a graph is wired around them. -/
def Stroke.Wired (map : FunctionMap) (graph : FlowGraph) : Stroke → Prop
  | .call _ _ _ _ _ => True
  | .branch condition line whenTrue whenFalse parent before afterTrue afterFalse =>
      (Stroke.branch condition line whenTrue whenFalse parent before afterTrue afterFalse).flowNodes
          map = Trace.numbered (.decision condition line) before.nodes.length ::
        (if whenTrue.isEmpty && whenFalse.isEmpty then []
          else [Trace.numbered .merge afterFalse.nodes.length]) ∧
      graph.WiresBranch whenTrue whenFalse before.nodes.length afterTrue.newest afterFalse.newest
        afterFalse.nodes.length
  | .loop kind condition line body parent before afterBody =>
      (Stroke.loop kind condition line body parent before afterBody).flowNodes map =
        [Trace.numbered (.loop kind condition line) before.nodes.length,
          Trace.numbered .loopExit afterBody.nodes.length] ∧
      graph.WiresLoop body before.nodes.length afterBody.newest afterBody.nodes.length

namespace Trace

theorem Recorded.wired {map : FunctionMap} {entry : String} {draft : Draft} {reached : List String}
    {strokes : List Stroke} (recorded : Recorded map entry draft reached strokes) {stroke : Stroke}
    (member : stroke ∈ strokes) (linkEnd : Bool) (last : Nat) :
    stroke.Wired map (toGraph (close linkEnd draft last) entry) := by
  cases stroke with
  | call name line receiver parent before => trivial
  | branch condition line whenTrue whenFalse parent before afterTrue afterFalse =>
      refine ⟨?_, recorded.wiresBranch member linkEnd last⟩
      rw [Stroke.flowNodes_eq, Stroke.closingNodes, Stroke.closingLabels, Stroke.closing?]
      split
      · rfl
      · rfl
  | loop kind condition line body parent before afterBody =>
      exact ⟨rfl, recorded.wiresLoop member linkEnd last⟩

/-- A traced graph is drawn in strokes, one for each statement of the methods that calls lead to.
Every decision and every loop among them is wired by itself, and no other edge tells a way. -/
theorem graph_wired {map : FunctionMap} {linkEnd : Bool} {entry : String} {traced : FlowGraph}
    (drawn : graph map linkEnd entry = .ok traced) :
    ∃ draft last reached strokes, Recorded map entry draft reached strokes ∧
      traced = toGraph (close linkEnd draft last) entry ∧
      traced.nodes.Perm (numbered .start 0 :: numbered (.method entry) 1 ::
        (strokes.flatMap (Stroke.flowNodes map) ++ [numbered .finish draft.nodes.length])) ∧
      (∀ stroke ∈ strokes, stroke.Wired map traced) ∧
      (traced.edges.filter Edge.isWay).Perm
        ((strokes.flatMap Stroke.ways).map (Edge.map nodeId)) ∧
      ∀ edge ∈ traced.edges, edge.kind ≠ .loopEntry := by
  obtain ⟨draft, last, traced, rfl⟩ := graph_eq_ok.mp drawn
  obtain ⟨reached, drawn⟩ := fromStart_draws traced
  obtain ⟨strokes, recorded⟩ := exists_recorded drawn
  exact ⟨draft, last, reached, strokes, recorded, rfl, recorded.graph_nodes linkEnd last,
    fun stroke member => recorded.wired member linkEnd last, recorded.labelled linkEnd last,
    fun _ => recorded.no_loopEntry⟩

theorem mutualCalls_wired :
    ∃ traced, graph FunctionMap.mutualCalls true "A.f" = .ok traced ∧
      ∃ draft last reached strokes,
        Recorded FunctionMap.mutualCalls "A.f" draft reached strokes ∧
        traced = toGraph (close true draft last) "A.f" ∧
        traced.nodes.Perm (numbered .start 0 :: numbered (.method "A.f") 1 ::
          (strokes.flatMap (Stroke.flowNodes FunctionMap.mutualCalls) ++
            [numbered .finish draft.nodes.length])) ∧
        (∀ stroke ∈ strokes, stroke.Wired FunctionMap.mutualCalls traced) ∧
        (traced.edges.filter Edge.isWay).Perm
          ((strokes.flatMap Stroke.ways).map (Edge.map nodeId)) ∧
        ∀ edge ∈ traced.edges, edge.kind ≠ .loopEntry := by
  have supported : FunctionMap.mutualCalls.isSupported = true := by decide
  obtain ⟨draft, last, trail, -, traced, -⟩ := graph_total supported "A.f"
  exact ⟨_, traced true, graph_wired (traced true)⟩

end Trace

end MethodFlow
