import MethodFlow.Proofs.Flow.Agreement
import MethodFlow.Proofs.Flow.Strokes

/-!
When a trace fails. A walk goes through all that calls lead to, past values that are no statements,
and lists these in the order in which it comes upon them. There is exactly one such walk from an
entry method; a trace fails if and only if the walk lists a value, and then it names the first one.
-/
namespace MethodFlow

def Statement.stray? : Statement → Option String
  | .unsupported typeName => some typeName
  | _ => none

theorem Statement.stray?_eq_some {statement : Statement} {typeName : String} :
    statement.stray? = some typeName ↔ statement = .unsupported typeName := by
  cases statement <;> simp [stray?]

def Statement.straysIn (statements : List Statement) : List String :=
  (allIn statements).filterMap stray?

def Work.strays (work : Work) : List String :=
  work.statements.filterMap Statement.stray?

namespace Walks

variable {map : FunctionMap} {work : Work} {met trail : List String} {strays : List String}

/-- A walk lists every stray value of the methods that it unfolds as often as it occurs. -/
theorem strays_perm (walk : Walks map work met trail strays) :
    strays.Perm (work.strays ++ trail.flatMap fun name => Statement.straysIn (map.body name)) := by
  induction walk with
  | again known => exact .refl _
  | unfold fresh body ih => exact ih
  | call resolved target ih => exact ih
  | leaf unresolved => exact .refl _
  | branch onTrue onFalse ihTrue ihFalse =>
      rw [List.flatMap_append]
      simp only [Work.strays, Work.statements, Statement.all, List.filterMap_cons, Statement.stray?,
        List.filterMap_append]
      exact (ihTrue.append ihFalse).trans (perm_parts _ _ _ _)
  | loop body ih => exact ih
  | stray => exact .refl _
  | nil => exact .refl _
  | cons first rest ihFirst ihRest =>
      rw [List.flatMap_append]
      simp only [Work.strays, Work.statements, Statement.allIn, List.filterMap_append]
      exact (ihFirst.append ihRest).trans (perm_parts _ _ _ _)

theorem unique (walk : Walks map work met trail strays) {trail' : List String}
    {strays' : List String} (other : Walks map work met trail' strays') :
    trail' = trail ∧ strays' = strays := by
  induction walk generalizing trail' strays' with
  | again known =>
      cases other with
      | again _ => exact ⟨rfl, rfl⟩
      | unfold fresh body => exact absurd known fresh
  | unfold fresh body ih =>
      cases other with
      | again known => exact absurd known fresh
      | unfold _ body' =>
          obtain ⟨rfl, rfl⟩ := ih body'
          exact ⟨rfl, rfl⟩
  | call resolved target ih =>
      cases other with
      | call resolved' target' =>
          obtain rfl := Option.some.inj (resolved'.symm.trans resolved)
          exact ih target'
      | leaf unresolved => cases unresolved.symm.trans resolved
  | leaf unresolved =>
      cases other with
      | call resolved target => cases unresolved.symm.trans resolved
      | leaf _ => exact ⟨rfl, rfl⟩
  | branch onTrue onFalse ihTrue ihFalse =>
      cases other with
      | branch onTrue' onFalse' =>
          obtain ⟨rfl, rfl⟩ := ihTrue onTrue'
          obtain ⟨rfl, rfl⟩ := ihFalse onFalse'
          exact ⟨rfl, rfl⟩
  | loop body ih =>
      cases other with
      | loop body' => exact ih body'
  | stray =>
      cases other
      exact ⟨rfl, rfl⟩
  | nil =>
      cases other
      exact ⟨rfl, rfl⟩
  | cons first rest ihFirst ihRest =>
      cases other with
      | cons first' rest' =>
          obtain ⟨rfl, rfl⟩ := ihFirst first'
          obtain ⟨rfl, rfl⟩ := ihRest rest'
          exact ⟨rfl, rfl⟩

end Walks

section Totality

variable {map : FunctionMap} {depth : Nat}

mutual

theorem Statement.walk_total
    (methods : ∀ callee ∈ map.keys, ∀ met, map.remaining met ≤ depth →
      ∃ trail strays, Walks map (.method callee) met trail strays) :
    ∀ (statement : Statement) (met : List String), map.remaining met ≤ depth →
      ∃ trail strays, Walks map (.statement statement) met trail strays
  | .call name line receiver, met, few => by
      cases resolved : map.callee? name with
      | none => exact ⟨_, _, .leaf resolved⟩
      | some callee =>
          obtain ⟨trail, strays, target⟩ := methods callee (map.callee?_mem_keys resolved) met few
          exact ⟨_, _, .call resolved target⟩
  | .branch condition line whenTrue whenFalse, met, few => by
      obtain ⟨trail, strays, onTrue⟩ := walkAll_total methods whenTrue met few
      have fewer : map.remaining (trail.reverse ++ met) ≤ depth :=
        (map.remaining_anti (List.subset_append_right _ _)).trans few
      obtain ⟨trail₁, strays₁, onFalse⟩ := walkAll_total methods whenFalse _ fewer
      exact ⟨_, _, .branch onTrue onFalse⟩
  | .loop kind condition line body, met, few => by
      obtain ⟨trail, strays, inside⟩ := walkAll_total methods body met few
      exact ⟨_, _, .loop inside⟩
  | .unsupported _, met, few => ⟨_, _, .stray⟩

theorem Statement.walkAll_total
    (methods : ∀ callee ∈ map.keys, ∀ met, map.remaining met ≤ depth →
      ∃ trail strays, Walks map (.method callee) met trail strays) :
    ∀ (statements : List Statement) (met : List String), map.remaining met ≤ depth →
      ∃ trail strays, Walks map (.body statements) met trail strays
  | [], met, few => ⟨_, _, .nil⟩
  | statement :: statements, met, few => by
      obtain ⟨trail, strays, first⟩ := walk_total methods statement met few
      have fewer : map.remaining (trail.reverse ++ met) ≤ depth :=
        (map.remaining_anti (List.subset_append_right _ _)).trans few
      obtain ⟨trail₁, strays₁, rest⟩ := walkAll_total methods statements _ fewer
      exact ⟨_, _, .cons first rest⟩

end

namespace FunctionMap

theorem walkKey_total (depth : Nat) :
    ∀ callee ∈ map.keys, ∀ met, map.remaining met ≤ depth →
      ∃ trail strays, Walks map (.method callee) met trail strays := by
  induction depth with
  | zero =>
      intro callee present met few
      have known : callee ∈ met := by
        by_contra fresh
        exact Nat.not_lt_zero _ ((map.remaining_cons_lt present fresh).trans_le few)
      exact ⟨_, _, .again known⟩
  | succ depth ih =>
      intro callee present met few
      by_cases known : callee ∈ met
      · exact ⟨_, _, .again known⟩
      · have fewer : map.remaining (callee :: met) ≤ depth :=
          Nat.le_of_lt_succ ((map.remaining_cons_lt present known).trans_le few)
        obtain ⟨trail, strays, body⟩ := Statement.walkAll_total ih (map.body callee) _ fewer
        exact ⟨_, _, .unfold known body⟩

theorem walkAll_total (map : FunctionMap) (statements : List Statement) (met : List String) :
    ∃ trail strays, Walks map (.body statements) met trail strays :=
  Statement.walkAll_total (walkKey_total (map.remaining met)) statements met (Nat.le_refl _)

end FunctionMap

end Totality

section Failing

/-- The walk through `work` comes upon the value that stopped a trace, and upon no other before. -/
def Halt.IsFirst (halt : Halt) (map : FunctionMap) (work : Work) (met : List String) : Prop :=
  ∃ trail strays, Walks map work met trail (halt.error.typeName :: strays)

def Trace.CallFails (map : FunctionMap) (depth : Nat) (call : String → Int → Step) : Prop :=
  ∀ name line receiver draft parent halt, map.remaining draft.unfolded ≤ depth →
    call name line draft parent = .error halt →
    halt.IsFirst map (.statement (.call name line receiver)) draft.unfolded

variable {map : FunctionMap} {depth : Nat}

section Statements

variable {call : String → Int → Step}

mutual

theorem Statement.unfold_fails (draws : Trace.CallDraws map depth call)
    (fails : Trace.CallFails map depth call) :
    ∀ (statement : Statement) (draft : Draft) (parent : Nat) (halt : Halt),
      map.remaining draft.unfolded ≤ depth →
      statement.unfold call draft parent = .error halt →
      halt.IsFirst map (.statement statement) draft.unfolded
  | .call name line receiver, draft, parent, halt, few, failed =>
      fails name line receiver draft parent halt few failed
  | .branch condition line whenTrue whenFalse, draft, parent, halt, few, failed => by
      simp only [unfold, bind_eq_error, Draft.follow_snd] at failed
      rcases failed with onTrue | ⟨⟨draft₁, trueEnd⟩, drawnTrue, onFalse | ⟨_, -, merged⟩⟩
      · -- The walk goes on through the other body, which was never drawn.
        obtain ⟨trail, strays, walkTrue⟩ := unfoldAll_fails draws fails whenTrue
          (draft.follow parent .sequence (.decision condition line)).1 _ halt few onTrue
        obtain ⟨trail₁, strays₁, walkFalse⟩ :=
          map.walkAll_total whenFalse (trail.reverse ++ draft.unfolded)
        exact ⟨_, _, .branch walkTrue walkFalse⟩
      · obtain ⟨trail, drawing⟩ := unfoldAll_draws draws whenTrue
          (draft.follow parent .sequence (.decision condition line)).1 _ draft₁ trueEnd few
          drawnTrue
        have fewer : map.remaining draft₁.unfolded ≤ depth :=
          (map.remaining_anti drawing.unfolded_subset).trans few
        obtain ⟨trail₁, strays, walkFalse⟩ :=
          unfoldAll_fails draws fails whenFalse draft₁ _ halt fewer onFalse
        rw [drawing.unfolded_eq] at walkFalse
        exact ⟨_, _, .branch drawing.walks walkFalse⟩
      · cases merged
  | .loop kind condition line body, draft, parent, halt, few, failed => by
      simp only [unfold, bind_eq_error, Draft.follow_snd] at failed
      rcases failed with inside | ⟨_, -, closed⟩
      · obtain ⟨trail, strays, walk⟩ := unfoldAll_fails draws fails body
          (draft.follow parent .sequence (.loop kind condition line)).1 _ halt few inside
        exact ⟨_, _, .loop walk⟩
      · cases closed
  | .unsupported _, draft, parent, halt, few, failed => by
      cases failed
      exact ⟨_, _, .stray⟩

theorem Statement.unfoldAll_fails (draws : Trace.CallDraws map depth call)
    (fails : Trace.CallFails map depth call) :
    ∀ (statements : List Statement) (draft : Draft) (parent : Nat) (halt : Halt),
      map.remaining draft.unfolded ≤ depth →
      unfoldAll call statements draft parent = .error halt →
      halt.IsFirst map (.body statements) draft.unfolded
  | [], draft, parent, halt, few, failed => by cases failed
  | statement :: statements, draft, parent, halt, few, failed => by
      simp only [unfoldAll, bind_eq_error] at failed
      rcases failed with first | ⟨⟨draft₁, next⟩, drawnFirst, rest⟩
      · obtain ⟨trail, strays, walk⟩ := unfold_fails draws fails statement draft parent halt few
          first
        obtain ⟨trail₁, strays₁, others⟩ :=
          map.walkAll_total statements (trail.reverse ++ draft.unfolded)
        exact ⟨_, _, .cons walk others⟩
      · obtain ⟨trail, drawing⟩ := unfold_draws draws statement draft parent draft₁ next few
          drawnFirst
        have fewer : map.remaining draft₁.unfolded ≤ depth :=
          (map.remaining_anti drawing.unfolded_subset).trans few
        obtain ⟨trail₁, strays, walk⟩ :=
          unfoldAll_fails draws fails statements draft₁ next halt fewer rest
        rw [drawing.unfolded_eq] at walk
        exact ⟨_, _, .cons drawing.walks walk⟩

end

end Statements

namespace Trace

theorem call_fails {method : String → Step}
    (methods : ∀ callee ∈ map.keys, ∀ draft parent halt,
      map.remaining draft.unfolded ≤ depth → method callee draft parent = .error halt →
      halt.IsFirst map (.method callee) draft.unfolded) :
    CallFails map depth (call map method) := by
  intro name line receiver draft parent halt few failed
  unfold call at failed
  split at failed
  · rename_i callee resolved
    obtain ⟨trail, strays, target⟩ :=
      methods callee (map.callee?_mem_keys resolved) draft parent halt few failed
    exact ⟨_, _, .call resolved target⟩
  · cases failed

theorem method_fails (depth : Nat) (fullName : String) (draft : Draft) (parent : Nat)
    (halt : Halt)
    (few : fullName ∉ draft.unfolded → map.remaining (fullName :: draft.unfolded) < depth)
    (failed : method map depth fullName draft parent = .error halt) :
    halt.IsFirst map (.method fullName) draft.unfolded := by
  induction depth generalizing fullName draft parent halt with
  | zero => cases failed
  | succ depth ih =>
      by_cases met : fullName ∈ draft.unfolded
      · rw [method_of_met met] at failed
        cases failed
      · rw [method, if_neg (mt List.contains_iff_mem.mp met)] at failed
        have fails : CallFails map depth (call map (method map depth)) := by
          apply call_fails
          intro callee present draft parent halt few
          refine ih callee draft parent halt fun fresh => ?_
          exact (map.remaining_cons_lt present fresh).trans_le few
        obtain ⟨trail, strays, body⟩ := Statement.unfoldAll_fails (call_method_draws map depth)
          fails _ _ _ halt (Nat.le_of_lt_succ (few met)) failed
        exact ⟨_, _, .unfold met body⟩

theorem graph_eq_error {map : FunctionMap} {linkEnd : Bool} {entry : String}
    {failure : UnsupportedStatement} :
    graph map linkEnd entry = .error failure ↔
      ∃ draft, fromStart map entry = .error ⟨failure, draft⟩ := by
  cases drawn : fromStart map entry with
  | error halt =>
      obtain ⟨error, draft⟩ := halt
      simp [graph, Tracer.trace, Tracer.new, drawn]
  | ok outcome => simp [graph, Tracer.trace, Tracer.new, drawn]

theorem graph_walks (map : FunctionMap) (linkEnd : Bool) (entry : String) :
    ∃ trail strays, Walks map (.method entry) [] trail strays ∧
      ∀ failure, graph map linkEnd entry = .error failure ↔
        strays.head? = some failure.typeName := by
  cases traced : fromStart map entry with
  | ok outcome =>
      obtain ⟨trail, drawn⟩ := fromStart_draws traced
      exact ⟨trail, [], drawn.walks, by simp [graph_eq_error, traced]⟩
  | error halt =>
      obtain ⟨trail, strays, walk⟩ := method_fails (map.entries.length + 1) entry opening 0 halt
        (fun _ => Nat.lt_succ_of_le (map.remaining_le_length _)) traced
      refine ⟨trail, halt.error.typeName :: strays, walk, fun other => ?_⟩
      obtain ⟨⟨typeName⟩, draft⟩ := halt
      obtain ⟨otherName⟩ := other
      simp [graph_eq_error, traced]

end Trace

end Failing

/-- Whether calls lead from `entry` to a method with a value among its statements that is none. -/
def FunctionMap.LeadsToStray (map : FunctionMap) (entry : String) : Prop :=
  ∃ name typeName, map.Reaches entry name ∧
    .unsupported typeName ∈ Statement.allIn (map.body name)

theorem Walks.leadsToStray_iff {map : FunctionMap} {entry : String} {trail : List String}
    {strays : List String} (walk : Walks map (.method entry) [] trail strays) :
    map.LeadsToStray entry ↔ ∃ typeName, strays.head? = some typeName := by
  have listed (typeName : String) : typeName ∈ strays ↔
      ∃ name, map.Reaches entry name ∧
        .unsupported typeName ∈ Statement.allIn (map.body name) := by
    rw [walk.strays_perm.mem_iff]
    simp [Work.strays, Work.statements, Statement.straysIn, Statement.stray?_eq_some,
      walk.mem_trail_iff]
  have first : (∃ typeName, strays.head? = some typeName) ↔ ∃ typeName, typeName ∈ strays := by
    cases strays <;> simp
  rw [first, FunctionMap.LeadsToStray, exists_comm]
  exact exists_congr fun typeName => (listed typeName).symm

namespace Tracer

theorem trace_eq (tracer : Tracer) (entry : String) :
    ∃ left, tracer.trace entry =
      ({ tracer with draft := left }, Trace.graph tracer.functions tracer.linkEnd entry) := by
  rw [Trace.graph, trace, trace, new]
  cases Trace.fromStart tracer.functions entry with
  | error halt => exact ⟨halt.draft, rfl⟩
  | ok outcome => exact ⟨Trace.close tracer.linkEnd outcome.1 outcome.2, rfl⟩

theorem traceAll_eq (tracer : Tracer) (entries : List String) :
    ∃ left, tracer.traceAll entries =
      ({ tracer with draft := left },
        entries.map (Trace.graph tracer.functions tracer.linkEnd)) := by
  induction entries generalizing tracer with
  | nil => exact ⟨tracer.draft, rfl⟩
  | cons entry entries ih =>
      obtain ⟨between, first⟩ := tracer.trace_eq entry
      obtain ⟨left, rest⟩ := ih { tracer with draft := between }
      refine ⟨left, ?_⟩
      rw [traceAll, first]
      dsimp only
      rw [rest]
      rfl

end Tracer

namespace Trace

/-- A trace gives a graph unless calls lead to a stray value, before it or behind it in the text of
a method, and else it names the first one of the only walk there is. A tracer that is asked again
and again, and may have failed, answers each request as a new one does. -/
theorem graph_fails_iff (map : FunctionMap) (linkEnd : Bool) (entry : String) :
    ((∃ failure, graph map linkEnd entry = .error failure) ↔ map.LeadsToStray entry) ∧
    ((∃ traced, graph map linkEnd entry = .ok traced) ↔ ¬map.LeadsToStray entry) ∧
    (∃ trail strays, Walks map (.method entry) [] trail strays ∧
      (∀ trail' strays', Walks map (.method entry) [] trail' strays' →
        trail' = trail ∧ strays' = strays) ∧
      (∀ failure, graph map linkEnd entry = .error failure ↔
        strays.head? = some failure.typeName) ∧
      ∀ failure, graph map linkEnd entry = .error failure →
        ∃ typeName, strays.head? = some typeName ∧
          failure.message = "Unsupported statement type: " ++ typeName) ∧
    ∀ (left : Draft) (earlier later : List String),
      let tracer : Tracer := ⟨map, linkEnd, left⟩
      ((tracer.traceAll earlier).1.trace entry).2 = graph map linkEnd entry ∧
      (tracer.traceAll (earlier ++ entry :: later)).2 =
        (tracer.traceAll earlier).2 ++ graph map linkEnd entry :: (tracer.traceAll later).2 := by
  obtain ⟨trail, strays, walk, names⟩ := graph_walks map linkEnd entry
  have fails : (∃ failure, graph map linkEnd entry = .error failure) ↔ map.LeadsToStray entry := by
    rw [walk.leadsToStray_iff]
    constructor
    · rintro ⟨failure, failed⟩
      exact ⟨failure.typeName, (names failure).mp failed⟩
    · rintro ⟨typeName, first⟩
      exact ⟨⟨typeName⟩, (names ⟨typeName⟩).mpr first⟩
  refine ⟨fails, ?_, ⟨trail, strays, walk, fun _ _ => walk.unique, names, ?_⟩, ?_⟩
  · rw [← fails]
    cases graph map linkEnd entry with
    | ok traced => simp
    | error failure => simp
  · intro failure failed
    exact ⟨failure.typeName, (names failure).mp failed, rfl⟩
  · intro left earlier later tracer
    have answers (entries : List String) :
        (tracer.traceAll entries).2 = entries.map (graph map linkEnd) := by
      obtain ⟨_, run⟩ := tracer.traceAll_eq entries
      rw [run]
    obtain ⟨between, before⟩ := tracer.traceAll_eq earlier
    obtain ⟨_, asked⟩ := (tracer.traceAll earlier).1.trace_eq entry
    constructor
    · rw [asked, before]
    · rw [answers, answers, answers, List.map_append, List.map_cons]

/-- A trace that fails has drawn nodes, which are none of the next one's. -/
example :
    let map : FunctionMap := ⟨[("A.f", [.call "h" 1 none, .unsupported "tuple"]), ("A.g", [])]⟩
    let failed := (Tracer.new map false).trace "A.f"
    failed.1.draft.nodes.length = 3 ∧ (failed.1.trace "A.g").1.draft.nodes.length = 3 ∧
      (failed.2.toOption.map FlowGraph.entryMethod, (failed.1.trace "A.g").2.toOption.map
        FlowGraph.entryMethod) = (none, some "A.g") := by
  decide

end Trace
end MethodFlow
