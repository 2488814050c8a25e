import MethodFlow.Proofs.Flow.Record
import Mathlib.Data.List.Nodup

/-!
The calls of a trace, told by its nodes. Each call in a method that calls lead to has one node: a
leaf if it goes to no method of the map, and otherwise the method itself where it is first met and a
reference everywhere else.
-/
namespace MethodFlow

def isMarked (name : String) : Bool :=
  " (ref)".toList.isSuffixOf name.toList

theorem isMarked_reference (name : String) : isMarked (name ++ " (ref)") = true := by
  rw [isMarked, List.isSuffixOf_iff_suffix, String.toList_append]
  exact List.suffix_append _ _

theorem splitMethodName_suffix (fullName : String) :
    (splitMethodName fullName).2.toList <:+ fullName.toList := by
  simp only [splitMethodName]
  split
  · exact List.suffix_rfl
  · have start := List.takeWhile_prefix (l := fullName.toList.reverse) (· != '.')
    simpa using List.reverse_suffix.mpr start

theorem isMarked_of_method {fullName : String}
    (marked : isMarked (splitMethodName fullName).2 = true) : isMarked fullName = true := by
  rw [isMarked, List.isSuffixOf_iff_suffix] at marked ⊢
  exact marked.trans (splitMethodName_suffix fullName)

/-- No method, no call and not the entry has the name of a reference. -/
structure FunctionMap.Unmarked (map : FunctionMap) (entry : String) : Prop where
  keys : ∀ key ∈ map.keys, isMarked key = false
  names : ∀ item ∈ map.entries, ∀ name ∈ Statement.calledIn item.2, isMarked name = false
  entry : isMarked entry = false

namespace Statement

def isCall : Statement → Bool
  | .call _ _ _ => true
  | _ => false

def callsWhere (test : String → Int → Bool) : Statement → Bool
  | .call name line _ => test name line
  | _ => false

theorem callsWhere_isCall (test : String → Int → Bool) (statement : Statement) :
    (statement.callsWhere test && statement.isCall) = statement.callsWhere test := by
  cases statement with
  | call name line receiver => exact Bool.and_true _
  | branch condition line whenTrue whenFalse => rfl
  | loop kind condition line body => rfl
  | unsupported kind => rfl

def callsMethod (map : FunctionMap) (callee : String) : Statement → Bool :=
  callsWhere fun name _ => map.callee? name = some callee

def callsNothing (map : FunctionMap) (name : String) (line : Int) : Statement → Bool :=
  callsWhere fun called place => map.callee? called = none && called = name && place = line

@[simp] theorem callsMethod_call (map : FunctionMap) (callee name : String) (line : Int)
    (receiver : Option String) :
    (call name line receiver).callsMethod map callee = decide (map.callee? name = some callee) :=
  rfl

@[simp] theorem callsNothing_call (map : FunctionMap) (name called : String) (line place : Int)
    (receiver : Option String) :
    (call called place receiver).callsNothing map name line =
      (decide (map.callee? called = none) && decide (called = name) && decide (place = line)) :=
  rfl

mutual

theorem mem_called {name : String} {line : Int} {receiver : Option String} :
    ∀ statement : Statement, .call name line receiver ∈ statement.all → name ∈ statement.called
  | .call _ _ _, member => by
      obtain ⟨rfl, -, -⟩ := Statement.call.inj (List.mem_singleton.mp member)
      exact List.mem_singleton.mpr rfl
  | .branch _ _ whenTrue whenFalse, member => by
      rcases List.mem_cons.mp member with own | inside
      · cases own
      · rcases List.mem_append.mp inside with inTrue | inFalse
        · exact List.mem_append_left _ (mem_calledIn whenTrue inTrue)
        · exact List.mem_append_right _ (mem_calledIn whenFalse inFalse)
  | .loop _ _ _ body, member => by
      rcases List.mem_cons.mp member with own | inside
      · cases own
      · exact mem_calledIn body inside
  | .unsupported _, member => by cases List.mem_singleton.mp member

theorem mem_calledIn {name : String} {line : Int} {receiver : Option String} :
    ∀ statements : List Statement, .call name line receiver ∈ allIn statements →
      name ∈ calledIn statements
  | [], member => by cases member
  | statement :: statements, member => by
      rcases List.mem_append.mp member with inFirst | inRest
      · exact List.mem_append_left _ (mem_called statement inFirst)
      · exact List.mem_append_right _ (mem_calledIn statements inRest)

end

end Statement

def FunctionMap.callsIn (map : FunctionMap) (methods : List String) : List Statement :=
  (methods.flatMap fun name => Statement.allIn (map.body name)).filter Statement.isCall

namespace NodeLabel

def isReferenceTo (fullName : String) (label : NodeLabel) : Bool :=
  label.kind = .method && label.name = fullName ++ " (ref)"

def isMethod (className name : String) (label : NodeLabel) : Bool :=
  label.kind = .method && label.className = some className && label.name = name

theorem isReferenceTo_reference (fullName other : String) :
    (reference fullName).isReferenceTo other = decide (fullName = other) := by
  simp [isReferenceTo, reference, String.append_left_inj]

theorem not_isReferenceTo {label : NodeLabel} (unmarked : isMarked label.name = false)
    (fullName : String) : label.isReferenceTo fullName = false := by
  by_contra marked
  simp only [isReferenceTo, Bool.and_eq_true, decide_eq_true_eq, Bool.not_eq_false] at marked
  rw [marked.2, isMarked_reference] at unmarked
  cases unmarked

theorem leaf_not_isReferenceTo {name : String} (unmarked : isMarked name = false) (line : Int)
    (fullName : String) : (leaf name line).isReferenceTo fullName = false := by
  apply not_isReferenceTo
  exact unmarked

theorem method_not_isReferenceTo {fullName : String} (unmarked : isMarked fullName = false)
    (other : String) : (method fullName).isReferenceTo other = false := by
  apply not_isReferenceTo
  by_contra marked
  rw [isMarked_of_method (by simpa [method] using marked)] at unmarked
  cases unmarked

theorem isMethod_method (fullName className name : String) :
    (method fullName).isMethod className name =
      decide (splitMethodName fullName = (className, name)) := by
  rw [Bool.eq_iff_iff, isMethod, Bool.and_eq_true, Bool.and_eq_true]
  simp only [decide_eq_true_eq]
  simp [method, Prod.ext_iff]

def showsMethod (label : NodeLabel) : Bool :=
  label.kind = .method && label != .merge && label != .loopExit

/-- Whether a node may stand for a call. -/
def StandsFor (map : FunctionMap) (label : NodeLabel) : Statement → Prop
  | .call name line _ =>
      match map.callee? name with
      | some callee => label = .method callee ∨ label = .reference callee
      | none => label = .leaf name line
  | _ => False

end NodeLabel

/-- The nodes of a graph account for `calls`, where `reached` are the methods that the calls lead to
from `entry`. -/
structure FlowGraph.AccountsFor (graph : FlowGraph) (map : FunctionMap) (entry : String)
    (reached : List String) (calls : List Statement) : Prop where
  /-- Each node that shows a method stands for one call, except that of the entry method. -/
  paired : ∃ (own : FlowNode) (pairs : List (Statement × FlowNode)),
    own.toNodeLabel = .method entry ∧
    (graph.nodes.filter (·.showsMethod)).Perm (own :: pairs.map Prod.snd) ∧
    (pairs.map Prod.fst).Perm calls ∧ ∀ pair ∈ pairs, pair.2.StandsFor map pair.1
  leaves : ∀ name line, graph.nodes.countP (·.toNodeLabel = .leaf name line) =
    calls.countP (Statement.callsNothing map name line)
  references : ∀ name ∈ reached, graph.nodes.countP (·.isReferenceTo name) + 1 =
    calls.countP (Statement.callsMethod map name) + if name = entry then 1 else 0
  referenceClass : ∀ name, ∀ node ∈ graph.nodes, node.isReferenceTo name = true →
    node.className = some (splitMethodName name).1
  methods : ∀ className name, isMarked name = false →
    graph.nodes.countP (·.isMethod className name) =
      reached.countP (splitMethodName · = (className, name))

namespace Stroke

variable {map : FunctionMap}

theorem mem_closingLabels {stroke : Stroke} {label : NodeLabel}
    (member : label ∈ stroke.closingLabels) : label = .merge ∨ label = .loopExit := by
  cases stroke with
  | call name line receiver parent before => cases member
  | branch condition line whenTrue whenFalse parent before afterTrue afterFalse =>
      simp only [closingLabels] at member
      split at member
      · cases member
      · exact .inl (List.mem_singleton.mp member)
  | loop kind condition line body parent before afterBody =>
      exact .inr (List.mem_singleton.mp member)

theorem filter_flowNodes {test : NodeLabel → Bool} (merge : test .merge = false)
    (loopExit : test .loopExit = false) (stroke : Stroke) :
    (stroke.flowNodes map).filter (test ·.toNodeLabel) =
      [stroke.openingNode map].filter (test ·.toNodeLabel) := by
  have closing : stroke.closingNodes.filter (test ·.toNodeLabel) = [] := by
    rw [List.filter_eq_nil_iff]
    intro node member
    have label : node.toNodeLabel ∈ stroke.closingLabels := by
      rw [← map_closingNodes]
      exact List.mem_map_of_mem member
    rcases mem_closingLabels label with found | found
    · simp [found, merge]
    · simp [found, loopExit]
  rw [flowNodes_eq, List.filter_cons, closing, List.filter_cons, List.filter_nil]

theorem call_cases (map : FunctionMap) (name : String) (line : Int) (receiver : Option String)
    (parent : Nat) (before : Draft) :
    (map.callee? name = none ∧
      (Stroke.call name line receiver parent before).label map = .leaf name line ∧
      (Stroke.call name line receiver parent before).unfolds map = []) ∨
    ∃ callee, map.callee? name = some callee ∧
      ((Stroke.call name line receiver parent before).label map = .reference callee ∧
          (Stroke.call name line receiver parent before).unfolds map = [] ∨
        (Stroke.call name line receiver parent before).label map = .method callee ∧
          (Stroke.call name line receiver parent before).unfolds map = [callee]) := by
  cases resolved : map.callee? name with
  | none => exact .inl ⟨rfl, by simp [label, resolved], by simp [unfolds, resolved]⟩
  | some callee =>
      refine .inr ⟨callee, rfl, ?_⟩
      by_cases met : callee ∈ before.unfolded
      · exact .inl ⟨by simp [label, resolved, met], by simp [unfolds, resolved, met]⟩
      · exact .inr ⟨by simp [label, resolved, met], by simp [unfolds, resolved, met]⟩

theorem label_standsFor {stroke : Stroke} (isCall : stroke.statement.isCall = true) :
    (stroke.label map).StandsFor map stroke.statement := by
  cases stroke with
  | call name line receiver parent before =>
      rcases call_cases map name line receiver parent before with
        ⟨resolved, label, -⟩ | ⟨callee, resolved, ⟨label, -⟩ | ⟨label, -⟩⟩
      · simp [statement, NodeLabel.StandsFor, resolved, label]
      · simp [statement, NodeLabel.StandsFor, resolved, label]
      · simp [statement, NodeLabel.StandsFor, resolved, label]
  | branch condition line whenTrue whenFalse parent before afterTrue afterFalse => cases isCall
  | loop kind condition line body parent before afterBody => cases isCall

theorem showsMethod_label (stroke : Stroke) :
    (stroke.label map).showsMethod = stroke.statement.isCall := by
  cases stroke with
  | call name line receiver parent before =>
      rcases call_cases map name line receiver parent before with
        ⟨-, label, -⟩ | ⟨callee, -, ⟨label, -⟩ | ⟨label, -⟩⟩
      · simp [label, NodeLabel.showsMethod, NodeLabel.leaf, NodeLabel.merge, NodeLabel.loopExit,
          statement, Statement.isCall]
      · simp [label, NodeLabel.showsMethod, NodeLabel.reference, NodeLabel.merge,
          NodeLabel.loopExit, statement, Statement.isCall]
      · simp [label, NodeLabel.showsMethod, NodeLabel.method, NodeLabel.merge, NodeLabel.loopExit,
          statement, Statement.isCall]
  | branch condition line whenTrue whenFalse parent before afterTrue afterFalse => rfl
  | loop kind condition line body parent before afterBody => rfl

theorem leaf_iff_callsNothing {name : String} {line : Int} (stroke : Stroke) :
    stroke.label map = .leaf name line ↔ stroke.statement.callsNothing map name line = true := by
  cases stroke with
  | call called place receiver parent before =>
      rcases call_cases map called place receiver parent before with
        ⟨resolved, label, -⟩ | ⟨callee, resolved, ⟨label, -⟩ | ⟨label, -⟩⟩
      · simp [label, statement, resolved, NodeLabel.leaf]
      · simp [label, statement, resolved, NodeLabel.leaf, NodeLabel.reference]
      · simp [label, statement, resolved, NodeLabel.leaf, NodeLabel.method]
  | branch condition line whenTrue whenFalse parent before afterTrue afterFalse =>
      simp [label, statement, Statement.callsNothing, Statement.callsWhere, NodeLabel.leaf,
        NodeLabel.decision]
  | loop kind condition line body parent before afterBody =>
      simp [label, statement, Statement.callsNothing, Statement.callsWhere, NodeLabel.leaf,
        NodeLabel.loop]

theorem countP_unfolds {className name : String} (unmarked : isMarked name = false)
    (stroke : Stroke) :
    (stroke.unfolds map).countP (splitMethodName · = (className, name)) =
      if (stroke.label map).isMethod className name then 1 else 0 := by
  cases stroke with
  | call called line receiver parent before =>
      rcases call_cases map called line receiver parent before with
        ⟨-, label, unfolds⟩ | ⟨callee, -, ⟨label, unfolds⟩ | ⟨label, unfolds⟩⟩
      · simp [label, unfolds, NodeLabel.isMethod, NodeLabel.leaf]
      · have apart : callee ++ " (ref)" ≠ name := by
          rintro rfl
          rw [isMarked_reference] at unmarked
          cases unmarked
        simp [label, unfolds, NodeLabel.isMethod, NodeLabel.reference, apart]
      · simp [label, unfolds, NodeLabel.isMethod_method, List.countP_cons]
  | branch condition line whenTrue whenFalse parent before afterTrue afterFalse => rfl
  | loop kind condition line body parent before afterBody => rfl

def Unmarked (map : FunctionMap) (stroke : Stroke) : Prop :=
  ∀ name line receiver, stroke.statement = .call name line receiver →
    isMarked name = false ∧ ∀ callee, map.callee? name = some callee → isMarked callee = false

theorem label_isReferenceTo {stroke : Stroke} (unmarked : stroke.Unmarked map) {name : String}
    (marked : (stroke.label map).isReferenceTo name = true) :
    stroke.label map = .reference name := by
  cases stroke with
  | call called line receiver parent before =>
      obtain ⟨name_unmarked, callee_unmarked⟩ := unmarked called line receiver rfl
      rcases call_cases map called line receiver parent before with
        ⟨-, label, -⟩ | ⟨callee, resolved, ⟨label, -⟩ | ⟨label, -⟩⟩
      · rw [label, NodeLabel.leaf_not_isReferenceTo name_unmarked] at marked
        cases marked
      · rw [label, NodeLabel.isReferenceTo_reference, decide_eq_true_eq] at marked
        rw [label, marked]
      · rw [label, NodeLabel.method_not_isReferenceTo (callee_unmarked callee resolved)] at marked
        cases marked
  | branch condition line whenTrue whenFalse parent before afterTrue afterFalse => cases marked
  | loop kind condition line body parent before afterBody => cases marked

theorem reference_or_unfolds {stroke : Stroke} (unmarked : stroke.Unmarked map) (callee : String) :
    (if (stroke.label map).isReferenceTo callee then 1 else 0) + (stroke.unfolds map).count callee =
      if stroke.statement.callsMethod map callee then 1 else 0 := by
  cases stroke with
  | call called line receiver parent before =>
      obtain ⟨name_unmarked, callee_unmarked⟩ := unmarked called line receiver rfl
      rcases call_cases map called line receiver parent before with
        ⟨resolved, label, unfolds⟩ | ⟨target, resolved, ⟨label, unfolds⟩ | ⟨label, unfolds⟩⟩
      · have leaf := NodeLabel.leaf_not_isReferenceTo name_unmarked line callee
        simp [label, unfolds, leaf, statement, resolved]
      · simp [label, unfolds, NodeLabel.isReferenceTo_reference, statement, resolved]
      · have method := NodeLabel.method_not_isReferenceTo (callee_unmarked target resolved) callee
        simp [label, unfolds, method, statement, resolved, List.count_cons]
  | branch condition line whenTrue whenFalse parent before afterTrue afterFalse => rfl
  | loop kind condition line body parent before afterBody => rfl

end Stroke

namespace Trace

theorem countP_add_flatMap {α β : Type} {first second : α → Bool} {read : α → List β}
    {test : β → Bool} {items : List α}
    (each : ∀ item ∈ items, (if first item then 1 else 0) + (read item).countP test =
      if second item then 1 else 0) :
    items.countP first + (items.flatMap read).countP test = items.countP second := by
  induction items with
  | nil => rfl
  | cons item items ih =>
      have own := each item List.mem_cons_self
      have rest := ih fun other member => each other (List.mem_cons_of_mem _ member)
      rw [List.countP_cons, List.countP_cons, List.flatMap_cons, List.countP_append]
      omega

namespace Recorded

variable {map : FunctionMap} {entry : String} {draft : Draft} {reached : List String}
  {strokes : List Stroke}

theorem unmarked (recorded : Recorded map entry draft reached strokes)
    (named : map.Unmarked entry) : ∀ stroke ∈ strokes, stroke.Unmarked map := by
  intro stroke member name line receiver called
  constructor
  · have drawn : Statement.call name line receiver ∈ strokes.map Stroke.statement :=
      called ▸ List.mem_map_of_mem member
    obtain ⟨key, -, inside⟩ := List.mem_flatMap.mp (recorded.statements.mem_iff.mp drawn)
    have bodies := FunctionMap.body_of_entries
      (fun statements => (Statement.calledIn statements).all fun name => !isMarked name) rfl
      (by simpa using named.names) key
    simpa using List.all_eq_true.mp bodies name (Statement.mem_calledIn _ inside)
  · intro callee resolved
    exact named.keys callee (FunctionMap.callee?_mem_keys resolved)

/-- A test that is passed by none of the nodes that show no method is passed by the first nodes of
statements alone, beside that of the entry method. -/
theorem filter_nodes (recorded : Recorded map entry draft reached strokes) (linkEnd : Bool)
    (last : Nat) (test : NodeLabel → Bool) (start : test .start = false)
    (finish : test .finish = false) (merge : test .merge = false)
    (loopExit : test .loopExit = false) :
    ((toGraph (close linkEnd draft last) entry).nodes.filter (test ·.toNodeLabel)).Perm
      ((numbered (.method entry) 1 :: strokes.map (Stroke.openingNode map)).filter
        (test ·.toNodeLabel)) := by
  have drawn : (strokes.flatMap (Stroke.flowNodes map)).filter (test ·.toNodeLabel) =
      (strokes.map (Stroke.openingNode map)).filter (test ·.toNodeLabel) := by
    rw [List.map_eq_flatMap, List.filter_flatMap, List.filter_flatMap]
    simp only [Stroke.filter_flowNodes merge loopExit]
  refine ((recorded.graph_nodes linkEnd last).filter (test ·.toNodeLabel)).trans (.of_eq ?_)
  cases own : test (.method entry) with
  | false => simp [drawn, start, finish, own]
  | true => simp [drawn, start, finish, own]

theorem countP_nodes (recorded : Recorded map entry draft reached strokes) (linkEnd : Bool)
    (last : Nat) (test : NodeLabel → Bool) (start : test .start = false)
    (finish : test .finish = false) (merge : test .merge = false)
    (loopExit : test .loopExit = false) :
    (toGraph (close linkEnd draft last) entry).nodes.countP (test ·.toNodeLabel) =
      strokes.countP (test <| ·.label map) + if test (.method entry) then 1 else 0 := by
  rw [List.countP_eq_length_filter,
    (recorded.filter_nodes linkEnd last test start finish merge loopExit).length_eq,
    ← List.countP_eq_length_filter, List.countP_cons, List.countP_map]
  rfl

theorem countP_calls (recorded : Recorded map entry draft reached strokes)
    (test : String → Int → Bool) :
    (map.callsIn reached).countP (Statement.callsWhere test) =
      strokes.countP (·.statement.callsWhere test) := by
  rw [FunctionMap.callsIn, List.countP_filter, ← recorded.statements.countP_eq, List.countP_map]
  simp only [Statement.callsWhere_isCall]
  rfl

theorem leaves (recorded : Recorded map entry draft reached strokes) (linkEnd : Bool) (last : Nat)
    (name : String) (line : Int) :
    (toGraph (close linkEnd draft last) entry).nodes.countP (·.toNodeLabel = .leaf name line) =
      (map.callsIn reached).countP (Statement.callsNothing map name line) := by
  have ownMethod : NodeLabel.method entry ≠ .leaf name line := by
    simp [NodeLabel.method, NodeLabel.leaf]
  have nodes := recorded.countP_nodes linkEnd last (fun label => label = .leaf name line)
    (by simp [NodeLabel.start, NodeLabel.leaf]) (by simp [NodeLabel.finish, NodeLabel.leaf])
    (by simp [NodeLabel.merge, NodeLabel.leaf]) (by simp [NodeLabel.loopExit, NodeLabel.leaf])
  have calls : (map.callsIn reached).countP (Statement.callsNothing map name line) =
      strokes.countP (·.statement.callsNothing map name line) :=
    recorded.countP_calls _
  rw [nodes, calls]
  simp only [Stroke.leaf_iff_callsNothing, ownMethod, decide_false, Bool.false_eq_true, if_false,
    Nat.add_zero, Bool.decide_eq_true]

/-- Each method that calls lead to is unfolded by one call, unless it is the entry method; every
other call of it has a reference. -/
theorem references (recorded : Recorded map entry draft reached strokes)
    (named : map.Unmarked entry) (linkEnd : Bool) (last : Nat) {name : String}
    (member : name ∈ reached) :
    (toGraph (close linkEnd draft last) entry).nodes.countP (·.isReferenceTo name) + 1 =
      (map.callsIn reached).countP (Statement.callsMethod map name) +
        if name = entry then 1 else 0 := by
  have nodes := recorded.countP_nodes linkEnd last (NodeLabel.isReferenceTo name) rfl rfl
    (NodeLabel.not_isReferenceTo (by decide) name) (NodeLabel.not_isReferenceTo (by decide) name)
  have unfolded : reached.count name =
      (if name = entry then 1 else 0) + (strokes.flatMap (Stroke.unfolds map)).count name := by
    rw [recorded.unfolds.count_eq, List.count_cons, Nat.add_comm]
    by_cases same : name = entry
    · simp [same]
    · simp [same, Ne.symm same]
  -- Among the methods reached it counts once: as the entry or by the call that unfolds it.
  have once : reached.count name = 1 := List.count_eq_one_of_mem recorded.once member
  have drawn := countP_add_flatMap fun stroke drawn =>
    Stroke.reference_or_unfolds (recorded.unmarked named stroke drawn) name
  rw [NodeLabel.method_not_isReferenceTo named.entry] at nodes
  have calls : (map.callsIn reached).countP (Statement.callsMethod map name) =
      strokes.countP (·.statement.callsMethod map name) :=
    recorded.countP_calls _
  rw [nodes, calls]
  simp only [Bool.false_eq_true, if_false, Nat.add_zero]
  rw [List.count] at unfolded once
  omega

theorem methods (recorded : Recorded map entry draft reached strokes) (linkEnd : Bool) (last : Nat)
    {className name : String} (unmarked : isMarked name = false) :
    (toGraph (close linkEnd draft last) entry).nodes.countP (·.isMethod className name) =
      reached.countP (splitMethodName · = (className, name)) := by
  have drawn : (strokes.flatMap (Stroke.unfolds map)).countP
      (splitMethodName · = (className, name)) =
        strokes.countP (NodeLabel.isMethod className name <| ·.label map) := by
    have each : ∀ stroke ∈ strokes, (if (false : Bool) then 1 else 0) +
        (stroke.unfolds map).countP (splitMethodName · = (className, name)) =
          if (stroke.label map).isMethod className name then 1 else 0 := by
      intro stroke _
      rw [Stroke.countP_unfolds unmarked]
      exact Nat.zero_add _
    simpa using countP_add_flatMap each
  rw [recorded.countP_nodes linkEnd last (NodeLabel.isMethod className name) rfl rfl rfl rfl,
    recorded.unfolds.countP_eq, List.countP_cons, drawn, NodeLabel.isMethod_method]

theorem label_cases (recorded : Recorded map entry draft reached strokes) {linkEnd : Bool}
    {last : Nat} {node : FlowNode}
    (member : node ∈ (toGraph (close linkEnd draft last) entry).nodes) :
    node.toNodeLabel = .start ∨ node.toNodeLabel = .method entry ∨ node.toNodeLabel = .finish ∨
      ∃ stroke ∈ strokes, node.toNodeLabel ∈ stroke.labels map := by
  have listed := (recorded.graph_nodes linkEnd last).mem_iff.mp member
  rcases List.mem_cons.mp listed with rfl | listed
  · exact .inl rfl
  rcases List.mem_cons.mp listed with rfl | listed
  · exact .inr (.inl rfl)
  rcases List.mem_append.mp listed with drawn | last
  · obtain ⟨stroke, drawn, own⟩ := List.mem_flatMap.mp drawn
    refine .inr (.inr (.inr ⟨stroke, drawn, ?_⟩))
    rw [← Stroke.map_flowNodes]
    exact List.mem_map_of_mem own
  · obtain rfl := List.mem_singleton.mp last
    exact .inr (.inr (.inl rfl))

theorem referenceClass (recorded : Recorded map entry draft reached strokes)
    (named : map.Unmarked entry) {linkEnd : Bool} {last : Nat} {name : String} {node : FlowNode}
    (member : node ∈ (toGraph (close linkEnd draft last) entry).nodes)
    (marked : node.isReferenceTo name = true) :
    node.className = some (splitMethodName name).1 := by
  rcases recorded.label_cases member with start | own | finish | ⟨stroke, drawn, label⟩
  · rw [start] at marked
    cases marked
  · rw [own, NodeLabel.method_not_isReferenceTo named.entry] at marked
    cases marked
  · rw [finish] at marked
    cases marked
  · rcases List.mem_cons.mp label with opened | closed
    · rw [opened] at marked ⊢
      rw [Stroke.label_isReferenceTo (recorded.unmarked named stroke drawn) marked]
      rfl
    · rcases stroke.mem_closingLabels closed with merge | loopExit
      · rw [merge, NodeLabel.not_isReferenceTo (by decide)] at marked
        cases marked
      · rw [loopExit, NodeLabel.not_isReferenceTo (by decide)] at marked
        cases marked

theorem paired (recorded : Recorded map entry draft reached strokes) (linkEnd : Bool) (last : Nat) :
    ∃ (own : FlowNode) (pairs : List (Statement × FlowNode)), own.toNodeLabel = .method entry ∧
      ((toGraph (close linkEnd draft last) entry).nodes.filter (·.showsMethod)).Perm
        (own :: pairs.map Prod.snd) ∧
      (pairs.map Prod.fst).Perm (map.callsIn reached) ∧
      ∀ pair ∈ pairs, pair.2.StandsFor map pair.1 := by
  have own : (NodeLabel.method entry).showsMethod = true := by
    simp [NodeLabel.showsMethod, NodeLabel.method, NodeLabel.merge, NodeLabel.loopExit]
  refine ⟨numbered (.method entry) 1,
    (strokes.filter (·.statement.isCall)).map fun stroke =>
      (stroke.statement, stroke.openingNode map), rfl, ?_, ?_, ?_⟩
  · have shown := recorded.filter_nodes linkEnd last NodeLabel.showsMethod rfl rfl rfl rfl
    rw [List.filter_cons, numbered_toNodeLabel, if_pos own, List.filter_map] at shown
    rw [List.map_map]
    refine shown.trans (.of_eq ?_)
    simp only [Function.comp_def, Stroke.openingNode_toNodeLabel, Stroke.showsMethod_label]
  · have called := recorded.statements.filter Statement.isCall
    rw [List.filter_map] at called
    rw [List.map_map]
    exact called
  · intro pair member
    obtain ⟨stroke, called, rfl⟩ := List.mem_map.mp member
    exact Stroke.label_standsFor (List.mem_filter.mp called).2

theorem accountsFor (recorded : Recorded map entry draft reached strokes)
    (named : map.Unmarked entry) (linkEnd : Bool) (last : Nat) :
    (toGraph (close linkEnd draft last) entry).AccountsFor map entry reached
      (map.callsIn reached) where
  paired := recorded.paired linkEnd last
  leaves := recorded.leaves linkEnd last
  references := fun _ => recorded.references named linkEnd last
  referenceClass := fun _ _ member => recorded.referenceClass named member
  methods := fun _ _ => recorded.methods linkEnd last

end Recorded

/-- Where no name ends like that of a reference, the nodes of a traced graph account for the calls
in all methods that calls lead to. -/
theorem graph_accounts (map : FunctionMap) (supported : map.isSupported = true) (entry : String)
    (named : map.Unmarked entry) :
    ∃ reached : List String, reached.Nodup ∧
      (∀ name, name ∈ reached ↔ map.Reaches entry name) ∧
      ∀ linkEnd, ∃ traced, graph map linkEnd entry = .ok traced ∧
        traced.AccountsFor map entry reached (map.callsIn reached) := by
  obtain ⟨draft, last, trail, -, traced, drawn⟩ := graph_total supported entry
  obtain ⟨strokes, recorded⟩ := exists_recorded drawn
  exact ⟨trail, recorded.once, recorded.reached_iff, fun linkEnd =>
    ⟨_, traced linkEnd, recorded.accountsFor named linkEnd last⟩⟩

theorem mutualCalls_accounts :
    FunctionMap.mutualCalls.isSupported = true ∧ FunctionMap.mutualCalls.Unmarked "A.f" ∧
    ∃ reached : List String, reached.Nodup ∧
      (∀ name, name ∈ reached ↔ FunctionMap.mutualCalls.Reaches "A.f" name) ∧
      ∀ linkEnd, ∃ traced, graph FunctionMap.mutualCalls linkEnd "A.f" = .ok traced ∧
        traced.AccountsFor FunctionMap.mutualCalls "A.f" reached
          (FunctionMap.mutualCalls.callsIn reached) := by
  have named : FunctionMap.mutualCalls.Unmarked "A.f" := ⟨by decide, by decide, by decide⟩
  exact ⟨by decide, named, graph_accounts FunctionMap.mutualCalls (by decide) "A.f" named⟩

end Trace

end MethodFlow
