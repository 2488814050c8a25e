import MethodFlow.Proofs.Flow.Reachable
import Mathlib.Data.List.Perm.Basic

/-!
What a trace draws, sorted by the statements that it stands for. Each statement of a method that
calls lead to is drawn once, as a stroke: it begins with a node of its own, may close with another
one, and has its own edges. All nodes and edges of a trace belong to one stroke each, apart from the
start, the end and the node of the entry method (`Trace.exists_recorded`).
-/
namespace MethodFlow

mutual

def Statement.all : Statement → List Statement
  | .call name line receiver => [.call name line receiver]
  | .branch condition line whenTrue whenFalse =>
      .branch condition line whenTrue whenFalse :: (allIn whenTrue ++ allIn whenFalse)
  | .loop kind condition line body => .loop kind condition line body :: allIn body
  | .unsupported kind => [.unsupported kind]

def Statement.allIn : List Statement → List Statement
  | [] => []
  | statement :: statements => statement.all ++ allIn statements

end

namespace Draft

def newest (draft : Draft) : Nat :=
  draft.nodes.length - 1

theorem EndsAt.eq_newest {draft draft' : Draft} {last : Nat} (ends : draft.EndsAt draft' last) :
    last = draft'.newest := by
  have newest := ends.newest
  unfold Draft.newest
  omega

end Draft

namespace Draws

variable {map : FunctionMap} {draft draft' : Draft} {parent last : Nat} {trail : List String}
  {statements : List Statement}

theorem body_ends (drawn : Draws map (.body statements) draft parent trail draft' last)
    (proper : statements ≠ []) : last = draft'.newest := by
  rcases drawn.ends with bare | ends
  · exact absurd (Work.body.inj bare) proper
  · exact ends.eq_newest

theorem branchEdges_newest (drawn : Draws map (.body statements) draft parent trail draft' last)
    (decision merge : Nat) (kind : EdgeKind) (branchLabel : String) :
    Draft.branchEdges decision last merge kind branchLabel statements =
      Draft.branchEdges decision draft'.newest merge kind branchLabel statements := by
  cases statements with
  | nil => rfl
  | cons statement statements => rw [drawn.body_ends (List.cons_ne_nil _ _)]

theorem backEdges_newest {source : Nat} {kind : EdgeKind} {node : NodeLabel}
    (drawn : Draws map (.body statements) (draft.follow source kind node).1 draft.nodes.length trail
      draft' last) :
    Draft.backEdges draft.nodes.length last =
      if statements.isEmpty then []
      else [{ source := draft'.newest, target := draft.nodes.length, kind := .loopExit }] := by
  rw [drawn.backEdges_eq]
  cases statements with
  | nil => rfl
  | cons statement statements => rw [drawn.body_ends (List.cons_ne_nil _ _)]

end Draws

/-- A statement as it was drawn, from the node `parent` on, with the drafts before it and behind its
bodies. -/
inductive Stroke where
  | call (name : String) (line : Int) (receiver : Option String) (parent : Nat) (before : Draft)
  | branch (condition : String) (line : Int) (whenTrue whenFalse : List Statement) (parent : Nat)
      (before afterTrue afterFalse : Draft)
  | loop (kind : LoopKind) (condition : String) (line : Int) (body : List Statement) (parent : Nat)
      (before afterBody : Draft)

namespace Stroke

def statement : Stroke → Statement
  | .call name line receiver _ _ => .call name line receiver
  | .branch condition line whenTrue whenFalse _ _ _ _ => .branch condition line whenTrue whenFalse
  | .loop kind condition line body _ _ _ => .loop kind condition line body

def before : Stroke → Draft
  | .call _ _ _ _ before => before
  | .branch _ _ _ _ _ before _ _ => before
  | .loop _ _ _ _ _ before _ => before

def number (stroke : Stroke) : Nat :=
  stroke.before.nodes.length

def closing? : Stroke → Option Nat
  | .call _ _ _ _ _ => none
  | .branch _ _ whenTrue whenFalse _ _ _ afterFalse =>
      if whenTrue.isEmpty && whenFalse.isEmpty then none else some afterFalse.nodes.length
  | .loop _ _ _ _ _ _ afterBody => some afterBody.nodes.length

def nodes (stroke : Stroke) : List Nat :=
  stroke.number :: stroke.closing?.toList

/-- The edges that are drawn for a statement itself: the one that leads to it, and those that lead
into, out of and around its bodies. -/
def edges : Stroke → List (Edge Nat)
  | .call _ _ _ parent before =>
      [{ source := parent, target := before.nodes.length, kind := .calls }]
  | .branch _ _ whenTrue whenFalse parent before afterTrue afterFalse =>
      { source := parent, target := before.nodes.length, kind := .sequence } ::
        (Draft.branchEdges before.nodes.length afterTrue.newest afterFalse.nodes.length .ifTrue
            "true" whenTrue ++
          Draft.branchEdges before.nodes.length afterFalse.newest afterFalse.nodes.length .ifFalse
            "false" whenFalse)
  | .loop _ _ _ body parent before afterBody =>
      { source := parent, target := before.nodes.length, kind := .sequence } ::
        ((if body.isEmpty then []
          else
            [{ source := afterBody.newest, target := before.nodes.length, kind := .loopExit }]) ++
          [{ source := before.nodes.length, target := afterBody.nodes.length, kind := .loopExit }])

def unfolds (map : FunctionMap) : Stroke → List String
  | .call name _ _ _ before =>
      (map.callee? name).toList.filter fun callee => !before.unfolded.contains callee
  | .branch _ _ _ _ _ _ _ _ => []
  | .loop _ _ _ _ _ _ _ => []

def label (map : FunctionMap) : Stroke → NodeLabel
  | .call name line _ _ before =>
      match map.callee? name with
      | some callee =>
          if before.unfolded.contains callee then .reference callee else .method callee
      | none => .leaf name line
  | .branch condition line _ _ _ _ _ _ => .decision condition line
  | .loop kind condition line _ _ _ _ => .loop kind condition line

/-- A stroke is drawn by the rules, from a draft that has since grown into `draft`. -/
inductive Drawn (map : FunctionMap) (draft : Draft) : Stroke → Prop
  | call {name line receiver parent before trail after last}
      (drawn : Draws map (.statement (.call name line receiver)) before parent trail after last)
      (kept : after.Extends draft) : Drawn map draft (.call name line receiver parent before)
  | branch {condition line whenTrue whenFalse parent before trueTrail afterTrue trueEnd falseTrail
        afterFalse falseEnd}
      (onTrue : Draws map (.body whenTrue)
        (before.follow parent .sequence (.decision condition line)).1 before.nodes.length
        trueTrail afterTrue trueEnd)
      (onFalse : Draws map (.body whenFalse) afterTrue before.nodes.length falseTrail afterFalse
        falseEnd)
      (kept : afterFalse.Extends draft)
      (merged : whenTrue ≠ [] ∨ whenFalse ≠ [] →
        draft.nodes[afterFalse.nodes.length]? = some .merge) :
      Drawn map draft
        (.branch condition line whenTrue whenFalse parent before afterTrue afterFalse)
  | loop {kind condition line statements parent before trail afterBody bodyEnd}
      (body : Draws map (.body statements)
        (before.follow parent .sequence (.loop kind condition line)).1 before.nodes.length
        trail afterBody bodyEnd)
      (kept : afterBody.Extends draft)
      (left : draft.nodes[afterBody.nodes.length]? = some .loopExit) :
      Drawn map draft (.loop kind condition line statements parent before afterBody)

theorem bound_of_getElem? {draft : Draft} {number : Nat} {label : NodeLabel}
    (found : draft.nodes[number]? = some label) : number < draft.nodes.length :=
  (List.getElem?_eq_some_iff.mp found).1

theorem Drawn.mono {map : FunctionMap} {draft draft' : Draft} {stroke : Stroke}
    (drawn : stroke.Drawn map draft) (grown : draft.Extends draft') : stroke.Drawn map draft' := by
  cases drawn with
  | call drawn kept => exact .call drawn (kept.trans grown)
  | branch onTrue onFalse kept merged =>
      refine .branch onTrue onFalse (kept.trans grown) fun bodies => ?_
      rw [grown.getElem?_eq (bound_of_getElem? (merged bodies))]
      exact merged bodies
  | loop body kept left =>
      refine .loop body (kept.trans grown) ?_
      rw [grown.getElem?_eq (bound_of_getElem? left)]
      exact left

end Stroke

namespace Work

def statements : Work → List Statement
  | .method _ => []
  | .statement item => item.all
  | .body items => Statement.allIn items

def nodes (draft : Draft) : Work → List Nat
  | .method _ => [draft.nodes.length]
  | .statement _ => []
  | .body _ => []

def edges (draft : Draft) (parent : Nat) : Work → List (Edge Nat)
  | .method _ => [{ source := parent, target := draft.nodes.length, kind := .calls }]
  | .statement _ => []
  | .body _ => []

def unfolds (draft : Draft) : Work → List String
  | .method fullName => if draft.unfolded.contains fullName then [] else [fullName]
  | .statement _ => []
  | .body _ => []

end Work

/-- What `draft'` has more than `draft` was drawn for `work` itself or by one of the strokes. -/
structure Accounted (map : FunctionMap) (work : Work) (draft : Draft) (parent : Nat)
    (trail : List String) (draft' : Draft) (strokes : List Stroke) : Prop where
  drawn : ∀ stroke ∈ strokes, stroke.Drawn map draft'
  statements : (strokes.map Stroke.statement).Perm
    (work.statements ++ trail.flatMap fun name => Statement.allIn (map.body name))
  unfolds : trail.Perm (work.unfolds draft ++ strokes.flatMap (Stroke.unfolds map))
  nodes : (List.range draft'.nodes.length).Perm
    (List.range draft.nodes.length ++ (work.nodes draft ++ strokes.flatMap Stroke.nodes))
  edges : draft'.edges.Perm
    (draft.edges ++ (work.edges draft parent ++ strokes.flatMap Stroke.edges))

section Perm

variable {α : Type} {before between after first second : List α}

theorem perm_following (earlier : between.Perm (before ++ first))
    (later : after.Perm (between ++ second)) : after.Perm (before ++ (first ++ second)) := by
  rw [← List.append_assoc]
  exact later.trans (earlier.append_right second)

theorem perm_enclosed {opened : α} (inside : after.Perm ((before ++ [opened]) ++ first))
    (closing : List α) : (after ++ closing).Perm (before ++ (opened :: closing ++ first)) := by
  have swapped : (first ++ closing).Perm (closing ++ first) := List.perm_append_comm
  refine (inside.append_right closing).trans ?_
  rw [List.append_assoc, List.append_assoc]
  exact (swapped.cons opened).append_left before

theorem perm_parts (first second first' second' : List α) :
    ((first ++ second) ++ (first' ++ second')).Perm ((first ++ first') ++ (second ++ second')) := by
  rw [List.append_assoc, List.append_assoc]
  exact (List.perm_append_comm_assoc _ _ _).append_left _

end Perm

namespace Accounted

variable {map : FunctionMap} {draft draft₁ draft₂ : Draft} {parent next : Nat}
  {trail trail₁ : List String} {strokes strokes₁ : List Stroke}

theorem nil : Accounted map (.body []) draft parent [] draft [] where
  drawn := fun _ member => nomatch member
  statements := .refl _
  unfolds := .refl _
  nodes := by simp [Work.nodes]
  edges := by simp [Work.edges]

theorem reference {fullName : String} (met : fullName ∈ draft.unfolded) :
    Accounted map (.method fullName) draft parent []
      (draft.follow parent .calls (.reference fullName)).1 [] where
  drawn := fun _ member => nomatch member
  statements := .refl _
  unfolds := by simp [Work.unfolds, met]
  nodes := by simp [Work.nodes, List.range_succ]
  edges := by simp [Work.edges]

theorem unfold {fullName : String} (fresh : fullName ∉ draft.unfolded)
    (body : Accounted map (.body (map.body fullName)) (draft.enter parent fullName).1
      draft.nodes.length trail draft₁ strokes) :
    Accounted map (.method fullName) draft parent (fullName :: trail) draft₁ strokes where
  drawn := body.drawn
  statements := body.statements
  unfolds := by simpa [Work.unfolds, fresh] using body.unfolds
  nodes := by simpa [Work.nodes, List.range_succ] using body.nodes
  edges := by simpa [Work.edges] using body.edges

theorem leaf {name : String} {line : Int} {receiver : Option String}
    (unresolved : map.callee? name = none) :
    Accounted map (.statement (.call name line receiver)) draft parent []
      (draft.follow parent .calls (.leaf name line)).1
      [.call name line receiver parent draft] where
  drawn := by
    intro stroke member
    obtain rfl := List.mem_singleton.mp member
    exact .call (.leaf unresolved) .refl
  statements := .refl _
  unfolds := by simp [Work.unfolds, Stroke.unfolds, unresolved]
  nodes := by
    rw [Draft.follow_nodes, List.length_append, List.length_singleton, List.range_succ]
    exact .refl _
  edges := .refl _

theorem call {name callee : String} {line : Int} {receiver : Option String} {last : Nat}
    (resolved : map.callee? name = some callee)
    (drawn : Draws map (.method callee) draft parent trail draft₁ last)
    (target : Accounted map (.method callee) draft parent trail draft₁ strokes) :
    Accounted map (.statement (.call name line receiver)) draft parent trail draft₁
      (.call name line receiver parent draft :: strokes) where
  drawn := by
    intro stroke member
    rcases List.mem_cons.mp member with rfl | member
    · exact .call (.call resolved drawn) .refl
    · exact target.drawn stroke member
  statements := target.statements.cons _
  unfolds := by
    have own : (Stroke.call name line receiver parent draft).unfolds map =
        Work.unfolds draft (.method callee) := by
      by_cases met : callee ∈ draft.unfolded
      · simp [Stroke.unfolds, Work.unfolds, resolved, met]
      · simp [Stroke.unfolds, Work.unfolds, resolved, met]
    rw [List.flatMap_cons, own]
    exact target.unfolds
  nodes := target.nodes
  edges := target.edges

theorem bareBranch {condition : String} {line : Int} :
    Accounted map (.statement (.branch condition line [] [])) draft parent []
      (draft.follow parent .sequence (.decision condition line)).1
      [.branch condition line [] [] parent draft
        (draft.follow parent .sequence (.decision condition line)).1
        (draft.follow parent .sequence (.decision condition line)).1] where
  drawn := by
    intro stroke member
    obtain rfl := List.mem_singleton.mp member
    exact .branch .nil .nil .refl fun bodies => by simp at bodies
  statements := .refl _
  unfolds := .refl _
  nodes := by
    rw [Draft.follow_nodes, List.length_append, List.length_singleton, List.range_succ]
    exact .refl _
  edges := .refl _

theorem append {statement : Statement} {statements : List Statement}
    (first : Accounted map (.statement statement) draft parent trail draft₁ strokes)
    (rest : Accounted map (.body statements) draft₁ next trail₁ draft₂ strokes₁)
    (grown : draft₁.Extends draft₂) :
    Accounted map (.body (statement :: statements)) draft parent (trail ++ trail₁) draft₂
      (strokes ++ strokes₁) where
  drawn := by
    intro stroke member
    rcases List.mem_append.mp member with inFirst | inRest
    · exact (first.drawn stroke inFirst).mono grown
    · exact rest.drawn stroke inRest
  statements := by
    rw [List.map_append, List.flatMap_append]
    exact (first.statements.append rest.statements).trans (perm_parts _ _ _ _)
  unfolds := by
    rw [List.flatMap_append]
    exact first.unfolds.append rest.unfolds
  nodes := by
    rw [List.flatMap_append]
    simpa [Work.nodes] using perm_following first.nodes rest.nodes
  edges := by
    rw [List.flatMap_append]
    simpa [Work.edges] using perm_following first.edges rest.edges

section Bodies

variable {condition : String} {line : Int} {last trueEnd falseEnd : Nat}

theorem branch {whenTrue whenFalse : List Statement} (bodies : whenTrue ≠ [] ∨ whenFalse ≠ [])
    (drawnTrue : Draws map (.body whenTrue)
      (draft.follow parent .sequence (.decision condition line)).1 draft.nodes.length trail draft₁
      trueEnd)
    (drawnFalse : Draws map (.body whenFalse) draft₁ draft.nodes.length trail₁ draft₂ falseEnd)
    (onTrue : Accounted map (.body whenTrue)
      (draft.follow parent .sequence (.decision condition line)).1 draft.nodes.length trail draft₁
      strokes)
    (onFalse : Accounted map (.body whenFalse) draft₁ draft.nodes.length trail₁ draft₂ strokes₁) :
    Accounted map (.statement (.branch condition line whenTrue whenFalse)) draft parent
      (trail ++ trail₁) (draft₂.meet draft.nodes.length trueEnd falseEnd whenTrue whenFalse)
      (.branch condition line whenTrue whenFalse parent draft draft₁ draft₂ ::
        (strokes ++ strokes₁)) where
  drawn := by
    have met := draft₂.meet_extends draft.nodes.length trueEnd falseEnd whenTrue whenFalse
    intro stroke member
    rcases List.mem_cons.mp member with rfl | member
    · exact .branch drawnTrue drawnFalse met fun _ => by simp
    · rcases List.mem_append.mp member with inTrue | inFalse
      · exact (onTrue.drawn stroke inTrue).mono (drawnFalse.draft_extends.trans met)
      · exact (onFalse.drawn stroke inFalse).mono met
  statements := by
    simp only [List.map_cons, List.map_append, List.flatMap_append]
    exact ((onTrue.statements.append onFalse.statements).trans (perm_parts _ _ _ _)).cons _
  unfolds := by
    rw [List.flatMap_cons, List.flatMap_append]
    exact onTrue.unfolds.append onFalse.unfolds
  nodes := by
    have merged : ¬(whenTrue.isEmpty && whenFalse.isEmpty) = true := by
      simpa [imp_iff_not_or] using bodies
    have opened := onTrue.nodes
    rw [Draft.follow_nodes, List.length_append, List.length_singleton, List.range_succ] at opened
    rw [Draft.meet_nodes, List.length_append, List.length_singleton, List.range_succ]
    simp only [List.flatMap_cons, List.flatMap_append, Stroke.nodes, Stroke.closing?,
      if_neg merged]
    exact perm_enclosed (perm_following opened onFalse.nodes) _
  edges := by
    have opened := onTrue.edges
    rw [Draft.follow_edges] at opened
    rw [Draft.meet_edges, drawnTrue.branchEdges_newest, drawnFalse.branchEdges_newest]
    simp only [List.flatMap_cons, List.flatMap_append, Stroke.edges]
    exact perm_enclosed (perm_following opened onFalse.edges) _

theorem loop {kind : LoopKind} {statements : List Statement}
    (drawn : Draws map (.body statements)
      (draft.follow parent .sequence (.loop kind condition line)).1 draft.nodes.length trail draft₁
      last)
    (body : Accounted map (.body statements)
      (draft.follow parent .sequence (.loop kind condition line)).1 draft.nodes.length trail draft₁
      strokes) :
    Accounted map (.statement (.loop kind condition line statements)) draft parent trail
      (draft₁.leave draft.nodes.length last)
      (.loop kind condition line statements parent draft draft₁ :: strokes) where
  drawn := by
    have left := draft₁.leave_extends draft.nodes.length last
    intro stroke member
    rcases List.mem_cons.mp member with rfl | member
    · exact .loop drawn left (by simp)
    · exact (body.drawn stroke member).mono left
  statements := body.statements.cons _
  unfolds := body.unfolds
  nodes := by
    have opened := body.nodes
    rw [Draft.follow_nodes, List.length_append, List.length_singleton, List.range_succ] at opened
    rw [Draft.leave_nodes, List.length_append, List.length_singleton, List.range_succ]
    exact perm_enclosed opened _
  edges := by
    have opened := body.edges
    rw [Draft.follow_edges] at opened
    rw [Draft.leave_edges, drawn.backEdges_newest]
    exact perm_enclosed opened _

end Bodies

end Accounted

namespace Draws

variable {map : FunctionMap} {work : Work} {draft draft' : Draft} {parent last : Nat}
  {trail : List String}

theorem accounted (drawn : Draws map work draft parent trail draft' last) :
    ∃ strokes, Accounted map work draft parent trail draft' strokes := by
  induction drawn with
  | reference met => exact ⟨_, .reference met⟩
  | unfold fresh body ih =>
      obtain ⟨strokes, inside⟩ := ih
      exact ⟨strokes, inside.unfold fresh⟩
  | call resolved target ih =>
      obtain ⟨strokes, inside⟩ := ih
      exact ⟨_, inside.call resolved target⟩
  | leaf unresolved => exact ⟨_, .leaf unresolved⟩
  | bareBranch => exact ⟨_, .bareBranch⟩
  | branch bodies onTrue onFalse ihTrue ihFalse =>
      obtain ⟨strokes, inTrue⟩ := ihTrue
      obtain ⟨strokes₁, inFalse⟩ := ihFalse
      exact ⟨_, .branch bodies onTrue onFalse inTrue inFalse⟩
  | loop body ih =>
      obtain ⟨strokes, inside⟩ := ih
      exact ⟨_, .loop body inside⟩
  | nil => exact ⟨_, .nil⟩
  | cons first rest ihFirst ihRest =>
      obtain ⟨strokes, inFirst⟩ := ihFirst
      obtain ⟨strokes₁, inRest⟩ := ihRest
      exact ⟨_, inFirst.append inRest rest.draft_extends⟩

end Draws
end MethodFlow
