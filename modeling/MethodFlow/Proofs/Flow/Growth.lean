import MethodFlow.Flow.Trace
import Mathlib.Data.List.Basic

/-!
Drafts only grow: whatever is drawn, nodes and edges that are there keep their places. For each way
to draw, what it adds.
-/
namespace MethodFlow

namespace NodeLabel

@[simp] theorem start_kind : start.kind = .start := rfl

@[simp] theorem finish_kind : finish.kind = .finish := rfl

@[simp] theorem method_kind (fullName : String) : (method fullName).kind = .method := rfl

@[simp] theorem reference_kind (fullName : String) : (reference fullName).kind = .method := rfl

@[simp] theorem leaf_kind (name : String) (line : Int) : (leaf name line).kind = .method := rfl

@[simp] theorem decision_kind (condition : String) (line : Int) :
    (decision condition line).kind = .decision := rfl

@[simp] theorem merge_kind : merge.kind = .method := rfl

@[simp] theorem loop_kind (kind : LoopKind) (condition : String) (line : Int) :
    (loop kind condition line).kind = .loop := rfl

@[simp] theorem loopExit_kind : loopExit.kind = .method := rfl

end NodeLabel

namespace Draft

variable (draft : Draft)

@[simp] theorem add_snd (node : NodeLabel) : (draft.add node).2 = draft.nodes.length := rfl

@[simp] theorem add_nodes (node : NodeLabel) : (draft.add node).1.nodes = draft.nodes ++ [node] :=
  rfl

@[simp] theorem add_edges (node : NodeLabel) : (draft.add node).1.edges = draft.edges := rfl

@[simp] theorem add_unfolded (node : NodeLabel) : (draft.add node).1.unfolded = draft.unfolded :=
  rfl

@[simp] theorem link_nodes (edge : Edge Nat) : (draft.link edge).nodes = draft.nodes := rfl

@[simp] theorem link_edges (edge : Edge Nat) : (draft.link edge).edges = draft.edges ++ [edge] :=
  rfl

@[simp] theorem link_unfolded (edge : Edge Nat) : (draft.link edge).unfolded = draft.unfolded := rfl

section Follow

variable (source : Nat) (kind : EdgeKind) (node : NodeLabel)

@[simp] theorem follow_snd : (draft.follow source kind node).2 = draft.nodes.length := rfl

@[simp] theorem follow_nodes :
    (draft.follow source kind node).1.nodes = draft.nodes ++ [node] := rfl

@[simp] theorem follow_edges :
    (draft.follow source kind node).1.edges =
      draft.edges ++ [{ source, target := draft.nodes.length, kind }] := rfl

@[simp] theorem follow_unfolded :
    (draft.follow source kind node).1.unfolded = draft.unfolded := rfl

end Follow

section Enter

variable (parent : Nat) (fullName : String)

@[simp] theorem enter_snd : (draft.enter parent fullName).2 = draft.nodes.length := rfl

@[simp] theorem enter_nodes :
    (draft.enter parent fullName).1.nodes = draft.nodes ++ [.method fullName] := rfl

@[simp] theorem enter_edges :
    (draft.enter parent fullName).1.edges =
      draft.edges ++ [{ source := parent, target := draft.nodes.length, kind := .calls }] := rfl

@[simp] theorem enter_unfolded :
    (draft.enter parent fullName).1.unfolded = fullName :: draft.unfolded := rfl

end Enter

def branchEdges (decision last merge : Nat) (kind : EdgeKind) (branchLabel : String)
    (body : List Statement) : List (Edge Nat) :=
  if body.isEmpty then []
  else [{ source := decision, target := last, kind, branchLabel },
    { source := last, target := merge, kind := .sequence }]

theorem joinBranch_eq (decision last merge : Nat) (kind : EdgeKind) (branchLabel : String)
    (body : List Statement) (advanced : body ≠ [] → last ≠ decision) :
    draft.joinBranch decision last merge kind branchLabel body =
      { draft with
        edges := draft.edges ++ branchEdges decision last merge kind branchLabel body } := by
  cases body with
  | nil => simp [joinBranch, branchEdges]
  | cons statement statements =>
      have moved : last ≠ decision := advanced (List.cons_ne_nil _ _)
      simp [joinBranch, branchEdges, moved, link]

def meet (draft : Draft) (decision trueEnd falseEnd : Nat) (whenTrue whenFalse : List Statement) :
    Draft :=
  { draft with
    nodes := draft.nodes ++ [.merge]
    edges := draft.edges ++
      (branchEdges decision trueEnd draft.nodes.length .ifTrue "true" whenTrue ++
        branchEdges decision falseEnd draft.nodes.length .ifFalse "false" whenFalse) }

section Meet

variable (decision trueEnd falseEnd : Nat) (whenTrue whenFalse : List Statement)

@[simp] theorem meet_nodes :
    (draft.meet decision trueEnd falseEnd whenTrue whenFalse).nodes = draft.nodes ++ [.merge] := rfl

@[simp] theorem meet_edges :
    (draft.meet decision trueEnd falseEnd whenTrue whenFalse).edges = draft.edges ++
      (branchEdges decision trueEnd draft.nodes.length .ifTrue "true" whenTrue ++
        branchEdges decision falseEnd draft.nodes.length .ifFalse "false" whenFalse) := rfl

@[simp] theorem meet_unfolded :
    (draft.meet decision trueEnd falseEnd whenTrue whenFalse).unfolded = draft.unfolded := rfl

end Meet

theorem mergeBranches_eq (decision trueEnd falseEnd : Nat) (whenTrue whenFalse : List Statement)
    (drawn : whenTrue ≠ [] ∨ whenFalse ≠ [])
    (trueAdvanced : whenTrue ≠ [] → trueEnd ≠ decision)
    (falseAdvanced : whenFalse ≠ [] → falseEnd ≠ decision) :
    draft.mergeBranches decision trueEnd falseEnd whenTrue whenFalse =
      (draft.meet decision trueEnd falseEnd whenTrue whenFalse, draft.nodes.length) := by
  have notBare : (whenTrue.isEmpty && whenFalse.isEmpty) = false := by
    simp only [Bool.and_eq_false_iff, List.isEmpty_eq_false_iff]
    exact drawn
  simp only [mergeBranches, notBare, add_snd, Bool.false_eq_true, ↓reduceIte]
  rw [joinBranch_eq _ _ _ _ _ _ _ trueAdvanced, joinBranch_eq _ _ _ _ _ _ _ falseAdvanced]
  simp [meet, add, List.append_assoc]

def backEdges (head bodyEnd : Nat) : List (Edge Nat) :=
  if bodyEnd = head then [] else [{ source := bodyEnd, target := head, kind := .loopExit }]

def leave (draft : Draft) (head bodyEnd : Nat) : Draft :=
  { draft with
    nodes := draft.nodes ++ [.loopExit]
    edges := draft.edges ++ (backEdges head bodyEnd ++
      [{ source := head, target := draft.nodes.length, kind := .loopExit }]) }

@[simp] theorem leave_nodes (head bodyEnd : Nat) :
    (draft.leave head bodyEnd).nodes = draft.nodes ++ [.loopExit] := rfl

@[simp] theorem leave_edges (head bodyEnd : Nat) :
    (draft.leave head bodyEnd).edges = draft.edges ++ (backEdges head bodyEnd ++
      [{ source := head, target := draft.nodes.length, kind := .loopExit }]) := rfl

@[simp] theorem leave_unfolded (head bodyEnd : Nat) :
    (draft.leave head bodyEnd).unfolded = draft.unfolded := rfl

theorem closeLoop_eq (head bodyEnd : Nat) :
    draft.closeLoop head bodyEnd = (draft.leave head bodyEnd, draft.nodes.length) := by
  by_cases bare : bodyEnd = head
  · simp [closeLoop, leave, backEdges, bare, follow, add, link]
  · simp [closeLoop, leave, backEdges, bare, follow, add, link]

/-- What is drawn in one draft is drawn in the other, in the same places. -/
structure Extends (draft draft' : Draft) : Prop where
  nodes : draft.nodes <+: draft'.nodes
  edges : draft.edges <+: draft'.edges

namespace Extends

variable {draft draft' draft'' : Draft}

@[refl] theorem refl : draft.Extends draft :=
  ⟨List.prefix_rfl, List.prefix_rfl⟩

theorem trans (first : draft.Extends draft') (second : draft'.Extends draft'') :
    draft.Extends draft'' :=
  ⟨first.nodes.trans second.nodes, first.edges.trans second.edges⟩

theorem length_le (grown : draft.Extends draft') : draft.nodes.length ≤ draft'.nodes.length :=
  grown.nodes.length_le

theorem mem_edges (grown : draft.Extends draft') {edge : Edge Nat} (member : edge ∈ draft.edges) :
    edge ∈ draft'.edges :=
  grown.edges.subset member

theorem getElem?_eq (grown : draft.Extends draft') {number : Nat}
    (bound : number < draft.nodes.length) : draft'.nodes[number]? = draft.nodes[number]? := by
  obtain ⟨added, same⟩ := grown.nodes
  rw [← same, List.getElem?_append_left bound]

end Extends

theorem follow_extends (source : Nat) (kind : EdgeKind) (node : NodeLabel) :
    draft.Extends (draft.follow source kind node).1 :=
  ⟨List.prefix_append _ _, List.prefix_append _ _⟩

theorem enter_extends (parent : Nat) (fullName : String) :
    draft.Extends (draft.enter parent fullName).1 :=
  ⟨List.prefix_append _ _, List.prefix_append _ _⟩

theorem meet_extends (decision trueEnd falseEnd : Nat) (whenTrue whenFalse : List Statement) :
    draft.Extends (draft.meet decision trueEnd falseEnd whenTrue whenFalse) :=
  ⟨List.prefix_append _ _, List.prefix_append _ _⟩

theorem leave_extends (head bodyEnd : Nat) : draft.Extends (draft.leave head bodyEnd) :=
  ⟨List.prefix_append _ _, List.prefix_append _ _⟩

end Draft
end MethodFlow
