import MethodFlow.Proofs.Flow.Drawing

/-!
What the nodes and edges of a drawing are like. None of its nodes marks the start or the end of a
trace (`Draws.inner_nodes`). Its edges lead to nodes of its own, from these or from the node that it
was drawn from, and they lead ahead, those apart that lead back to the head of a loop
(`Draws.wired`).
-/
namespace MethodFlow

namespace Draft

def InnerNodes (draft draft' : Draft) : Prop :=
  ∀ number label, draft.nodes.length ≤ number → draft'.nodes[number]? = some label →
    label.kind ≠ .start ∧ label.kind ≠ .finish

namespace InnerNodes

variable {draft draft₁ draft₂ : Draft}

theorem refl : draft.InnerNodes draft := by
  intro number label new found
  rw [List.getElem?_eq_none new] at found
  cases found

theorem trans (first : draft.InnerNodes draft₁) (second : draft₁.InnerNodes draft₂)
    (grown : draft₁.Extends draft₂) : draft.InnerNodes draft₂ := by
  intro number label new found
  by_cases early : number < draft₁.nodes.length
  · rw [grown.getElem?_eq early] at found
    exact first number label new found
  · exact second number label (Nat.le_of_not_lt early) found

theorem of_append {node : NodeLabel} (inner : node.kind ≠ .start ∧ node.kind ≠ .finish)
    (added : draft₁.nodes = draft.nodes ++ [node]) : draft.InnerNodes draft₁ := by
  intro number label new found
  rw [added, List.getElem?_append_right new] at found
  have same := List.mem_singleton.mp (List.mem_of_getElem? found)
  rw [same]
  exact inner

end InnerNodes

def IsBack (draft : Draft) (edge : Edge Nat) : Prop :=
  edge.kind = .loopExit ∧ ∃ label, draft.nodes[edge.target]? = some label ∧ label.kind = .loop

/-- An edge that was drawn while `draft` grew into `draft'`, all from `parent` on. -/
structure Onward (draft : Draft) (parent : Nat) (draft' : Draft) (edge : Edge Nat) : Prop where
  source : edge.source = parent ∨ draft.nodes.length ≤ edge.source
  source_lt : edge.source < draft'.nodes.length
  target : draft.nodes.length ≤ edge.target
  target_lt : edge.target < draft'.nodes.length
  back : edge.target ≤ edge.source ↔ draft'.IsBack edge

/-- All that `draft'` has more than `draft` was drawn from `parent` on. -/
def Wired (draft : Draft) (parent : Nat) (draft' : Draft) : Prop :=
  ∀ edge ∈ draft'.edges, edge ∈ draft.edges ∨ draft.Onward parent draft' edge

theorem Extends.isBack_iff {draft draft' : Draft} (grown : draft.Extends draft') {edge : Edge Nat}
    (bound : edge.target < draft.nodes.length) : draft'.IsBack edge ↔ draft.IsBack edge := by
  unfold IsBack
  rw [grown.getElem?_eq bound]

theorem Onward.widen {draft draft₁ draft₂ draft₃ : Draft} {parent parent₁ : Nat} {edge : Edge Nat}
    (onward : draft₁.Onward parent₁ draft₂ edge) (before : draft.Extends draft₁)
    (start : parent₁ = parent ∨ draft.nodes.length ≤ parent₁) (after : draft₂.Extends draft₃) :
    draft.Onward parent draft₃ edge where
  source := by
    rcases onward.source with same | new
    · rw [same]
      exact start
    · exact .inr (before.length_le.trans new)
  source_lt := onward.source_lt.trans_le after.length_le
  target := before.length_le.trans onward.target
  target_lt := onward.target_lt.trans_le after.length_le
  back := onward.back.trans (after.isBack_iff onward.target_lt).symm

theorem Onward.of_straight {draft draft' : Draft} {parent : Nat} {edge : Edge Nat}
    (source : edge.source = parent ∨ draft.nodes.length ≤ edge.source)
    (ahead : edge.source < edge.target) (target : draft.nodes.length ≤ edge.target)
    (bound : edge.target < draft'.nodes.length) (straight : edge.kind ≠ .loopExit) :
    draft.Onward parent draft' edge where
  source := source
  source_lt := ahead.trans bound
  target := target
  target_lt := bound
  back := by
    constructor
    · intro behind
      exact absurd ahead (Nat.not_lt.mpr behind)
    · intro back
      exact absurd back.1 straight

namespace Wired

variable {draft draft₁ draft₂ : Draft} {parent : Nat}

theorem refl : draft.Wired parent draft :=
  fun _ member => .inl member

theorem grow (first : draft.Wired parent draft₁) (grown : draft₁.Extends draft₂)
    (added : ∀ edge ∈ draft₂.edges, edge ∈ draft₁.edges ∨ draft.Onward parent draft₂ edge) :
    draft.Wired parent draft₂ := by
  intro edge member
  rcases added edge member with old | onward
  · rcases first edge old with older | onward
    · exact .inl older
    · exact .inr (onward.widen .refl (.inl rfl) grown)
  · exact .inr onward

theorem trans {parent₁ : Nat} (first : draft.Wired parent draft₁) (before : draft.Extends draft₁)
    (start : parent₁ = parent ∨ draft.nodes.length ≤ parent₁)
    (second : draft₁.Wired parent₁ draft₂) (after : draft₁.Extends draft₂) :
    draft.Wired parent draft₂ := by
  refine first.grow after fun edge member => ?_
  rcases second edge member with old | onward
  · exact .inl old
  · exact .inr (onward.widen before start .refl)

theorem of_append {node : NodeLabel} {kind : EdgeKind} (bound : parent < draft.nodes.length)
    (nodes : draft₁.nodes = draft.nodes ++ [node])
    (edges : draft₁.edges =
      draft.edges ++ [{ source := parent, target := draft.nodes.length, kind }])
    (straight : kind ≠ .loopExit) : draft.Wired parent draft₁ := by
  intro edge member
  rw [edges, List.mem_append, List.mem_singleton] at member
  rcases member with old | rfl
  · exact .inl old
  · exact .inr (.of_straight (.inl rfl) bound (Nat.le_refl _) (by simp [nodes]) straight)

theorem follow (bound : parent < draft.nodes.length) {kind : EdgeKind} (node : NodeLabel)
    (straight : kind ≠ .loopExit) : draft.Wired parent (draft.follow parent kind node).1 :=
  of_append bound (draft.follow_nodes _ _ _) (draft.follow_edges _ _ _) straight

theorem enter (bound : parent < draft.nodes.length) (fullName : String) :
    draft.Wired parent (draft.enter parent fullName).1 :=
  of_append bound (draft.enter_nodes _ _) (draft.enter_edges _ _) (by decide)

end Wired

theorem onward_branchEdges {draft draft' : Draft} {parent decision last merge : Nat}
    {kind : EdgeKind} {branchLabel : String} {body : List Statement} {edge : Edge Nat}
    (straight : kind ≠ .loopExit) (drawn : draft.nodes.length ≤ decision)
    (ends : body ≠ [] → decision < last ∧ last < merge) (bound : merge < draft'.nodes.length)
    (member : edge ∈ branchEdges decision last merge kind branchLabel body) :
    draft.Onward parent draft' edge := by
  cases body with
  | nil => cases member
  | cons statement statements =>
      obtain ⟨below, above⟩ := ends (List.cons_ne_nil _ _)
      simp only [branchEdges, List.isEmpty_cons, Bool.false_eq_true, ↓reduceIte, List.mem_cons,
        List.not_mem_nil, or_false] at member
      rcases member with rfl | rfl
      · exact .of_straight (.inr drawn) below (drawn.trans below.le) (above.trans bound) straight
      · have reached : draft.nodes.length ≤ last := drawn.trans below.le
        exact .of_straight (.inr reached) above (reached.trans above.le) bound (by simp)

theorem onward_backEdges {draft draft' : Draft} {parent head bodyEnd : Nat} {label : NodeLabel}
    {edge : Edge Nat} (drawn : draft.nodes.length ≤ head)
    (found : draft'.nodes[head]? = some label) (isLoop : label.kind = .loop)
    (after : head ≤ bodyEnd) (bound : bodyEnd < draft'.nodes.length)
    (member : edge ∈ backEdges head bodyEnd) : draft.Onward parent draft' edge := by
  unfold backEdges at member
  split at member
  · cases member
  · rw [List.mem_singleton] at member
    subst edge
    exact ⟨.inr (drawn.trans after), bound, drawn, after.trans_lt bound,
      iff_of_true after ⟨rfl, label, found, isLoop⟩⟩

theorem onward_exit {draft draft' : Draft} {parent head target : Nat} {label : NodeLabel}
    (drawn : draft.nodes.length ≤ head) (ahead : head < target)
    (found : draft'.nodes[target]? = some label) (plain : label.kind ≠ .loop) :
    draft.Onward parent draft' { source := head, target, kind := .loopExit } := by
  have bound : target < draft'.nodes.length := (List.getElem?_eq_some_iff.mp found).1
  refine ⟨.inr drawn, ahead.trans bound, drawn.trans ahead.le, bound, ?_⟩
  refine iff_of_false (Nat.not_le.mpr ahead) ?_
  rintro ⟨-, other, foundOther, isLoop⟩
  rw [found] at foundOther
  cases foundOther
  exact plain isLoop

end Draft

namespace Draws

variable {map : FunctionMap} {work : Work} {draft draft' : Draft} {parent last : Nat}
  {trail : List String}

theorem inner_nodes (drawn : Draws map work draft parent trail draft' last) :
    draft.InnerNodes draft' := by
  induction drawn with
  | reference met => exact .of_append (by simp) (Draft.follow_nodes _ _ _ _)
  | unfold fresh body ih =>
      exact .trans (.of_append (by simp) (Draft.enter_nodes _ _ _)) ih body.draft_extends
  | call resolved target ih => exact ih
  | leaf unresolved => exact .of_append (by simp) (Draft.follow_nodes _ _ _ _)
  | bareBranch => exact .of_append (by simp) (Draft.follow_nodes _ _ _ _)
  | branch bodies onTrue onFalse ihTrue ihFalse =>
      refine .trans (.trans (.trans (.of_append (by simp) (Draft.follow_nodes _ _ _ _)) ihTrue
        onTrue.draft_extends) ihFalse onFalse.draft_extends) ?_ (Draft.meet_extends _ _ _ _ _ _)
      exact .of_append (by simp) (Draft.meet_nodes _ _ _ _ _ _)
  | loop body ih =>
      refine .trans (.trans (.of_append (by simp) (Draft.follow_nodes _ _ _ _)) ih
        body.draft_extends) ?_ (Draft.leave_extends _ _ _)
      exact .of_append (by simp) (Draft.leave_nodes _ _ _)
  | nil => exact .refl
  | cons first rest ihFirst ihRest => exact ihFirst.trans ihRest rest.draft_extends

theorem last_eq_or_le (drawn : Draws map work draft parent trail draft' last) :
    last = parent ∨ draft.nodes.length ≤ last := by
  rcases drawn.ends with rfl | ends
  · exact .inl drawn.of_nil.2.2
  · have grown := ends.grown
    have newest := ends.newest
    exact .inr (by omega)

theorem last_lt (drawn : Draws map work draft parent trail draft' last)
    (bound : parent < draft.nodes.length) : last < draft'.nodes.length := by
  rcases drawn.ends with rfl | ends
  · obtain ⟨-, rfl, rfl⟩ := drawn.of_nil
    exact bound
  · exact Nat.lt_of_lt_of_le (Nat.lt_succ_self _) ends.newest.le

theorem wired (drawn : Draws map work draft parent trail draft' last)
    (bound : parent < draft.nodes.length) : draft.Wired parent draft' := by
  induction drawn with
  | reference met => exact .follow bound _ (by decide)
  | unfold fresh body ih =>
      exact .trans (.enter bound _) (Draft.enter_extends _ _ _) (.inr (Nat.le_refl _))
        (ih (by simp)) body.draft_extends
  | call resolved target ih => exact ih bound
  | leaf unresolved => exact .follow bound _ (by decide)
  | bareBranch => exact .follow bound _ (by decide)
  | @branch condition line whenTrue whenFalse draft parent _ draft₁ trueEnd _ draft₂ falseEnd
      bodies onTrue onFalse ihTrue ihFalse =>
      have grownTrue := (draft.follow_extends parent .sequence _).trans onTrue.draft_extends
      have longer : draft.nodes.length < draft₁.nodes.length :=
        Nat.lt_of_lt_of_le (by simp) onTrue.draft_extends.length_le
      have wiredTrue : draft.Wired parent draft₁ :=
        .trans (.follow bound _ (by decide)) (draft.follow_extends _ _ _) (.inr (Nat.le_refl _))
          (ihTrue (by simp)) onTrue.draft_extends
      have wiredFalse : draft.Wired parent draft₂ :=
        wiredTrue.trans grownTrue (.inr (Nat.le_refl _)) (ihFalse longer) onFalse.draft_extends
      refine wiredFalse.grow (draft₂.meet_extends _ _ _ _ _) fun edge member => ?_
      rw [Draft.meet_edges, List.mem_append, List.mem_append] at member
      rcases member with old | inTrue | inFalse
      · exact .inl old
      · refine .inr (Draft.onward_branchEdges (by decide) (Nat.le_refl _) (fun proper => ?_)
          (by simp) inTrue)
        exact ⟨Nat.lt_of_lt_of_le (by simp) (onTrue.body_advances proper),
          (onTrue.last_lt (by simp)).trans_le onFalse.draft_extends.length_le⟩
      · refine .inr (Draft.onward_branchEdges (by decide) (Nat.le_refl _) (fun proper => ?_)
          (by simp) inFalse)
        exact ⟨longer.trans_le (onFalse.body_advances proper), onFalse.last_lt longer⟩
  | @loop kind condition line statements draft parent _ draft₁ bodyEnd body ih =>
      have wiredBody : draft.Wired parent draft₁ :=
        .trans (.follow bound _ (by decide)) (draft.follow_extends _ _ _) (.inr (Nat.le_refl _))
          (ih (by simp)) body.draft_extends
      have longer : draft.nodes.length < draft₁.nodes.length :=
        Nat.lt_of_lt_of_le (by simp) body.draft_extends.length_le
      refine wiredBody.grow (draft₁.leave_extends _ _) fun edge member => ?_
      rw [Draft.leave_edges, List.mem_append, List.mem_append, List.mem_singleton] at member
      rcases member with old | backward | rfl
      · exact .inl old
      · have found : (draft₁.leave draft.nodes.length bodyEnd).nodes[draft.nodes.length]? =
            some (.loop kind condition line) := by
          rw [(body.draft_extends.trans (draft₁.leave_extends _ _)).getElem?_eq (by simp)]
          simp
        have after : draft.nodes.length ≤ bodyEnd := by
          rcases body.last_eq_or_le with same | new
          · exact same.ge
          · exact Nat.le_of_lt (Nat.lt_of_lt_of_le (by simp) new)
        refine .inr (Draft.onward_backEdges (Nat.le_refl _) found rfl after ?_ backward)
        exact (body.last_lt (by simp)).trans_le (draft₁.leave_extends _ _).length_le
      · have found : (draft₁.leave draft.nodes.length bodyEnd).nodes[draft₁.nodes.length]? =
            some .loopExit := by simp
        exact .inr (Draft.onward_exit (Nat.le_refl _) longer found (by simp))
  | nil => exact .refl
  | cons first rest ihFirst ihRest =>
      exact .trans (ihFirst bound) first.draft_extends first.last_eq_or_le
        (ihRest (first.last_lt bound)) rest.draft_extends

end Draws
end MethodFlow
