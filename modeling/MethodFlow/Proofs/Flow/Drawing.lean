import MethodFlow.Proofs.Fallible
import MethodFlow.Proofs.Flow.Growth
import Mathlib.Data.Finset.Card
import Mathlib.Data.Option.Basic

/-!
How methods and statements are drawn, as rules without any bound on how deep calls nest. A drawing
also tells the methods that it unfolded, in their order. What the trace gives is drawn by these
rules (`fromStart_draws`), so its bound is never felt; and over statements that are all supported it
always gives a graph (`graph_total`).
-/
namespace MethodFlow

mutual

def Statement.isSupported : Statement → Bool
  | .call _ _ _ => true
  | .branch _ _ whenTrue whenFalse => areSupported whenTrue && areSupported whenFalse
  | .loop _ _ _ body => areSupported body
  | .unsupported _ => false

def Statement.areSupported : List Statement → Bool
  | [] => true
  | statement :: statements => statement.isSupported && areSupported statements

end

namespace FunctionMap

def isSupported (map : FunctionMap) : Bool :=
  map.entries.all fun entry => Statement.areSupported entry.2

theorem body_of_entries {map : FunctionMap} (holds : List Statement → Bool)
    (bare : holds [] = true) (entries : (map.entries.all fun entry => holds entry.2) = true)
    (key : String) : holds (map.body key) = true := by
  cases found : map.get? key with
  | none => simpa [body, found] using bare
  | some statements =>
      obtain ⟨before, after, split, -⟩ := List.lookup_eq_some_iff.mp found
      have member : (key, statements) ∈ map.entries := by simp [split]
      simpa [body, found] using List.all_eq_true.mp entries _ member

theorem areSupported_body {map : FunctionMap} (supported : map.isSupported = true) (key : String) :
    Statement.areSupported (map.body key) = true :=
  body_of_entries Statement.areSupported rfl supported key

theorem callee?_mem_keys {map : FunctionMap} {name callee : String}
    (resolved : map.callee? name = some callee) : callee ∈ map.keys := by
  rcases (Option.orElse_eq_some _ _ _).mp resolved with suffix | ⟨-, whole⟩
  · exact List.mem_of_find?_eq_some suffix
  · simp only [Option.ite_none_right_eq_some, Option.some.injEq] at whole
    obtain ⟨present, rfl⟩ := whole
    exact List.contains_iff_mem.mp present

def mutualCalls : FunctionMap :=
  ⟨[("A.f", [.branch "x" 1 [.call "g" 2 none, .call "h" 3 none] []]),
    ("B.g", [.loop .forLoop "i" 5 [.call "f" 6 none], .call "g" 7 none])]⟩

def remaining (map : FunctionMap) (names : List String) : Nat :=
  (map.keys.toFinset \ names.toFinset).card

theorem remaining_le_length (map : FunctionMap) (names : List String) :
    map.remaining names ≤ map.entries.length := by
  calc
    map.remaining names ≤ map.keys.toFinset.card := Finset.card_le_card Finset.sdiff_subset
    _ ≤ map.keys.length := map.keys.toFinset_card_le
    _ = map.entries.length := List.length_map _

theorem remaining_anti (map : FunctionMap) {names more : List String} (within : names ⊆ more) :
    map.remaining more ≤ map.remaining names := by
  apply Finset.card_le_card
  apply Finset.sdiff_subset_sdiff (Finset.Subset.refl _)
  intro name member
  exact List.mem_toFinset.mpr (within (List.mem_toFinset.mp member))

theorem remaining_cons_lt (map : FunctionMap) {names : List String} {key : String}
    (present : key ∈ map.keys) (fresh : key ∉ names) :
    map.remaining (key :: names) < map.remaining names := by
  have outside : key ∈ map.keys.toFinset \ names.toFinset := by simp [present, fresh]
  have erased : map.keys.toFinset \ (key :: names).toFinset =
      (map.keys.toFinset \ names.toFinset).erase key := by
    ext other
    simp only [List.toFinset_cons, Finset.mem_sdiff, Finset.mem_insert, Finset.mem_erase]
    tauto
  unfold remaining
  rw [erased]
  exact Finset.card_erase_lt_of_mem outside

end FunctionMap

inductive Work where
  | method (fullName : String)
  | statement (statement : Statement)
  | body (statements : List Statement)

/-- Drawing `work` from the node `parent` on turns `draft` into `draft'`, ends at the node `last`
and unfolds the methods of `trail`. -/
inductive Draws (map : FunctionMap) : (work : Work) → (draft : Draft) → (parent : Nat) →
    (trail : List String) → (draft' : Draft) → (last : Nat) → Prop
  | reference {fullName draft parent} (met : fullName ∈ draft.unfolded) :
      Draws map (.method fullName) draft parent []
        (draft.follow parent .calls (.reference fullName)).1 draft.nodes.length
  | unfold {fullName draft parent trail draft' last} (fresh : fullName ∉ draft.unfolded)
      (body : Draws map (.body (map.body fullName)) (draft.enter parent fullName).1
        draft.nodes.length trail draft' last) :
      Draws map (.method fullName) draft parent (fullName :: trail) draft' last
  | call {name line receiver callee draft parent trail draft' last}
      (resolved : map.callee? name = some callee)
      (target : Draws map (.method callee) draft parent trail draft' last) :
      Draws map (.statement (.call name line receiver)) draft parent trail draft' last
  | leaf {name line receiver draft parent} (unresolved : map.callee? name = none) :
      Draws map (.statement (.call name line receiver)) draft parent []
        (draft.follow parent .calls (.leaf name line)).1 draft.nodes.length
  | bareBranch {condition line draft parent} :
      Draws map (.statement (.branch condition line [] [])) draft parent []
        (draft.follow parent .sequence (.decision condition line)).1 draft.nodes.length
  | branch {condition line whenTrue whenFalse draft parent trueTrail draft₁ trueEnd falseTrail
        draft₂ falseEnd}
      (bodies : whenTrue ≠ [] ∨ whenFalse ≠ [])
      (onTrue : Draws map (.body whenTrue)
        (draft.follow parent .sequence (.decision condition line)).1 draft.nodes.length
        trueTrail draft₁ trueEnd)
      (onFalse : Draws map (.body whenFalse) draft₁ draft.nodes.length falseTrail draft₂ falseEnd) :
      Draws map (.statement (.branch condition line whenTrue whenFalse)) draft parent
        (trueTrail ++ falseTrail)
        (draft₂.meet draft.nodes.length trueEnd falseEnd whenTrue whenFalse) draft₂.nodes.length
  | loop {kind condition line statements draft parent trail draft₁ bodyEnd}
      (body : Draws map (.body statements)
        (draft.follow parent .sequence (.loop kind condition line)).1 draft.nodes.length
        trail draft₁ bodyEnd) :
      Draws map (.statement (.loop kind condition line statements)) draft parent trail
        (draft₁.leave draft.nodes.length bodyEnd) draft₁.nodes.length
  | nil {draft parent} : Draws map (.body []) draft parent [] draft parent
  | cons {statement statements draft parent trail draft₁ next trail₁ draft₂ last}
      (first : Draws map (.statement statement) draft parent trail draft₁ next)
      (rest : Draws map (.body statements) draft₁ next trail₁ draft₂ last) :
      Draws map (.body (statement :: statements)) draft parent (trail ++ trail₁) draft₂ last

namespace Draft

/-- Nodes were drawn, and `last` is the newest of them. -/
structure EndsAt (draft draft' : Draft) (last : Nat) : Prop where
  grown : draft.nodes.length < draft'.nodes.length
  newest : last + 1 = draft'.nodes.length

theorem endsAt_follow (draft : Draft) (source : Nat) (kind : EdgeKind) (node : NodeLabel) :
    draft.EndsAt (draft.follow source kind node).1 draft.nodes.length :=
  ⟨by simp, by simp⟩

theorem endsAt_enter (draft : Draft) (parent : Nat) (fullName : String) :
    draft.EndsAt (draft.enter parent fullName).1 draft.nodes.length :=
  ⟨by simp, by simp⟩

theorem EndsAt.of_extends {draft draft₁ draft' : Draft} {last : Nat}
    (ends : draft₁.EndsAt draft' last) (grown : draft.Extends draft₁) : draft.EndsAt draft' last :=
  ⟨grown.length_le.trans_lt ends.grown, ends.newest⟩

end Draft

namespace Draws

variable {map : FunctionMap} {work : Work} {draft draft' : Draft} {parent last : Nat}
  {trail : List String}

theorem unfolded_eq (drawn : Draws map work draft parent trail draft' last) :
    draft'.unfolded = trail.reverse ++ draft.unfolded := by
  induction drawn with
  | reference met => rfl
  | unfold fresh body ih => simp [ih]
  | call resolved target ih => exact ih
  | leaf unresolved => rfl
  | bareBranch => rfl
  | branch bodies onTrue onFalse ihTrue ihFalse => simp [ihFalse, ihTrue]
  | loop body ih => simp [ih]
  | nil => rfl
  | cons first rest ihFirst ihRest => simp [ihRest, ihFirst]

theorem unfolded_subset (drawn : Draws map work draft parent trail draft' last) :
    draft.unfolded ⊆ draft'.unfolded := by
  rw [drawn.unfolded_eq]
  exact List.subset_append_right _ _

theorem draft_extends (drawn : Draws map work draft parent trail draft' last) :
    draft.Extends draft' := by
  induction drawn with
  | reference met => exact Draft.follow_extends _ _ _ _
  | unfold fresh body ih => exact (Draft.enter_extends _ _ _).trans ih
  | call resolved target ih => exact ih
  | leaf unresolved => exact Draft.follow_extends _ _ _ _
  | bareBranch => exact Draft.follow_extends _ _ _ _
  | branch bodies onTrue onFalse ihTrue ihFalse =>
      exact (((Draft.follow_extends _ _ _ _).trans ihTrue).trans ihFalse).trans
        (Draft.meet_extends _ _ _ _ _ _)
  | loop body ih =>
      exact ((Draft.follow_extends _ _ _ _).trans ih).trans (Draft.leave_extends _ _ _)
  | nil => exact .refl
  | cons first rest ihFirst ihRest => exact ihFirst.trans ihRest

theorem of_nil (drawn : Draws map (.body []) draft parent trail draft' last) :
    trail = [] ∧ draft' = draft ∧ last = parent := by
  cases drawn
  exact ⟨rfl, rfl, rfl⟩

theorem ends (drawn : Draws map work draft parent trail draft' last) :
    work = .body [] ∨ draft.EndsAt draft' last := by
  induction drawn with
  | reference met => exact .inr (Draft.endsAt_follow _ _ _ _)
  | unfold fresh body ih =>
      right
      rcases ih with bare | ends
      · rw [bare] at body
        obtain ⟨-, rfl, rfl⟩ := body.of_nil
        exact Draft.endsAt_enter _ _ _
      · exact ends.of_extends (Draft.enter_extends _ _ _)
  | call resolved target ih =>
      rcases ih with bare | ends
      · cases bare
      · exact .inr ends
  | leaf unresolved => exact .inr (Draft.endsAt_follow _ _ _ _)
  | bareBranch => exact .inr (Draft.endsAt_follow _ _ _ _)
  | branch bodies onTrue onFalse ihTrue ihFalse =>
      have grown := (Draft.follow_extends _ _ _ _).trans
        (onTrue.draft_extends.trans onFalse.draft_extends)
      exact .inr ⟨by simpa using Nat.lt_succ_of_le grown.length_le, by simp⟩
  | loop body ih =>
      have grown := (Draft.follow_extends _ _ _ _).trans body.draft_extends
      exact .inr ⟨by simpa using Nat.lt_succ_of_le grown.length_le, by simp⟩
  | nil => exact .inl rfl
  | cons first rest ihFirst ihRest =>
      right
      rcases ihFirst with bare | ends
      · cases bare
      · rcases ihRest with bare | restEnds
        · cases bare
          obtain ⟨-, rfl, rfl⟩ := rest.of_nil
          exact ends
        · exact restEnds.of_extends first.draft_extends

theorem body_advances {statements : List Statement}
    (drawn : Draws map (.body statements) draft parent trail draft' last)
    (proper : statements ≠ []) : draft.nodes.length ≤ last := by
  rcases drawn.ends with bare | ends
  · exact absurd (Work.body.inj bare) proper
  · have grown := ends.grown
    have newest := ends.newest
    omega

/-- Something leads back to the head of a loop if and only if its body has statements. -/
theorem backEdges_eq {statements : List Statement} {source : Nat} {kind : EdgeKind}
    {node : NodeLabel}
    (drawn : Draws map (.body statements) (draft.follow source kind node).1 draft.nodes.length trail
      draft' last) :
    Draft.backEdges draft.nodes.length last =
      if statements.isEmpty then []
      else [{ source := last, target := draft.nodes.length, kind := .loopExit }] := by
  cases statements with
  | nil =>
      obtain ⟨-, -, rfl⟩ := drawn.of_nil
      simp [Draft.backEdges]
  | cons statement statements =>
      have past : draft.nodes.length < last :=
        Nat.lt_of_lt_of_le (by simp) (drawn.body_advances (List.cons_ne_nil _ _))
      simp [Draft.backEdges, past.ne']

end Draws

section Soundness

/-- What a call draws is drawn by the rules, as long as no more than `depth` methods are left to
unfold. -/
def Trace.CallDraws (map : FunctionMap) (depth : Nat) (call : String → Int → Step) : Prop :=
  ∀ name line receiver draft parent draft' last, map.remaining draft.unfolded ≤ depth →
    call name line draft parent = .ok (draft', last) →
    ∃ trail, Draws map (.statement (.call name line receiver)) draft parent trail draft' last

variable {map : FunctionMap} {depth : Nat}

section Statements

variable {call : String → Int → Step}

mutual

theorem Statement.unfold_draws (calls : Trace.CallDraws map depth call) :
    ∀ (statement : Statement) (draft : Draft) (parent : Nat) (draft' : Draft) (last : Nat),
      map.remaining draft.unfolded ≤ depth →
      statement.unfold call draft parent = .ok (draft', last) →
      ∃ trail, Draws map (.statement statement) draft parent trail draft' last
  | .call name line receiver, draft, parent, draft', last, few, drawn =>
      calls name line receiver draft parent draft' last few drawn
  | .branch condition line whenTrue whenFalse, draft, parent, draft', last, few, drawn => by
      simp only [unfold, bind_eq_ok, Draft.follow_snd] at drawn
      obtain ⟨⟨draft₁, trueEnd⟩, drawnTrue, ⟨draft₂, falseEnd⟩, drawnFalse, merged⟩ := drawn
      obtain ⟨trueTrail, onTrue⟩ := unfoldAll_draws calls whenTrue
        (draft.follow parent .sequence (.decision condition line)).1 _ draft₁ trueEnd few drawnTrue
      have fewer : map.remaining draft₁.unfolded ≤ depth :=
        (map.remaining_anti onTrue.unfolded_subset).trans few
      obtain ⟨falseTrail, onFalse⟩ :=
        unfoldAll_draws calls whenFalse draft₁ _ draft₂ falseEnd fewer drawnFalse
      have grown : draft.nodes.length < draft₁.nodes.length :=
        Nat.lt_of_lt_of_le (by simp) onTrue.draft_extends.length_le
      -- Only a decision with a body gets a node where its branches meet.
      by_cases bodies : whenTrue ≠ [] ∨ whenFalse ≠ []
      · have trueAdvanced (proper : whenTrue ≠ []) : trueEnd ≠ draft.nodes.length :=
          (Nat.lt_of_lt_of_le (by simp) (onTrue.body_advances proper)).ne'
        have falseAdvanced (proper : whenFalse ≠ []) : falseEnd ≠ draft.nodes.length :=
          (grown.trans_le (onFalse.body_advances proper)).ne'
        rw [Draft.mergeBranches_eq _ _ _ _ _ _ bodies trueAdvanced falseAdvanced] at merged
        cases merged
        exact ⟨_, .branch bodies onTrue onFalse⟩
      · obtain ⟨rfl, rfl⟩ : whenTrue = [] ∧ whenFalse = [] := by simpa using bodies
        obtain ⟨rfl, rfl, rfl⟩ := onTrue.of_nil
        obtain ⟨rfl, rfl, rfl⟩ := onFalse.of_nil
        cases merged
        exact ⟨_, .bareBranch⟩
  | .loop kind condition line body, draft, parent, draft', last, few, drawn => by
      simp only [unfold, bind_eq_ok, Draft.follow_snd] at drawn
      obtain ⟨⟨draft₁, bodyEnd⟩, drawnBody, closed⟩ := drawn
      obtain ⟨trail, inside⟩ := unfoldAll_draws calls body
        (draft.follow parent .sequence (.loop kind condition line)).1 _ draft₁ bodyEnd few drawnBody
      rw [Draft.closeLoop_eq] at closed
      cases closed
      exact ⟨_, .loop inside⟩
  | .unsupported _, draft, parent, draft', last, few, drawn => by
      simp [unfold] at drawn

theorem Statement.unfoldAll_draws (calls : Trace.CallDraws map depth call) :
    ∀ (statements : List Statement) (draft : Draft) (parent : Nat) (draft' : Draft) (last : Nat),
      map.remaining draft.unfolded ≤ depth →
      Statement.unfoldAll call statements draft parent = .ok (draft', last) →
      ∃ trail, Draws map (.body statements) draft parent trail draft' last
  | [], draft, parent, draft', last, few, drawn => by
      simp only [unfoldAll, Except.ok.injEq, Prod.mk.injEq] at drawn
      obtain ⟨rfl, rfl⟩ := drawn
      exact ⟨[], .nil⟩
  | statement :: statements, draft, parent, draft', last, few, drawn => by
      simp only [unfoldAll, bind_eq_ok] at drawn
      obtain ⟨⟨draft₁, next⟩, drawnFirst, drawnRest⟩ := drawn
      obtain ⟨trail, first⟩ := unfold_draws calls statement draft parent draft₁ next few drawnFirst
      have fewer : map.remaining draft₁.unfolded ≤ depth :=
        (map.remaining_anti first.unfolded_subset).trans few
      obtain ⟨trail₁, rest⟩ :=
        unfoldAll_draws calls statements draft₁ next draft' last fewer drawnRest
      exact ⟨_, .cons first rest⟩

end

end Statements

namespace Trace

theorem call_draws {method : String → Step}
    (methods : ∀ callee ∈ map.keys, ∀ draft parent draft' last,
      map.remaining draft.unfolded ≤ depth → method callee draft parent = .ok (draft', last) →
      ∃ trail, Draws map (.method callee) draft parent trail draft' last) :
    CallDraws map depth (call map method) := by
  intro name line receiver draft parent draft' last few drawn
  unfold call at drawn
  split at drawn
  · rename_i callee resolved
    obtain ⟨trail, target⟩ :=
      methods callee (map.callee?_mem_keys resolved) draft parent draft' last few drawn
    exact ⟨trail, .call resolved target⟩
  · rename_i unresolved
    cases drawn
    exact ⟨[], .leaf unresolved⟩

/-- A method is drawn by the rules if `depth` suffices for the methods that are left once it is
unfolded itself. -/
theorem method_draws (depth : Nat) (fullName : String) (draft : Draft) (parent : Nat)
    (draft' : Draft) (last : Nat)
    (few : fullName ∉ draft.unfolded → map.remaining (fullName :: draft.unfolded) < depth)
    (drawn : method map depth fullName draft parent = .ok (draft', last)) :
    ∃ trail, Draws map (.method fullName) draft parent trail draft' last := by
  induction depth generalizing fullName draft parent draft' last with
  | zero =>
      -- With nothing left to unfold, the reference that is drawn here is one by the rules.
      have met : fullName ∈ draft.unfolded := by
        by_contra fresh
        exact Nat.not_lt_zero _ (few fresh)
      cases drawn
      exact ⟨[], .reference met⟩
  | succ depth ih =>
      by_cases met : fullName ∈ draft.unfolded
      · rw [method, if_pos (List.contains_iff_mem.mpr met)] at drawn
        cases drawn
        exact ⟨[], .reference met⟩
      · rw [method, if_neg (mt List.contains_iff_mem.mp met)] at drawn
        have calls : CallDraws map depth (call map (method map depth)) := by
          apply call_draws
          intro callee present draft parent draft' last few
          -- A callee is a key of the map, so unfolding it leaves one method less to unfold.
          refine ih callee draft parent draft' last fun fresh => ?_
          exact (map.remaining_cons_lt present fresh).trans_le few
        obtain ⟨trail, body⟩ := Statement.unfoldAll_draws calls _ _ _ draft' last
          (Nat.le_of_lt_succ (few met)) drawn
        exact ⟨_, .unfold met body⟩

theorem fromStart_draws {entry : String} {draft : Draft} {last : Nat}
    (drawn : fromStart map entry = .ok (draft, last)) :
    ∃ trail, Draws map (.method entry) opening 0 trail draft last := by
  refine method_draws (map.entries.length + 1) entry opening 0 draft last (fun _ => ?_) drawn
  exact Nat.lt_succ_of_le (map.remaining_le_length _)

end Trace

end Soundness

section Totality

variable {call : String → Int → Step}

mutual

theorem Statement.unfold_total
    (calls : ∀ name line draft parent, ∃ outcome, call name line draft parent = .ok outcome) :
    ∀ (statement : Statement) (draft : Draft) (parent : Nat), statement.isSupported = true →
      ∃ outcome, statement.unfold call draft parent = .ok outcome
  | .call name line _, draft, parent, _ => calls name line draft parent
  | .branch condition line whenTrue whenFalse, draft, parent, supported => by
      simp only [isSupported, Bool.and_eq_true] at supported
      obtain ⟨onTrue, drawnTrue⟩ := unfoldAll_total calls whenTrue
        (draft.follow parent .sequence (.decision condition line)).1 draft.nodes.length supported.1
      obtain ⟨onFalse, drawnFalse⟩ :=
        unfoldAll_total calls whenFalse onTrue.1 draft.nodes.length supported.2
      exact ⟨_, bind_eq_ok.mpr ⟨onTrue, drawnTrue, bind_eq_ok.mpr ⟨onFalse, drawnFalse, rfl⟩⟩⟩
  | .loop kind condition line body, draft, parent, supported => by
      obtain ⟨inside, drawn⟩ := unfoldAll_total calls body
        (draft.follow parent .sequence (.loop kind condition line)).1 draft.nodes.length supported
      exact ⟨_, bind_eq_ok.mpr ⟨inside, drawn, rfl⟩⟩
  | .unsupported _, _, _, supported => by cases supported

theorem Statement.unfoldAll_total
    (calls : ∀ name line draft parent, ∃ outcome, call name line draft parent = .ok outcome) :
    ∀ (statements : List Statement) (draft : Draft) (parent : Nat),
      Statement.areSupported statements = true →
      ∃ outcome, Statement.unfoldAll call statements draft parent = .ok outcome
  | [], draft, parent, _ => ⟨(draft, parent), rfl⟩
  | statement :: statements, draft, parent, supported => by
      simp only [areSupported, Bool.and_eq_true] at supported
      obtain ⟨first, drawnFirst⟩ := unfold_total calls statement draft parent supported.1
      obtain ⟨outcome, drawnRest⟩ := unfoldAll_total calls statements first.1 first.2 supported.2
      exact ⟨outcome, bind_eq_ok.mpr ⟨first, drawnFirst, drawnRest⟩⟩

end

namespace Trace

variable {map : FunctionMap}

theorem method_total (supported : map.isSupported = true) (depth : Nat) (fullName : String)
    (draft : Draft) (parent : Nat) :
    ∃ outcome, method map depth fullName draft parent = .ok outcome := by
  induction depth generalizing fullName draft parent with
  | zero => exact ⟨_, rfl⟩
  | succ depth ih =>
      rw [method]
      split
      · exact ⟨_, rfl⟩
      · refine Statement.unfoldAll_total (fun name line draft parent => ?_) _ _ _
          (map.areSupported_body supported fullName)
        unfold call
        split
        · exact ih _ draft parent
        · exact ⟨_, rfl⟩

theorem graph_eq_ok {linkEnd : Bool} {entry : String} {traced : FlowGraph} :
    graph map linkEnd entry = .ok traced ↔
      ∃ draft last, fromStart map entry = .ok (draft, last) ∧
        toGraph (close linkEnd draft last) entry = traced := by
  cases drawn : fromStart map entry with
  | error halt => simp [graph, Tracer.trace, Tracer.new, drawn]
  | ok outcome => simp [graph, Tracer.trace, Tracer.new, drawn, Prod.ext_iff]

/-- Over supported statements a trace never fails, and its graph is drawn by the rules. -/
theorem graph_total (supported : map.isSupported = true) (entry : String) :
    ∃ draft last trail, fromStart map entry = .ok (draft, last) ∧
      (∀ linkEnd, graph map linkEnd entry = .ok (toGraph (close linkEnd draft last) entry)) ∧
      Draws map (.method entry) opening 0 trail draft last := by
  obtain ⟨⟨draft, last⟩, drawn⟩ :=
    method_total supported (map.entries.length + 1) entry opening 0
  obtain ⟨trail, drawing⟩ := fromStart_draws drawn
  exact ⟨draft, last, trail, drawn, fun _ => graph_eq_ok.mpr ⟨draft, last, drawn, rfl⟩, drawing⟩

end Trace

end Totality
end MethodFlow
