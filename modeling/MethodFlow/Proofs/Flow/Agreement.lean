import MethodFlow.Proofs.Flow.Reachable
import Mathlib.Data.List.Perm.Basic

/-!
A trace sees of a map no more than the methods that calls lead to from its entry method, and where
their calls go. Over two maps that agree on these it draws the same graph, or it fails in the same
way, whatever else is in the maps.
-/
namespace MethodFlow

/-- `other` has the same statements for the methods that calls lead to from `entry` in `map`, and
takes the calls in them to the same methods. -/
structure FunctionMap.AgreesFrom (map other : FunctionMap) (entry : String) : Prop where
  bodies : ∀ name, map.Reaches entry name → other.body name = map.body name
  callees : ∀ name, map.Reaches entry name →
    ∀ called ∈ Statement.calledIn (map.body name), other.callee? called = map.callee? called

section Simulation

variable {map other : FunctionMap} {depth depth' : Nat}

/-- Two ways to draw calls do the same for some names, where each map has no more methods left to
unfold than its way can follow. -/
def Trace.CallsAgree (map other : FunctionMap) (depth depth' : Nat)
    (call call' : String → Int → Step) (names : List String) : Prop :=
  ∀ name ∈ names, ∀ line draft parent, map.remaining draft.unfolded ≤ depth →
    other.remaining draft.unfolded ≤ depth' →
    call' name line draft parent = call name line draft parent

theorem Trace.CallsAgree.mono {call call' : String → Int → Step} {names fewer : List String}
    (agree : CallsAgree map other depth depth' call call' names) (within : fewer ⊆ names) :
    CallsAgree map other depth depth' call call' fewer :=
  fun name member => agree name (within member)

section Statements

variable {call call' : String → Int → Step}

mutual

theorem Statement.unfold_congr (draws : Trace.CallDraws map depth call) :
    ∀ (statement : Statement) (draft : Draft) (parent : Nat),
      Trace.CallsAgree map other depth depth' call call' statement.called →
      map.remaining draft.unfolded ≤ depth → other.remaining draft.unfolded ≤ depth' →
      statement.unfold call' draft parent = statement.unfold call draft parent
  | .call name line _, draft, parent, agree, few, few' =>
      agree name (List.mem_singleton.mpr rfl) line draft parent few few'
  | .branch condition line whenTrue whenFalse, draft, parent, agree, few, few' => by
      have onTrue := unfoldAll_congr draws whenTrue
        (draft.follow parent .sequence (.decision condition line)).1 draft.nodes.length
        (agree.mono (List.subset_append_left _ _)) few few'
      simp only [unfold, Draft.follow_snd]
      rw [onTrue]
      apply bind_congr_ok
      intro ⟨draft₁, trueEnd⟩ drawnTrue
      have few₁ : map.remaining
          (draft.follow parent .sequence (.decision condition line)).1.unfolded ≤ depth := few
      obtain ⟨trail, drawing⟩ := unfoldAll_draws draws _ _ _ _ _ few₁ drawnTrue
      have grown : draft.unfolded ⊆ draft₁.unfolded := drawing.unfolded_subset
      have onFalse := unfoldAll_congr draws whenFalse draft₁ draft.nodes.length
        (agree.mono (List.subset_append_right _ _)) ((map.remaining_anti grown).trans few)
        ((other.remaining_anti grown).trans few')
      dsimp only
      rw [onFalse]
  | .loop kind condition line body, draft, parent, agree, few, few' => by
      have inside := unfoldAll_congr draws body
        (draft.follow parent .sequence (.loop kind condition line)).1 draft.nodes.length
        agree few few'
      simp only [unfold, Draft.follow_snd]
      rw [inside]
  | .unsupported kind, _, _, _, _, _ => rfl

theorem Statement.unfoldAll_congr (draws : Trace.CallDraws map depth call) :
    ∀ (statements : List Statement) (draft : Draft) (parent : Nat),
      Trace.CallsAgree map other depth depth' call call' (calledIn statements) →
      map.remaining draft.unfolded ≤ depth → other.remaining draft.unfolded ≤ depth' →
      unfoldAll call' statements draft parent = unfoldAll call statements draft parent
  | [], _, _, _, _, _ => rfl
  | statement :: statements, draft, parent, agree, few, few' => by
      have first := unfold_congr draws statement draft parent
        (agree.mono (List.subset_append_left _ _)) few few'
      simp only [unfoldAll]
      rw [first]
      apply bind_congr_ok
      intro ⟨draft₁, next⟩ drawn
      obtain ⟨trail, drawing⟩ := unfold_draws draws _ _ _ _ _ few drawn
      have grown : draft.unfolded ⊆ draft₁.unfolded := drawing.unfolded_subset
      exact unfoldAll_congr draws statements draft₁ next
        (agree.mono (List.subset_append_right _ _)) ((map.remaining_anti grown).trans few)
        ((other.remaining_anti grown).trans few')

end

end Statements

namespace Trace

theorem method_of_met {fullName : String} {draft : Draft} (met : fullName ∈ draft.unfolded)
    (parent : Nat) : method map depth fullName draft parent =
      .ok (draft.follow parent .calls (.reference fullName)) := by
  cases depth with
  | zero => rfl
  | succ depth => rw [method, if_pos (List.contains_iff_mem.mpr met)]

theorem call_method_draws (map : FunctionMap) (depth : Nat) :
    CallDraws map depth (call map (method map depth)) := by
  apply call_draws
  intro callee present draft parent draft' last few
  refine method_draws depth callee draft parent draft' last fun fresh => ?_
  exact (map.remaining_cons_lt present fresh).trans_le few

/-- The depths of both traces suffice, so neither shows. -/
theorem method_congr {entry : String} (agree : map.AgreesFrom other entry) {fullName : String}
    (reached : map.Reaches entry fullName) (draft : Draft) (parent : Nat)
    (few : fullName ∉ draft.unfolded → map.remaining (fullName :: draft.unfolded) < depth)
    (few' : fullName ∉ draft.unfolded → other.remaining (fullName :: draft.unfolded) < depth') :
    method other depth' fullName draft parent = method map depth fullName draft parent := by
  induction depth generalizing depth' fullName draft parent with
  | zero =>
      have met : fullName ∈ draft.unfolded := by
        by_contra fresh
        exact Nat.not_lt_zero _ (few fresh)
      rw [method_of_met met, method_of_met met]
  | succ depth ih =>
      by_cases met : fullName ∈ draft.unfolded
      · rw [method_of_met met, method_of_met met]
      · obtain ⟨depth', rfl⟩ := Nat.exists_eq_succ_of_ne_zero (Nat.ne_zero_of_lt (few' met))
        have fresh : ¬draft.unfolded.contains fullName = true := mt List.contains_iff_mem.mp met
        rw [method, method, if_neg fresh, if_neg fresh, agree.bodies fullName reached]
        refine Statement.unfoldAll_congr (call_method_draws map depth) _ _ _ ?_
          (Nat.le_of_lt_succ (few met)) (Nat.le_of_lt_succ (few' met))
        intro name called line draft parent few few'
        have same := agree.callees fullName reached name called
        cases resolved : map.callee? name with
        | none => simp only [call, same, resolved]
        | some callee =>
            simp only [call, same, resolved]
            refine ih (.call reached called resolved) draft parent ?_ ?_
            · intro fresh
              exact (map.remaining_cons_lt (map.callee?_mem_keys resolved) fresh).trans_le few
            · intro fresh
              have present := other.callee?_mem_keys (same.trans resolved)
              exact (other.remaining_cons_lt present fresh).trans_le few'

theorem fromStart_congr {entry : String} (agree : map.AgreesFrom other entry) :
    fromStart other entry = fromStart map entry := by
  refine method_congr agree .entry opening 0 (fun _ => ?_) (fun _ => ?_)
  · exact Nat.lt_succ_of_le (map.remaining_le_length _)
  · exact Nat.lt_succ_of_le (other.remaining_le_length _)

end Trace

end Simulation

namespace FunctionMap

variable {map : FunctionMap} {entry : String}

def restrict (map : FunctionMap) (keep : String → Bool) : FunctionMap :=
  ⟨map.entries.filter fun item => keep item.1⟩

theorem restrict_keys (keep : String → Bool) :
    (map.restrict keep).keys = map.keys.filter keep := by
  rw [keys, keys, restrict, List.filter_map]
  rfl

theorem restrict_get? {keep : String → Bool} {key : String} (kept : keep key = true) :
    (map.restrict keep).get? key = map.get? key := by
  simp only [get?, restrict]
  induction map.entries with
  | nil => rfl
  | cons item entries ih =>
      obtain ⟨other, statements⟩ := item
      by_cases same : key = other
      · subst same
        rw [List.filter_cons, if_pos kept, List.lookup_cons_self, List.lookup_cons_self]
      · have apart : (key == other) = false := beq_false_of_ne same
        cases keptOther : keep other with
        | true => simp [keptOther, List.lookup_cons, apart, ih]
        | false => simp [keptOther, List.lookup_cons, apart, ih]

theorem find?_filter_of_kept {α : Type} {keep test : α → Bool} {items : List α}
    (kept : ∀ item, items.find? test = some item → keep item = true) :
    (items.filter keep).find? test = items.find? test := by
  induction items with
  | nil => rfl
  | cons item items ih =>
      cases passes : test item with
      | true =>
          have stays : keep item = true := kept item (List.find?_cons_of_pos passes)
          rw [List.filter_cons_of_pos stays, List.find?_cons_of_pos passes,
            List.find?_cons_of_pos passes]
      | false =>
          have fails : ¬test item = true := by simp [passes]
          rw [List.find?_cons_of_neg fails] at kept ⊢
          cases stays : keep item with
          | true => rw [List.filter_cons_of_pos stays, List.find?_cons_of_neg fails, ih kept]
          | false => rw [List.filter_cons_of_neg (by simp [stays]), ih kept]

theorem restrict_callee? {keep : String → Bool} {name : String}
    (kept : ∀ callee, map.callee? name = some callee → keep callee = true) :
    (map.restrict keep).callee? name = map.callee? name := by
  have bySuffix : (map.restrict keep).keys.find? (namesMethod name) =
      map.keys.find? (namesMethod name) := by
    rw [restrict_keys]
    apply find?_filter_of_kept
    intro callee found
    apply kept callee
    simp [callee?, found]
  unfold callee?
  rw [bySuffix]
  cases found : map.keys.find? (namesMethod name) with
  | some callee => rfl
  | none =>
      have whole : (map.restrict keep).contains name = map.contains name := by
        cases present : map.contains name with
        | false =>
            have absent : name ∉ map.keys := by simpa [contains] using present
            simp [contains, restrict_keys, absent]
        | true =>
            have stays : keep name = true := kept name (by simp [callee?, found, present])
            have member : name ∈ map.keys := by simpa [contains] using present
            simp [contains, restrict_keys, member, stays]
      rw [whole]

theorem agreesFrom_restrict {keep : String → Bool}
    (kept : ∀ name, map.Reaches entry name → keep name = true) :
    map.AgreesFrom (map.restrict keep) entry where
  bodies := by
    intro name reached
    rw [body, body, restrict_get? (kept name reached)]
  callees := by
    intro name reached called member
    apply restrict_callee?
    intro callee resolved
    exact kept callee (.call reached member resolved)

theorem get?_eq_some_iff (once : map.keys.Nodup) {key : String} {statements : List Statement} :
    map.get? key = some statements ↔ (key, statements) ∈ map.entries := by
  constructor
  · intro found
    obtain ⟨before, after, split, -⟩ := List.lookup_eq_some_iff.mp found
    simp [split]
  · intro member
    obtain ⟨before, after, split⟩ := List.append_of_mem member
    refine List.lookup_eq_some_iff.mpr ⟨before, after, split, fun item earlier => ?_⟩
    rw [keys, split, List.map_append, List.nodup_append] at once
    have apart : item.1 ≠ key :=
      once.2.2 item.1 (List.mem_map_of_mem earlier) key List.mem_cons_self
    exact bne_iff_ne.mpr apart.symm

theorem get?_perm {other : FunctionMap} (once : map.keys.Nodup)
    (reordered : other.entries.Perm map.entries) (key : String) :
    other.get? key = map.get? key := by
  have onceOther : other.keys.Nodup := (reordered.map Prod.fst).nodup_iff.mpr once
  apply Option.ext
  intro statements
  rw [get?_eq_some_iff onceOther, get?_eq_some_iff once, reordered.mem_iff]

end FunctionMap

namespace Trace

/-- In particular methods that calls do not lead to may be left out, and the order of the methods
counts only as far as it decides where calls go. -/
theorem graph_agrees (map : FunctionMap) (entry : String) (linkEnd : Bool) :
    (∀ other, map.AgreesFrom other entry → graph other linkEnd entry = graph map linkEnd entry) ∧
    (∀ keep : String → Bool, (∀ name, map.Reaches entry name → keep name = true) →
      graph (map.restrict keep) linkEnd entry = graph map linkEnd entry) ∧
    (∀ other : FunctionMap, map.keys.Nodup → other.entries.Perm map.entries →
      (∀ name, map.Reaches entry name → ∀ called ∈ Statement.calledIn (map.body name),
        other.callee? called = map.callee? called) →
      graph other linkEnd entry = graph map linkEnd entry) := by
  have agrees {other : FunctionMap} (agree : map.AgreesFrom other entry) :
      graph other linkEnd entry = graph map linkEnd entry := by
    simp only [graph, Tracer.trace, Tracer.new, fromStart_congr agree]
    cases fromStart map entry with
    | error halt => rfl
    | ok outcome => rfl
  refine ⟨fun other => agrees, fun keep kept => agrees (map.agreesFrom_restrict kept), ?_⟩
  intro other once reordered callees
  refine agrees ⟨fun name _ => ?_, callees⟩
  rw [FunctionMap.body, FunctionMap.body, FunctionMap.get?_perm once reordered]

/-- The methods of `mutualCalls` in another order, beside one that nothing calls and that cannot be
drawn. -/
def crowdedCalls : FunctionMap :=
  ⟨[("C.idle", [.unsupported "tuple"]),
    ("B.g", [.loop .forLoop "i" 5 [.call "f" 6 none], .call "g" 7 none]),
    ("A.f", [.branch "x" 1 [.call "g" 2 none, .call "h" 3 none] []])]⟩

theorem crowdedCalls_agrees :
    FunctionMap.mutualCalls.AgreesFrom crowdedCalls "A.f" ∧
    graph crowdedCalls true "A.f" = graph FunctionMap.mutualCalls true "A.f" := by
  have known (name : String) (reached : FunctionMap.mutualCalls.Reaches "A.f" name) :
      name = "A.f" ∨ name = "B.g" := by
    cases reached with
    | entry => exact .inl rfl
    | call reached called resolved =>
        simpa [FunctionMap.keys, FunctionMap.mutualCalls] using
          FunctionMap.callee?_mem_keys resolved
  have agrees : FunctionMap.mutualCalls.AgreesFrom crowdedCalls "A.f" := by
    constructor
    · intro name reached
      rcases known name reached with rfl | rfl <;> rfl
    · intro name reached
      rcases known name reached with rfl | rfl <;> decide
  exact ⟨agrees, (graph_agrees FunctionMap.mutualCalls "A.f" true).1 crowdedCalls agrees⟩

end Trace
end MethodFlow
