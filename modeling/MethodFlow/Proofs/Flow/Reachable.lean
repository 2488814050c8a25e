import MethodFlow.Proofs.Flow.Drawing

/-!
The methods that a trace unfolds are those that calls lead to from its entry method, each of them
once, however the methods call each other. This is proved of walks, which go through the same methods
as a trace does and draw nothing (`Draws.walks`).
-/
namespace MethodFlow

mutual

def Statement.called : Statement → List String
  | .call name _ _ => [name]
  | .branch _ _ whenTrue whenFalse => calledIn whenTrue ++ calledIn whenFalse
  | .loop _ _ _ body => calledIn body
  | .unsupported _ => []

def Statement.calledIn : List Statement → List String
  | [] => []
  | statement :: statements => statement.called ++ calledIn statements

end

/-- The methods that calls lead to from `entry`. -/
inductive FunctionMap.Reaches (map : FunctionMap) (entry : String) : String → Prop
  | entry : map.Reaches entry entry
  | call {caller name callee : String} (reached : map.Reaches entry caller)
      (called : name ∈ Statement.calledIn (map.body caller))
      (resolved : map.callee? name = some callee) : map.Reaches entry callee

def Work.Meets (map : FunctionMap) : Work → String → Prop
  | .method fullName, callee => callee = fullName
  | .statement item, callee => ∃ name ∈ item.called, map.callee? name = some callee
  | .body items, callee => ∃ name ∈ Statement.calledIn items, map.callee? name = some callee

/-- Going through `work` as a trace does, where the methods of `met` have been unfolded before,
unfolds the methods of `trail` and comes upon the values of `strays`, which are no statements. A
walk does not stop at these. -/
inductive Walks (map : FunctionMap) : (work : Work) → (met trail : List String) →
    (strays : List String) → Prop
  | again {fullName met} (known : fullName ∈ met) : Walks map (.method fullName) met [] []
  | unfold {fullName met trail strays} (fresh : fullName ∉ met)
      (body : Walks map (.body (map.body fullName)) (fullName :: met) trail strays) :
      Walks map (.method fullName) met (fullName :: trail) strays
  | call {name line receiver callee met trail strays} (resolved : map.callee? name = some callee)
      (target : Walks map (.method callee) met trail strays) :
      Walks map (.statement (.call name line receiver)) met trail strays
  | leaf {name line receiver met} (unresolved : map.callee? name = none) :
      Walks map (.statement (.call name line receiver)) met [] []
  | branch {condition line whenTrue whenFalse met trail strays trail₁ strays₁}
      (onTrue : Walks map (.body whenTrue) met trail strays)
      (onFalse : Walks map (.body whenFalse) (trail.reverse ++ met) trail₁ strays₁) :
      Walks map (.statement (.branch condition line whenTrue whenFalse)) met (trail ++ trail₁)
        (strays ++ strays₁)
  | loop {kind condition line statements met trail strays}
      (body : Walks map (.body statements) met trail strays) :
      Walks map (.statement (.loop kind condition line statements)) met trail strays
  | stray {typeName met} : Walks map (.statement (.unsupported typeName)) met [] [typeName]
  | nil {met} : Walks map (.body []) met [] []
  | cons {statement statements met trail strays trail₁ strays₁}
      (first : Walks map (.statement statement) met trail strays)
      (rest : Walks map (.body statements) (trail.reverse ++ met) trail₁ strays₁) :
      Walks map (.body (statement :: statements)) met (trail ++ trail₁) (strays ++ strays₁)

theorem Draws.walks {map : FunctionMap} {work : Work} {draft draft' : Draft} {parent last : Nat}
    {trail : List String} (drawn : Draws map work draft parent trail draft' last) :
    Walks map work draft.unfolded trail [] := by
  induction drawn with
  | reference met => exact .again met
  | unfold fresh body ih => exact .unfold fresh ih
  | call resolved target ih => exact .call resolved ih
  | leaf unresolved => exact .leaf unresolved
  | bareBranch => exact .branch .nil .nil
  | branch bodies onTrue onFalse ihTrue ihFalse =>
      rw [onTrue.unfolded_eq] at ihFalse
      exact .branch ihTrue ihFalse
  | loop body ih => exact .loop ih
  | nil => exact .nil
  | cons first rest ihFirst ihRest =>
      rw [first.unfolded_eq] at ihRest
      exact .cons ihFirst ihRest

namespace Walks

variable {map : FunctionMap} {work : Work} {met trail : List String} {strays : List String}
  {entry : String}

theorem known_nodup (walk : Walks map work met trail strays) (once : met.Nodup) :
    (trail.reverse ++ met).Nodup := by
  induction walk with
  | again known => exact once
  | unfold fresh body ih => simpa using ih (List.nodup_cons.mpr ⟨fresh, once⟩)
  | call resolved target ih => exact ih once
  | leaf unresolved => exact once
  | branch onTrue onFalse ihTrue ihFalse => simpa using ihFalse (ihTrue once)
  | loop body ih => exact ih once
  | stray => exact once
  | nil => exact once
  | cons first rest ihFirst ihRest => simpa using ihRest (ihFirst once)

theorem trail_reached (walk : Walks map work met trail strays)
    (meets : ∀ callee, work.Meets map callee → map.Reaches entry callee) :
    ∀ name ∈ trail, map.Reaches entry name := by
  induction walk with
  | again known => simp
  | @unfold fullName _ _ _ fresh body ih =>
      have reached : map.Reaches entry fullName := meets fullName rfl
      have inside := ih fun callee ⟨name, called, resolved⟩ => .call reached called resolved
      intro name member
      rcases List.mem_cons.mp member with rfl | member
      · exact reached
      · exact inside name member
  | @call name _ _ _ _ _ _ resolved target ih =>
      apply ih
      rintro _ rfl
      exact meets _ ⟨name, by simp [Statement.called], resolved⟩
  | leaf unresolved => simp
  | branch onTrue onFalse ihTrue ihFalse =>
      intro name member
      rcases List.mem_append.mp member with inTrue | inFalse
      · refine ihTrue (fun callee ⟨name, called, resolved⟩ => ?_) name inTrue
        exact meets callee ⟨name, List.mem_append_left _ called, resolved⟩
      · refine ihFalse (fun callee ⟨name, called, resolved⟩ => ?_) name inFalse
        exact meets callee ⟨name, List.mem_append_right _ called, resolved⟩
  | loop body ih => exact ih meets
  | stray => simp
  | nil => simp
  | cons first rest ihFirst ihRest =>
      intro name member
      rcases List.mem_append.mp member with inFirst | inRest
      · refine ihFirst (fun callee ⟨name, called, resolved⟩ => ?_) name inFirst
        exact meets callee ⟨name, List.mem_append_left _ called, resolved⟩
      · refine ihRest (fun callee ⟨name, called, resolved⟩ => ?_) name inRest
        exact meets callee ⟨name, List.mem_append_right _ called, resolved⟩

/-- All that is met is unfolded in the end: by the walk or before it, or further out, where a method
is still being unfolded. -/
theorem met_known (walk : Walks map work met trail strays) {callee : String}
    (meets : work.Meets map callee) : callee ∈ trail.reverse ++ met := by
  induction walk with
  | again known =>
      obtain rfl := meets
      exact known
  | unfold fresh body ih =>
      obtain rfl := meets
      simp
  | call resolved target ih =>
      obtain ⟨name, called, resolvedName⟩ := meets
      obtain rfl := List.mem_singleton.mp called
      exact ih (Option.some.inj (resolvedName.symm.trans resolved))
  | leaf unresolved =>
      obtain ⟨name, called, resolvedName⟩ := meets
      obtain rfl := List.mem_singleton.mp called
      cases unresolved.symm.trans resolvedName
  | branch onTrue onFalse ihTrue ihFalse =>
      obtain ⟨name, called, resolved⟩ := meets
      rw [List.reverse_append, List.append_assoc]
      rcases List.mem_append.mp called with inTrue | inFalse
      · exact List.mem_append_right _ (ihTrue ⟨name, inTrue, resolved⟩)
      · exact ihFalse ⟨name, inFalse, resolved⟩
  | loop body ih => exact ih meets
  | stray =>
      obtain ⟨name, called, -⟩ := meets
      cases called
  | nil =>
      obtain ⟨name, called, -⟩ := meets
      cases called
  | cons first rest ihFirst ihRest =>
      obtain ⟨name, called, resolved⟩ := meets
      rw [List.reverse_append, List.append_assoc]
      rcases List.mem_append.mp called with inFirst | inRest
      · exact List.mem_append_right _ (ihFirst ⟨name, inFirst, resolved⟩)
      · exact ihRest ⟨name, inRest, resolved⟩

/-- Of a method that the walk unfolds, all that its body meets is unfolded in the end. Methods that
were only being unfolded when the walk began are not in its trail, and nothing is said of them. -/
theorem trail_closed (walk : Walks map work met trail strays) :
    ∀ name ∈ trail, ∀ callee, Work.Meets map (.body (map.body name)) callee →
      callee ∈ trail.reverse ++ met := by
  induction walk with
  | again known => simp
  | @unfold fullName met trail _ fresh body ih =>
      have known : (fullName :: trail).reverse ++ met = trail.reverse ++ (fullName :: met) := by
        simp
      intro name member callee meets
      rw [known]
      rcases List.mem_cons.mp member with rfl | member
      · -- A callee may be the method itself, which is marked before its body is gone through.
        exact body.met_known meets
      · exact ih name member callee meets
  | call resolved target ih => exact ih
  | leaf unresolved => simp
  | branch onTrue onFalse ihTrue ihFalse =>
      intro name member callee meets
      rw [List.reverse_append, List.append_assoc]
      rcases List.mem_append.mp member with inTrue | inFalse
      · exact List.mem_append_right _ (ihTrue name inTrue callee meets)
      · exact ihFalse name inFalse callee meets
  | loop body ih => exact ih
  | stray => simp
  | nil => simp
  | cons first rest ihFirst ihRest =>
      intro name member callee meets
      rw [List.reverse_append, List.append_assoc]
      rcases List.mem_append.mp member with inFirst | inRest
      · exact List.mem_append_right _ (ihFirst name inFirst callee meets)
      · exact ihRest name inRest callee meets

theorem mem_trail_iff (walk : Walks map (.method entry) [] trail strays) (name : String) :
    name ∈ trail ↔ map.Reaches entry name := by
  constructor
  · apply walk.trail_reached
    rintro callee rfl
    exact .entry
  · intro reached
    induction reached with
    | entry => simpa using walk.met_known rfl
    | call reached called resolved ih => simpa using walk.trail_closed _ ih _ ⟨_, called, resolved⟩

theorem trail_nodup (walk : Walks map (.method entry) [] trail strays) : trail.Nodup :=
  List.nodup_reverse.mp (walk.known_nodup List.nodup_nil).of_append_left

end Walks

namespace Draws

variable {map : FunctionMap} {entry : String} {trail : List String} {draft : Draft} {last : Nat}

theorem mem_trail_iff (drawn : Draws map (.method entry) Trace.opening 0 trail draft last)
    (name : String) : name ∈ trail ↔ map.Reaches entry name :=
  drawn.walks.mem_trail_iff name

theorem trail_nodup (drawn : Draws map (.method entry) Trace.opening 0 trail draft last) :
    trail.Nodup :=
  drawn.walks.trail_nodup

end Draws

/-- A trace ends, and it unfolds every method that calls lead to from the entry method, each once,
and no other. -/
theorem Trace.unfolds_reachable (map : FunctionMap) (supported : map.isSupported = true)
    (entry : String) :
    ∃ draft last trail, fromStart map entry = .ok (draft, last) ∧
      (∀ linkEnd, graph map linkEnd entry = .ok (toGraph (close linkEnd draft last) entry)) ∧
      Draws map (.method entry) opening 0 trail draft last ∧
      draft.unfolded = trail.reverse ∧ trail.Nodup ∧
      ∀ name, name ∈ trail ↔ map.Reaches entry name := by
  obtain ⟨draft, last, trail, ended, traced, drawn⟩ := graph_total supported entry
  refine ⟨draft, last, trail, ended, traced, drawn, ?_, drawn.trail_nodup, drawn.mem_trail_iff⟩
  rw [drawn.unfolded_eq]
  exact List.append_nil _

theorem Trace.mutualCalls_unfolds_reachable :
    FunctionMap.mutualCalls.isSupported = true ∧
    ∃ draft last trail, fromStart FunctionMap.mutualCalls "A.f" = .ok (draft, last) ∧
      (∀ linkEnd, graph FunctionMap.mutualCalls linkEnd "A.f" =
        .ok (toGraph (close linkEnd draft last) "A.f")) ∧
      Draws FunctionMap.mutualCalls (.method "A.f") opening 0 trail draft last ∧
      draft.unfolded = trail.reverse ∧ trail.Nodup ∧
      ∀ name, name ∈ trail ↔ FunctionMap.mutualCalls.Reaches "A.f" name :=
  ⟨by decide, unfolds_reachable FunctionMap.mutualCalls (by decide) "A.f"⟩

end MethodFlow
