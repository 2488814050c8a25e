import MethodFlow.FunctionMap
import MethodFlow.Proofs.Flow.Chain
import MethodFlow.Proofs.Header.Names
import MethodFlow.Proofs.Scan.Moves

/-!
A scan records no statement with a body, and all names that it records are words.
-/
namespace MethodFlow

theorem LineStatements.scan_flat (dialect : Dialect) (mask code : List Char) (line : Int) :
    (scan dialect mask code line).all Statement.isFlat = true := by
  simp [scan, calls, branches, loops, Statement.isFlat]

structure Method.IsFlat (method : Method) : Prop where
  className : Header.isName method.className = true
  name : Header.isName method.name = true
  statements : method.statements.all Statement.isFlat = true

namespace Scan

def methods (scan : Scan) : List Method :=
  FunctionMap.methodsOf scan.opened

@[simp, grind =] theorem declOf_methods (scan : Scan) (cls : OpenClass) :
    (scan.declOf cls).methods = cls.methods :=
  rfl

theorem mem_methods {scan : Scan} {method : Method} :
    method ∈ scan.methods ↔ (∃ cls ∈ scan.done, method ∈ cls.methods) ∨
      ∃ cls ∈ scan.classes,
        method ∈ cls.methods ∨ ∃ nested ∈ cls.nested, method ∈ nested.methods := by
  simp only [methods, FunctionMap.methodsOf, opened, List.mem_flatMap, List.mem_append,
    List.mem_reverse, declared, List.mem_cons]
  grind

theorem mem_closeMethod_methods {scan : Scan} {method : Method}
    (member : method ∈ scan.closeMethod.methods) :
    method ∈ scan.methods ∨ ∃ closed, scan.method = some closed ∧ method = closed.toMethod := by
  unfold closeMethod at member
  split at member
  · rename_i closed cls outer found opened
    rw [mem_methods] at member ⊢
    simp only [opened, List.mem_cons, exists_eq_or_imp, List.mem_append, List.not_mem_nil,
      or_false] at member ⊢
    rcases member with inDone | ((inClass | rfl) | inNested) | inOuter
    · exact .inl (.inl inDone)
    · exact .inl (.inr (.inl (.inl inClass)))
    · exact .inr ⟨closed, found, rfl⟩
    · exact .inl (.inr (.inl (.inr inNested)))
    · exact .inl (.inr (.inr inOuter))
  · exact .inl member

section Closing

variable (scan : Scan)

theorem closeMethod_map {α : Type} {view : OpenClass → α}
    (outside : ∀ (cls : OpenClass) (methods : List Method) (nested : List ClassDecl),
      view { cls with methods, nested } = view cls) :
    scan.closeMethod.classes.map view = scan.classes.map view := by
  unfold closeMethod
  split
  · rename_i method cls outer found opened
    rw [opened, List.map_cons, List.map_cons, outside cls _ cls.nested]
  · rfl

theorem closeClass_map {α : Type} {view : OpenClass → α}
    (outside : ∀ (cls : OpenClass) (methods : List Method) (nested : List ClassDecl),
      view { cls with methods, nested } = view cls) :
    scan.closeClass.classes.map view = (scan.classes.map view).tail := by
  rw [← closeMethod_map scan outside]
  unfold closeClass
  dsimp only
  generalize scan.closeMethod = next
  split
  · rename_i opened
    rw [opened, List.map_nil, List.tail_nil]
  · rename_i cls opened
    rw [opened, List.map_singleton, List.tail_cons, List.map_nil]
  · rename_i cls outer rest opened
    rw [opened, List.map_cons, List.map_cons, List.tail_cons, List.map_cons,
      outside outer outer.methods]

/-- A class that closes stays where it is in the order of all classes. -/
theorem closeClass_opened : scan.closeClass.opened = scan.closeMethod.opened := by
  unfold closeClass
  dsimp only
  generalize scan.closeMethod = next
  split
  · rfl
  · rename_i cls opened
    simp [Scan.opened, opened]
  · rename_i cls outer rest opened
    have same (classes : List OpenClass) : { next with classes }.declared = next.declared := rfl
    simp only [Scan.opened, opened, same, List.reverse_cons, List.flatMap_append,
      List.flatMap_singleton, List.append_assoc]
    simp [declared, declOf]

@[simp] theorem closeMethod_method : scan.closeMethod.method = none := by
  unfold closeMethod
  split <;> rfl

@[simp] theorem closeClass_method : scan.closeClass.method = none := by
  unfold closeClass
  dsimp only
  split <;> exact closeMethod_method scan

end Closing

/-- What holds of a scan from its start on. -/
structure IsFlat (scan : Scan) : Prop where
  methods : ∀ method ∈ scan.methods, method.IsFlat
  method : ∀ method, scan.method = some method → method.toMethod.IsFlat
  names : ∀ name ∈ scan.classes.map OpenClass.name, Header.isName name = true

namespace IsFlat

theorem start (dialect : Dialect) (file : Option String) : (Scan.start dialect file).IsFlat where
  methods := fun _ member => nomatch member
  method := fun _ found => nomatch found
  names := fun _ member => nomatch member

variable {scan : Scan} (flat : scan.IsFlat)

include flat

theorem closeMethod : scan.closeMethod.IsFlat where
  methods := by
    intro method member
    rcases mem_closeMethod_methods member with old | ⟨closed, found, rfl⟩
    · exact flat.methods method old
    · exact flat.method closed found
  method := by simp
  names := by
    rw [closeMethod_map scan fun _ _ _ => rfl]
    exact flat.names

theorem closeClass : scan.closeClass.IsFlat where
  methods := by
    rw [Scan.methods, closeClass_opened]
    exact flat.closeMethod.methods
  method := by simp
  names := by
    intro name member
    rw [closeClass_map scan fun _ _ _ => rfl] at member
    exact flat.names name (List.mem_of_mem_tail member)

theorem withMethod {method : OpenMethod} (isFlat : method.toMethod.IsFlat) :
    { scan with method := some method }.IsFlat where
  methods := flat.methods
  method := by
    intro other found
    cases found
    exact isFlat
  names := flat.names

theorem withClass {cls changed : OpenClass} {outer : List OpenClass}
    (opened : scan.classes = cls :: outer) (name : changed.name = cls.name)
    (methods : changed.methods = cls.methods) (nested : changed.nested = cls.nested) :
    { scan with classes := changed :: outer }.IsFlat where
  methods := by
    intro method member
    apply flat.methods
    rw [mem_methods] at member ⊢
    simpa only [opened, List.mem_cons, exists_eq_or_imp, methods, nested] using member
  method := flat.method
  names := by
    have names := flat.names
    rw [opened] at names
    simpa [name] using names

theorem move {line : Line} {depth : Int} {next : Scan} (moved : Move line depth scan next) :
    next.IsFlat := by
  cases moved with
  | package unstated outside read =>
      refine ⟨fun method member => flat.methods method ?_, flat.method, flat.names⟩
      rw [mem_methods] at member ⊢
      exact member
  | openClass free read =>
      refine ⟨fun method member => flat.methods method ?_, flat.method, ?_⟩
      · rw [mem_methods] at member ⊢
        simpa [Line.newClass] using member
      · intro name member
        rcases List.mem_cons.mp member with rfl | old
        · exact Header.openedClass?_isName read
        · exact flat.names name old
  | headClass supertypes header opened => exact flat.withClass opened rfl rfl rfl
  | enterClass opened deeper => exact flat.withClass opened rfl rfl rfl
  | closeClass => exact flat.closeClass
  | openMethod opened entered level free found =>
      have named := flat.names _ (by rw [opened]; exact List.mem_cons_self)
      exact flat.withMethod ⟨named, Header.method?_isName found, rfl⟩
  | headMethod parameters returnType header opened =>
      have old := flat.method _ opened
      exact flat.withMethod ⟨old.className, old.name, old.statements⟩
  | addStatements part opened number =>
      have old := flat.method _ opened
      refine flat.withMethod ⟨old.className, old.name, ?_⟩
      rw [OpenMethod.toMethod, List.all_append, Bool.and_eq_true]
      exact ⟨old.statements, LineStatements.scan_flat _ _ _ _⟩
  | enterMethod opened deeper =>
      have old := flat.method _ opened
      exact flat.withMethod ⟨old.className, old.name, old.statements⟩
  | closeMethod => exact flat.closeMethod

end IsFlat

theorem feedLines_flat {scan : Scan} (flat : scan.IsFlat) (first : Int)
    (lines : List (List Char)) : (scan.feedLines first lines).IsFlat := by
  refine feedLines_invariant (fun _ _ _ _ moved flat => flat.move moved) ?_ flat first lines
  intro scan inComment depth flat
  exact ⟨flat.methods, flat.method, flat.names⟩

theorem extract_flat (dialect : Dialect) (file : Option String) (source : String) :
    ∀ method ∈ FunctionMap.methodsOf (extract dialect file source), method.IsFlat := by
  have fed := feedLines_flat (.start dialect file) 1 (Text.lines source.toList)
  intro method member
  apply fed.closeMethod.methods
  simpa [extract, finish, methods, FunctionMap.methodsOf] using member

end Scan
end MethodFlow
