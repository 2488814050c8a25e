import MethodFlow.Proofs.Scan.Layout

/-!
How the open declarations of a scan hold each other: all classes around the innermost one have
opened their bodies, and an open method stands directly in the body of the innermost class. Lines
keep this whatever they are, also where braces do not balance, so that a method always has a class
to go to.
-/
namespace MethodFlow

structure Scope where
  base : Int
  entered : Bool
  deriving DecidableEq, Repr

def OpenClass.scope (cls : OpenClass) : Scope :=
  ⟨cls.baseDepth, cls.entered⟩

/-- A method belongs to a class and stands directly in its body. -/
structure OpenMethod.StandsIn (method : OpenMethod) (cls : OpenClass) : Prop where
  entered : cls.entered = true
  className : method.className = cls.name
  level : method.baseDepth = cls.baseDepth + 1

theorem OpenMethod.Grows.standsIn {dialect : Dialect} {line : Scan.Line}
    {method grown : OpenMethod} (grows : method.Grows dialect line grown) {cls : OpenClass}
    (stands : method.StandsIn cls) : grown.StandsIn cls :=
  ⟨stands.entered, (congrArg Heading.className grows.heading).trans stands.className,
    grows.baseDepth.trans stands.level⟩

namespace Scan

def scopes (scan : Scan) : List Scope :=
  scan.classes.map OpenClass.scope

section Scopes

variable (scan : Scan)

theorem closeMethod_scopes : scan.closeMethod.scopes = scan.scopes :=
  closeMethod_map scan fun _ _ _ => rfl

theorem closeClass_scopes : scan.closeClass.scopes = scan.scopes.tail :=
  closeClass_map scan fun _ _ _ => rfl

theorem closeMethod_depth : scan.closeMethod.depth = scan.depth :=
  congrArg (fun frame => frame.2.2.1) (closeMethod_frame scan)

theorem closeClass_depth : scan.closeClass.depth = scan.depth :=
  congrArg (fun frame => frame.2.2.1) (closeClass_frame scan)

theorem settleClasses_depth : scan.settleClasses.depth = scan.depth := by
  have close : ∀ next : Scan, next.depth = scan.depth → next.closeClass.depth = scan.depth :=
    fun next same => (closeClass_depth next).trans same
  exact settleClassesWithin_invariant close _ rfl

end Scopes

/-- The classes around the innermost one have opened their bodies, and the open method stands in the
innermost one. -/
structure IsHoused (scan : Scan) : Prop where
  outer : ∀ scope ∈ scan.scopes.tail, scope.entered = true
  method : ∀ method, scan.method = some method →
    ∃ cls outer, scan.classes = cls :: outer ∧ method.StandsIn cls

/-- The depth has not left the body of the open method. -/
def IsInside (scan : Scan) : Prop :=
  ∀ method, scan.method = some method → method.entered = true → method.baseDepth < scan.depth

section Housed

variable {scan : Scan}

theorem IsInside.of_free (free : scan.method = none) : scan.IsInside := by
  intro method found
  cases free.symm.trans found

theorem IsHoused.of_free (free : scan.method = none)
    (outer : ∀ scope ∈ scan.scopes.tail, scope.entered = true) : scan.IsHoused := by
  refine ⟨outer, fun method found => ?_⟩
  cases free.symm.trans found

theorem IsHoused.start (dialect : Dialect) (file : Option String) :
    (Scan.start dialect file).IsHoused :=
  .of_free rfl fun _ member => nomatch member

variable (housed : scan.IsHoused)

include housed

theorem IsHoused.inner (inMethod : scan.method ≠ none) :
    ∀ scope ∈ scan.scopes, scope.entered = true := by
  obtain ⟨method, found⟩ := Option.ne_none_iff_exists'.mp inMethod
  obtain ⟨cls, outer, opened, stands⟩ := housed.method method found
  have outerEntered := housed.outer
  rw [scopes, opened] at outerEntered ⊢
  exact List.forall_mem_cons.mpr ⟨stands.entered, outerEntered⟩

theorem IsHoused.withMethod {method changed : OpenMethod} (found : scan.method = some method)
    (stays : ∀ cls, method.StandsIn cls → changed.StandsIn cls) :
    { scan with method := some changed }.IsHoused := by
  obtain ⟨cls, outer, opened, stands⟩ := housed.method method found
  refine ⟨housed.outer, fun other isOpen => ?_⟩
  obtain rfl : changed = other := Option.some.inj isOpen
  exact ⟨cls, outer, opened, stays cls stands⟩

theorem IsHoused.closeMethod : scan.closeMethod.IsHoused := by
  refine .of_free (closeMethod_method scan) ?_
  rw [closeMethod_scopes]
  exact housed.outer

theorem IsHoused.closeClass : scan.closeClass.IsHoused := by
  refine .of_free (closeClass_method scan) fun scope member => ?_
  rw [closeClass_scopes] at member
  exact housed.outer scope (List.mem_of_mem_tail member)

theorem IsHoused.settleClasses (inside : scan.IsInside) :
    scan.settleClasses.IsHoused ∧ scan.settleClasses.IsInside := by
  have close : ∀ next : Scan, next.IsHoused ∧ next.IsInside →
      next.closeClass.IsHoused ∧ next.closeClass.IsInside :=
    fun next held => ⟨held.1.closeClass, .of_free (closeClass_method next)⟩
  exact settleClassesWithin_invariant close _ ⟨housed, inside⟩

theorem IsHoused.withoutPending : scan.withoutPending.IsHoused := by
  rcases withoutPending_cases scan with kept | closed | closed
  · rwa [kept]
  · rw [closed]
    exact housed.closeMethod
  · rw [closed]
    exact housed.closeClass

theorem IsHoused.withoutPending_scopes :
    scan.withoutPending.scopes = scan.scopes.filter Scope.entered := by
  have whole (entered : ∀ scope ∈ scan.scopes, scope.entered = true) :
      scan.scopes.filter Scope.entered = scan.scopes := List.filter_eq_self.mpr entered
  cases found : scan.method with
  | some method =>
      rw [whole (housed.inner (by simp [found]))]
      simp only [Scan.withoutPending, found]
      split
      · rfl
      · exact closeMethod_scopes scan
  | none =>
      cases opened : scan.classes with
      | nil => simp [Scan.withoutPending, found, opened, scopes]
      | cons cls outer =>
          have scopes : scan.scopes = cls.scope :: outer.map OpenClass.scope := by
            simp [scopes, opened]
          have entered : (outer.map OpenClass.scope).filter Scope.entered =
              outer.map OpenClass.scope := by
            apply List.filter_eq_self.mpr
            have outerEntered := housed.outer
            rwa [scopes, List.tail_cons] at outerEntered
          simp only [Scan.withoutPending, found, opened]
          cases pending : cls.entered with
          | true =>
              have innermost : cls.scope.entered = true := pending
              rw [if_pos rfl, scopes, List.filter_cons_of_pos innermost, entered]
          | false =>
              rw [if_neg Bool.false_ne_true, closeClass_scopes, scopes, List.tail_cons,
                List.filter_cons_of_neg (by simp [OpenClass.scope, pending]), entered]

theorem IsHoused.withoutPending_entered :
    ∀ scope ∈ scan.withoutPending.scopes, scope.entered = true := by
  rw [housed.withoutPending_scopes]
  exact fun scope member => (List.mem_filter.mp member).2

end Housed

section Turn

variable {scan next : Scan} {line : Line} {depth : Int} {opening : Option Opening}

theorem resolveClass_housed (line : Line) {cls : OpenClass} {outer : List OpenClass}
    (opened : scan.classes = cls :: outer) (free : scan.method = none)
    (entered : ∀ scope ∈ outer.map OpenClass.scope, scope.entered = true) :
    (scan.resolveClass line).IsHoused ∧ (scan.resolveClass line).IsInside := by
  have headed (changed : OpenClass) : { scan with classes := changed :: outer }.IsHoused :=
    .of_free free entered
  obtain ⟨supertypes, kept | ⟨-, inside⟩ | ⟨-, closed⟩⟩ := resolveClass_cases scan line opened
  · rw [kept]
    exact ⟨headed _, .of_free free⟩
  · rw [inside]
    exact ⟨headed _, .of_free free⟩
  · rw [closed]
    exact ⟨(headed _).closeClass, .of_free (closeClass_method _)⟩

theorem resolveMethod_housed (line : Line) {method : OpenMethod}
    (housed : { scan with method := some method }.IsHoused) (pending : method.entered = false) :
    (scan.resolveMethod method line).IsHoused ∧ (scan.resolveMethod method line).IsInside := by
  obtain ⟨grown, grows, entered, resolved⟩ := resolveMethod_cases scan line method
  have stillHoused : { scan with method := some grown }.IsHoused :=
    housed.withMethod rfl fun _ => grows.standsIn
  rcases resolved with kept | closed
  · rw [kept]
    refine ⟨stillHoused, fun other found isEntered => ?_⟩
    obtain rfl : grown = other := Option.some.inj found
    rw [pending, isEntered] at entered
    rw [grows.baseDepth]
    exact entered.resolve_left Bool.noConfusion
  · rw [closed]
    exact ⟨stillHoused.closeMethod, .of_free (closeMethod_method _)⟩

theorem bodyLine_housed (line : Line) (housed : scan.IsHoused) :
    (scan.bodyLine line).IsHoused ∧ (scan.bodyLine line).IsInside := by
  cases found : scan.method with
  | none =>
      rw [bodyLine_of_free scan line found]
      exact housed.settleClasses (.of_free found)
  | some method =>
      obtain ⟨grown, grows, -, settled⟩ := bodyLine_of_open scan line found
      have stillHoused : { scan with method := some grown }.IsHoused :=
        housed.withMethod found fun _ => grows.standsIn
      rw [settled]
      -- The method is looked at before the classes, so it is left open only in its body.
      unfold settleMethod
      split
      · exact stillHoused.closeMethod.settleClasses (.of_free (closeMethod_method _))
      · rename_i notLeft
        refine stillHoused.settleClasses fun other isOpen entered => ?_
        obtain rfl : grown = other := Option.some.inj isOpen
        simpa [entered] using notLeft

/-- One line: whatever it does, the declarations that are open after it hold each other, and the
depth is in the body of the method that is open. -/
theorem Turn.housed (turn : Turn line depth scan opening next) (housed : scan.IsHoused) :
    next.IsHoused ∧ next.IsInside := by
  have entered := housed.withoutPending_entered
  cases turn with
  | @headMethod method opened pending continues =>
      have headed : { scan with
          method := some { method with header := method.header ++ [line.mask] } }.IsHoused :=
        housed.withMethod opened fun _ stands => ⟨stands.entered, stands.className, stands.level⟩
      obtain ⟨stillHoused, inside⟩ := resolveMethod_housed line headed pending
      exact stillHoused.settleClasses inside
  | @headClass cls outer free opened pending continues =>
      have outerEntered := housed.outer
      rw [scopes, opened] at outerEntered
      exact resolveClass_housed line rfl free outerEntered
  | package standing unstated outside read =>
      have free : scan.withoutPending.method = none := by
        cases found : scan.withoutPending.method with
        | none => rfl
        | some method =>
            obtain ⟨cls, outer, inside, -⟩ := housed.withoutPending.method method found
            cases outside.symm.trans inside
      exact ⟨.of_free free housed.withoutPending.outer, .of_free free⟩
  | @openClass name standing free read =>
      exact resolveClass_housed line rfl free entered
  | @openMethod cls outer read standing free opened inBody level readable =>
      refine resolveMethod_housed line ⟨housed.withoutPending.outer, fun method found => ?_⟩ rfl
      obtain rfl := Option.some.inj found
      exact ⟨cls, outer, opened, inBody, rfl, level⟩
  | body standing => exact bodyLine_housed line housed.withoutPending

end Turn

theorem feed_housed {scan : Scan} (raw : List Char) (number : Int) (housed : scan.IsHoused)
    (inside : scan.IsInside) :
    (scan.feed raw number).IsHoused ∧ (scan.feed raw number).IsInside := by
  rw [feed_eq]
  split
  · exact ⟨⟨housed.outer, housed.method⟩, inside⟩
  · have counted : (scan.pastBraces raw number).IsHoused := ⟨housed.outer, housed.method⟩
    exact (afterHeader_turn _ _ _).housed counted

theorem feedLines_housed {scan : Scan} (first : Int) (lines : List (List Char))
    (housed : scan.IsHoused) (inside : scan.IsInside) :
    (scan.feedLines first lines).IsHoused ∧ (scan.feedLines first lines).IsInside := by
  induction lines generalizing scan first with
  | nil => exact ⟨housed, inside⟩
  | cons raw lines ih =>
      obtain ⟨fedHoused, fedInside⟩ := feed_housed raw first housed inside
      exact ih (first + 1) fedHoused fedInside

def currentClass? (scan : Scan) : Option OpenClass :=
  scan.classes.head?

def enclosing (scan : Scan) : List OpenClass :=
  scan.classes.tail.reverse

theorem enclosing_append_current (scan : Scan) :
    scan.enclosing ++ scan.currentClass?.toList = scan.classes.reverse := by
  rw [enclosing, currentClass?]
  cases scan.classes with
  | nil => rfl
  | cons cls outer => simp

theorem declOf_sublist_opened (scan : Scan) :
    (scan.classes.reverse.map scan.declOf).Sublist scan.opened := by
  have declared (classes : List OpenClass) :
      (classes.map scan.declOf).Sublist (classes.flatMap scan.declared) := by
    induction classes with
    | nil => exact .slnil
    | cons cls classes ih =>
        have here : [scan.declOf cls].Sublist (scan.declared cls) :=
          List.singleton_sublist.mpr List.mem_cons_self
        exact here.append ih
  exact (declared _).trans (List.sublist_append_right _ _)

/-- What holds of the open declarations of a scan, where `log` are the declarations that the lines
fed to it have opened. -/
structure IsConsistent (log : List Opening) (scan : Scan) : Prop where
  current : scan.enclosing ≠ [] → ∃ cls, scan.currentClass? = some cls
  entered : ∀ cls ∈ scan.enclosing, cls.entered = true
  inOrder : ((scan.enclosing ++ scan.currentClass?.toList).map scan.declOf).Sublist scan.opened
  opened : scan.opened.map ClassDecl.heading = log.filterMap Opening.classHeading?
  housed : ∀ method, scan.method = some method →
    ∃ cls, scan.currentClass? = some cls ∧ method.StandsIn cls
  inside : ∀ method, scan.method = some method → method.entered = true →
    method.baseDepth < scan.depth
  /-- The open method has a class to go to when it closes. -/
  closes : ∀ method, scan.method = some method → ∃ cls outer, scan.classes = cls :: outer ∧
    scan.closeMethod.classes =
      { cls with methods := cls.methods ++ [method.toMethod] } :: outer
  /-- No method was dropped when it closed: each is in a class, or it is the open one. -/
  kept : (scan.declaredMethods.map Method.heading).Perm (log.filterMap Opening.methodHeading?)

theorem IsConsistent.of_housed {source : List Line} {fresh unread : Int} {log : List Opening}
    {scan : Scan} (housed : scan.IsHoused) (inside : scan.IsInside)
    (ordered : InOrder source fresh unread log scan) : scan.IsConsistent log where
  current := by
    intro around
    cases opened : scan.classes with
    | nil => exact absurd (by rw [enclosing, opened]; rfl) around
    | cons cls outer => exact ⟨cls, by rw [currentClass?, opened, List.head?_cons]⟩
  entered := by
    intro cls member
    apply housed.outer cls.scope
    rw [scopes, ← List.map_tail]
    exact List.mem_map_of_mem (List.mem_reverse.mp member)
  inOrder := by
    rw [enclosing_append_current]
    exact declOf_sublist_opened scan
  opened := ordered.classesLogged
  housed := by
    intro method found
    obtain ⟨cls, outer, opened, stands⟩ := housed.method method found
    exact ⟨cls, by rw [currentClass?, opened, List.head?_cons], stands⟩
  inside := inside
  closes := by
    intro method found
    obtain ⟨cls, outer, opened, -⟩ := housed.method method found
    exact ⟨cls, outer, opened, by simp only [closeMethod, found, opened]⟩
  kept := ordered.methodsLogged

theorem feedLines_consistent (dialect : Dialect) (file : Option String) (first : Int)
    (lines : List (List Char)) :
    ((start dialect file).feedLines first lines).IsConsistent
      ((start dialect file).openings first lines) := by
  obtain ⟨housed, inside⟩ :=
    feedLines_housed first lines (.start dialect file) (.of_free rfl)
  have ordered := InOrder.feedLines
    (.start (numbered first (MaskedLine.ofLines false lines)) first first dialect file)
    (List.Subset.refl (numbered first (MaskedLine.ofLines false lines)))
  exact .of_housed housed inside ordered

end Scan
end MethodFlow
