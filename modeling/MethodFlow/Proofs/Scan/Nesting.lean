import MethodFlow.Proofs.Scan.Housing

/-!
When the bodies of classes end. The scan looks at the open classes after most lines, and then none is
left open whose body the brace depth has left. After a line that opens a declaration, or that goes on
with the header of a class, it does not look.
-/
namespace MethodFlow

def Scope.isLeft (depth : Int) (scope : Scope) : Bool :=
  scope.entered && depth ≤ scope.base

/-- Where bodies lie in each other, the innermost first, those that are left are closed up to the
first that is not, and none remains. -/
theorem Scope.not_left_of_dropWhile {scopes : List Scope} {depth : Int}
    (entered : ∀ scope ∈ scopes, scope.entered = true)
    (descending : scopes.Pairwise fun inner outer => outer.base < inner.base) :
    ∀ scope ∈ scopes.dropWhile (isLeft depth), scope.base < depth := by
  induction scopes with
  | nil => simp
  | cons first scopes ih =>
      have firstEntered := entered first List.mem_cons_self
      rw [List.pairwise_cons] at descending
      by_cases left : first.isLeft depth = true
      · rw [List.dropWhile_cons_of_pos left]
        exact ih (fun scope member => entered scope (List.mem_cons_of_mem _ member)) descending.2
      · rw [List.dropWhile_cons_of_neg left]
        have deeper : first.base < depth := by
          simpa [isLeft, firstEntered] using left
        intro scope member
        rcases List.mem_cons.mp member with rfl | outer
        · exact deeper
        · exact Int.lt_trans (descending.1 scope outer) deeper

namespace Scan

def IsSettled (scan : Scan) : Prop :=
  ∀ cls ∈ scan.classes, cls.entered = true → cls.baseDepth < scan.depth

section Scopes

variable (scan : Scan)

theorem resolveMethod_scopes (line : Line) (method : OpenMethod) :
    (scan.resolveMethod method line).scopes = scan.scopes := by
  obtain ⟨grown, -, -, kept | closed⟩ := resolveMethod_cases scan line method
  · rw [kept]
    rfl
  · rw [closed, closeMethod_scopes]
    rfl

theorem resolveMethod_depth (line : Line) (method : OpenMethod) :
    (scan.resolveMethod method line).depth = scan.depth := by
  obtain ⟨grown, -, -, kept | closed⟩ := resolveMethod_cases scan line method
  · rw [kept]
  · rw [closed, closeMethod_depth]

theorem settleClassesWithin_scopes (fuel : Nat) (enough : scan.scopes.length ≤ fuel) :
    (settleClassesWithin fuel scan).scopes = scan.scopes.dropWhile (Scope.isLeft scan.depth) := by
  induction fuel generalizing scan with
  | zero =>
      have empty : scan.scopes = [] := List.length_eq_zero_iff.mp (Nat.le_zero.mp enough)
      rw [settleClassesWithin, empty]
      rfl
  | succ fuel ih =>
      unfold settleClassesWithin
      cases opened : scan.classes with
      | nil => simp [scopes, opened]
      | cons cls outer =>
          have scopes : scan.scopes = cls.scope :: outer.map OpenClass.scope := by
            simp [scopes, opened]
          have looked : (some cls).any (fun cls => cls.entered && scan.depth ≤ cls.baseDepth) =
              cls.scope.isLeft scan.depth := rfl
          rw [List.head?_cons, looked, scopes]
          by_cases left : cls.scope.isLeft scan.depth = true
          · rw [if_pos left, List.dropWhile_cons_of_pos left]
            rw [scopes, List.length_cons] at enough
            have closed : scan.closeClass.scopes = outer.map OpenClass.scope := by
              rw [closeClass_scopes, scopes, List.tail_cons]
            rw [ih scan.closeClass (by rw [closed]; omega), closed, closeClass_depth]
          · rw [if_neg left, List.dropWhile_cons_of_neg left, scopes]

theorem settleClasses_scopes :
    scan.settleClasses.scopes = scan.scopes.dropWhile (Scope.isLeft scan.depth) := by
  apply settleClassesWithin_scopes
  simp [scopes]

theorem bodyLine_settles (line : Line) :
    ∃ before : Scan, before.scopes = scan.scopes ∧ before.depth = scan.depth ∧
      scan.bodyLine line = before.settleClasses := by
  cases found : scan.method with
  | none => exact ⟨scan, rfl, rfl, bodyLine_of_free scan line found⟩
  | some method =>
      obtain ⟨grown, -, -, settled⟩ := bodyLine_of_open scan line found
      refine ⟨_, ?_, ?_, settled⟩
      · rcases settleMethod_cases { scan with method := some grown } with kept | closed
        · rw [kept]
          rfl
        · rw [closed, closeMethod_scopes]
          rfl
      · rcases settleMethod_cases { scan with method := some grown } with kept | closed
        · rw [kept]
        · rw [closed, closeMethod_depth]

theorem isSettled_iff :
    scan.IsSettled ↔ ∀ scope ∈ scan.scopes, scope.entered = true → scope.base < scan.depth := by
  simp only [IsSettled, scopes, List.forall_mem_map]
  rfl

end Scopes

/-- Each open class begins deeper than those around it. -/
def IsDescending (scan : Scan) : Prop :=
  scan.scopes.Pairwise fun inner outer => outer.base < inner.base

structure IsNested (scan : Scan) : Prop extends scan.IsHoused where
  descending : scan.IsDescending

section Closing

variable {scan : Scan}

theorem settleClasses_descending (descending : scan.IsDescending) :
    scan.settleClasses.IsDescending := by
  rw [IsDescending, settleClasses_scopes]
  exact descending.sublist (List.dropWhile_sublist _)

theorem settleClasses_settled (entered : ∀ scope ∈ scan.scopes, scope.entered = true)
    (descending : scan.IsDescending) : scan.settleClasses.IsSettled := by
  rw [isSettled_iff, settleClasses_scopes, settleClasses_depth]
  intro scope member _
  exact Scope.not_left_of_dropWhile entered descending scope member

theorem withoutPending_depth (scan : Scan) : scan.withoutPending.depth = scan.depth := by
  rcases withoutPending_cases scan with kept | closed | closed
  · rw [kept]
  · rw [closed, closeMethod_depth]
  · rw [closed, closeClass_depth]

theorem IsNested.withoutPending_descending (nested : scan.IsNested) :
    scan.withoutPending.IsDescending := by
  rw [IsDescending, nested.withoutPending_scopes]
  exact nested.descending.filter _

theorem IsHoused.withoutPending_settled_iff (housed : scan.IsHoused) :
    scan.withoutPending.IsSettled ↔ scan.IsSettled := by
  rw [isSettled_iff, isSettled_iff, housed.withoutPending_scopes, withoutPending_depth]
  simp only [List.mem_filter]
  constructor
  · intro remaining scope member entered
    exact remaining scope ⟨member, entered⟩ entered
  · intro settled scope member
    exact settled scope member.1

end Closing

section Heading

variable {scan : Scan} {cls : OpenClass} {outer : List OpenClass} (line : Line)
  (opened : scan.classes = cls :: outer)

include opened

theorem resolveClass_settled_iff (pending : cls.entered = false) :
    (scan.resolveClass line).IsSettled ↔
      ∀ other ∈ outer, other.entered = true → other.baseDepth < scan.depth := by
  obtain ⟨supertypes, kept | ⟨deeper, entered⟩ | ⟨-, closed⟩⟩ := resolveClass_cases scan line opened
  · rw [kept, IsSettled]
    simp [pending]
  · rw [entered, IsSettled]
    simp [deeper]
  · rw [closed, isSettled_iff, closeClass_scopes, closeClass_depth]
    simp [scopes, OpenClass.scope]

theorem resolveClass_descending (descending : scan.IsDescending) :
    (scan.resolveClass line).IsDescending := by
  rw [IsDescending, scopes, opened, List.map_cons] at descending
  obtain ⟨supertypes, kept | ⟨-, entered⟩ | ⟨-, closed⟩⟩ := resolveClass_cases scan line opened
  · rw [kept]
    exact descending
  · rw [entered]
    exact List.pairwise_cons.mpr (List.pairwise_cons.mp descending)
  · rw [closed, IsDescending, closeClass_scopes]
    exact descending.of_cons

end Heading

/-- Whether the scan does not look at scopes after a line: the line opens a declaration, or it is
more of the header of a class. -/
def passesScopes (scan : Scan) (line : Line) (depth : Int) : Bool :=
  (scan.opening? line depth).isSome || (scan.method.isNone && scan.continuesHeader line)

section Turn

variable {scan next : Scan} {line : Line} {depth : Int} {opening : Option Opening}

theorem Turn.nested (turn : Turn line depth scan opening next) (nested : scan.IsNested)
    (settled : ∀ scope ∈ scan.scopes, scope.entered = true → scope.base < depth) :
    next.IsNested := by
  have descending := nested.withoutPending_descending
  refine ⟨(turn.housed nested.toIsHoused).1, ?_⟩
  cases turn with
  | headMethod opened pending continues =>
      apply settleClasses_descending
      rw [IsDescending, resolveMethod_scopes]
      exact nested.descending
  | headClass free opened pending continues =>
      apply resolveClass_descending line rfl
      have descending := nested.descending
      rwa [IsDescending, scopes, opened] at descending
  | package standing unstated outside read => exact descending
  | openClass standing free read =>
      apply resolveClass_descending line rfl
      refine List.pairwise_cons.mpr ⟨fun scope member => ?_, descending⟩
      -- Before the line no body was left, so the new one begins deeper than those around it.
      have kept : scope ∈ scan.withoutPending.scopes := member
      rw [nested.withoutPending_scopes, List.mem_filter] at kept
      exact settled scope kept.1 kept.2
  | openMethod standing free opened inside level readable =>
      rw [IsDescending, resolveMethod_scopes]
      exact descending
  | body standing =>
      obtain ⟨before, scopes, -, settles⟩ := bodyLine_settles scan.withoutPending line
      rw [settles]
      apply settleClasses_descending
      rwa [IsDescending, scopes]

/-- A line after which the scan looks at scopes leaves none that should be closed. Any other leaves
those that were open before it. -/
theorem Turn.settled_iff (turn : Turn line depth scan opening next)
    (opens : scan.opening? line depth = opening) (nested : scan.IsNested) :
    next.IsSettled ↔ (scan.passesScopes line depth = true → scan.IsSettled) := by
  cases turn with
  | headMethod opened pending continues =>
      have looks : scan.passesScopes line depth = false := by
        simp [passesScopes, opens, opened]
      simp only [looks, Bool.false_eq_true, false_implies, iff_true]
      apply settleClasses_settled
      · rw [resolveMethod_scopes]
        exact nested.inner (by simp [opened])
      · rw [IsDescending, resolveMethod_scopes]
        exact nested.descending
  | @headClass cls outer free opened pending continues =>
      have passes : scan.passesScopes line depth = true := by
        simp [passesScopes, free, opened, continuesHeader, pending, continues]
      refine (resolveClass_settled_iff line rfl ?_).trans ?_
      · exact pending
      · simp [passes, IsSettled, opened, pending]
  | package standing unstated outside read =>
      have looks : scan.passesScopes line depth = false := by
        simp [passesScopes, opens, standing]
      simp [looks, IsSettled, outside]
  | openClass standing free read =>
      have passes : scan.passesScopes line depth = true := by simp [passesScopes, opens]
      simp only [passes, true_implies]
      rw [← nested.withoutPending_settled_iff]
      exact resolveClass_settled_iff line rfl rfl
  | openMethod standing free opened inside level readable =>
      have passes : scan.passesScopes line depth = true := by simp [passesScopes, opens]
      simp only [passes, true_implies]
      rw [← nested.withoutPending_settled_iff, isSettled_iff, isSettled_iff, resolveMethod_scopes,
        resolveMethod_depth]
  | body standing =>
      have looks : scan.passesScopes line depth = false := by
        simp [passesScopes, opens, standing]
      obtain ⟨before, scopes, -, settles⟩ := bodyLine_settles scan.withoutPending line
      simp only [looks, Bool.false_eq_true, false_implies, iff_true]
      rw [settles]
      apply settleClasses_settled
      · rw [scopes]
        exact nested.withoutPending_entered
      · rw [IsDescending, scopes]
        exact nested.withoutPending_descending

end Turn

section Feed

variable {scan : Scan} (raw : List Char) (number : Int)

def leavesScopes (scan : Scan) (raw : List Char) (number : Int) : Bool :=
  let line := scan.readLine raw number
  !line.isSkipped && (scan.pastBraces raw number).passesScopes line scan.depth

/-- If the scan does not look at scopes after a raw line, then the line ends no body of a class. -/
def KeepsBodies (scan : Scan) (raw : List Char) (number : Int) : Prop :=
  scan.leavesScopes raw number = true → ∀ cls ∈ scan.classes, cls.entered = true →
    cls.baseDepth < (scan.feed raw number).depth

theorem feed_nested (nested : scan.IsNested) (settled : scan.IsSettled) :
    (scan.feed raw number).IsNested := by
  rw [feed_eq]
  split
  · exact ⟨⟨nested.outer, nested.method⟩, nested.descending⟩
  · have counted : (scan.pastBraces raw number).IsNested :=
      ⟨⟨nested.outer, nested.method⟩, nested.descending⟩
    exact (afterHeader_turn _ _ _).nested counted ((isSettled_iff scan).mp settled)

theorem feed_settled_iff (nested : scan.IsNested) (settled : scan.IsSettled) :
    (scan.feed raw number).IsSettled ↔ scan.KeepsBodies raw number := by
  rw [KeepsBodies, feed_eq, leavesScopes]
  cases skipped : (scan.readLine raw number).isSkipped with
  | true =>
      have same : (scan.pastComments raw).IsSettled := settled
      simpa using same
  | false =>
      have counted : (scan.pastBraces raw number).IsNested :=
        ⟨⟨nested.outer, nested.method⟩, nested.descending⟩
      have depth : ((scan.pastBraces raw number).afterHeader (scan.readLine raw number)
          scan.depth).depth = (scan.pastBraces raw number).depth :=
        congrArg (fun frame => frame.2.2.1) (moves_frame (afterHeader_moves _ _ _))
      simp only [Bool.false_eq_true, if_false, Bool.not_false, Bool.true_and, depth]
      exact (afterHeader_turn _ _ _).settled_iff rfl counted

end Feed

theorem states_settled_of_nested {scan : Scan} (nested : scan.IsNested) (settled : scan.IsSettled)
    (first : Int) (lines : List (List Char)) :
    (∀ state ∈ scan.states first lines, state.IsSettled) ↔
      ∀ before raw after, lines = before ++ raw :: after →
        (scan.feedLines first before).KeepsBodies raw (first + before.length) := by
  induction lines generalizing scan first with
  | nil => simp [states]
  | cons raw lines ih =>
      have step := feed_settled_iff raw first nested settled
      have fed := feed_nested raw first nested settled
      rw [states, List.forall_mem_cons]
      constructor
      · rintro ⟨next, later⟩ before other after split
        cases before with
        | nil =>
            obtain ⟨rfl, rfl⟩ := List.cons.inj split
            simpa [feedLines] using step.mp next
        | cons head before =>
            obtain ⟨rfl, rfl⟩ := List.cons.inj split
            rw [List.length_cons, Int.natCast_succ, Int.add_comm _ 1, ← Int.add_assoc]
            exact (ih fed next (first + 1)).mp later before other after rfl
      · intro keeps
        have next : (scan.feed raw first).IsSettled := by
          have kept := keeps [] raw lines rfl
          rw [feedLines, List.length_nil, Int.natCast_zero, Int.add_zero] at kept
          exact step.mpr kept
        refine ⟨next, (ih fed next (first + 1)).mpr ?_⟩
        intro before other after split
        have kept := keeps (raw :: before) other after (by rw [split]; rfl)
        rw [List.length_cons, Int.natCast_succ, Int.add_comm _ 1, ← Int.add_assoc] at kept
        exact kept

/-- Every open class is in its body after each line if and only if no line ends the body of a class
after which the scan does not look at scopes. -/
theorem states_settled_iff (dialect : Dialect) (file : Option String) (first : Int)
    (lines : List (List Char)) :
    (∀ state ∈ (start dialect file).states first lines, state.IsSettled) ↔
      ∀ before raw after, lines = before ++ raw :: after →
        ((start dialect file).feedLines first before).KeepsBodies raw (first + before.length) := by
  apply states_settled_of_nested
  · exact ⟨.start dialect file, .nil⟩
  · exact fun _ member => nomatch member

/-- A class that opens and closes in a line hides that the line closes the class around it too. -/
theorem stale_class :
    ¬∀ (dialect : Dialect) (file : Option String) (first : Int) (lines : List (List Char)),
      ∀ state ∈ (start dialect file).states first lines, state.IsSettled := by
  intro all
  have settled := all .java none 1 [braced "class A ⟨", braced "class B ⟨⟩ ⟩"]
  revert settled
  simp only [IsSettled]
  decide +kernel

end Scan
end MethodFlow
