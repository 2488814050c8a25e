import MethodFlow.Proofs.Scan.Turns
import Mathlib.Logic.Relation

/-!
What a line does to a scan comes down to a few moves, so what every move keeps is kept by all lines
that are fed.
-/
namespace MethodFlow.Scan

/-- One change to a scan. `depth` is the brace depth before the line that makes it. -/
inductive Move (line : Line) (depth : Int) : Scan → Scan → Prop
  | package {scan : Scan} {name : String} (unstated : scan.package = none)
      (outside : scan.classes = []) (read : package? line.mask = some name) :
      Move line depth scan { scan with package := some name }
  | openClass {scan : Scan} {name : String} (free : scan.method = none)
      (read : Header.openedClass? scan.dialect line.mask = some name) :
      Move line depth scan { scan with classes := line.newClass name depth :: scan.classes }
  | headClass {scan : Scan} {cls : OpenClass} {outer : List OpenClass} (supertypes : Supertypes)
      (header : List (List Char)) (opened : scan.classes = cls :: outer) :
      Move line depth scan { scan with classes := { cls with supertypes, header } :: outer }
  | enterClass {scan : Scan} {cls : OpenClass} {outer : List OpenClass}
      (opened : scan.classes = cls :: outer) (deeper : cls.baseDepth < scan.depth) :
      Move line depth scan { scan with classes := { cls with entered := true } :: outer }
  | closeClass (scan : Scan) : Move line depth scan scan.closeClass
  | openMethod {scan : Scan} {cls : OpenClass} {outer : List OpenClass}
      {read : Header.MethodHeader} (opened : scan.classes = cls :: outer)
      (entered : cls.entered = true) (level : depth = cls.baseDepth + 1)
      (free : scan.method = none)
      (found : Header.method? scan.dialect cls.name line.mask = some read) :
      Move line depth scan
        { scan with method := some (line.newMethod scan.dialect cls.name read depth) }
  | headMethod {scan : Scan} {method : OpenMethod} (parameters : List Parameter)
      (returnType : Option String) (header : List (List Char))
      (opened : scan.method = some method) :
      Move line depth scan
        { scan with method := some { method with parameters, returnType, header } }
  | addStatements {scan : Scan} {method : OpenMethod} (part : Line)
      (opened : scan.method = some method) (number : part.number = line.number) :
      Move line depth scan
        { scan with
          method := some { method with statements := method.statements ++ scan.statements part } }
  | enterMethod {scan : Scan} {method : OpenMethod} (opened : scan.method = some method)
      (deeper : method.baseDepth < scan.depth) :
      Move line depth scan { scan with method := some { method with entered := true } }
  | closeMethod (scan : Scan) : Move line depth scan scan.closeMethod

abbrev Moves (line : Line) (depth : Int) : Scan → Scan → Prop :=
  Relation.ReflTransGen (Move line depth)

theorem settleClassesWithin_invariant {holds : Scan → Prop}
    (close : ∀ scan, holds scan → holds scan.closeClass) (fuel : Nat) {scan : Scan}
    (held : holds scan) : holds (settleClassesWithin fuel scan) := by
  induction fuel generalizing scan with
  | zero => exact held
  | succ fuel ih =>
      unfold settleClassesWithin
      split
      · exact ih (close scan held)
      · exact held

section Moves

variable (scan : Scan) (line : Line) (depth : Int)

theorem settleMethod_moves : Moves line depth scan scan.settleMethod := by
  rcases settleMethod_cases scan with kept | closed
  · rw [kept]
  · rw [closed]
    exact .single (.closeMethod scan)

theorem settleClasses_moves : Moves line depth scan scan.settleClasses :=
  settleClassesWithin_invariant (fun next moves => moves.tail (.closeClass next)) _ .refl

theorem modifyClass_moves (change : OpenClass → OpenClass)
    (heads : ∀ cls, ∃ supertypes header, change cls = { cls with supertypes, header }) :
    Moves line depth scan (scan.modifyClass change) := by
  unfold modifyClass
  split
  · exact .refl
  · rename_i cls outer opened
    obtain ⟨supertypes, header, changed⟩ := heads cls
    rw [changed]
    exact .single (.headClass supertypes header opened)

theorem resolveClass_moves : Moves line depth scan (scan.resolveClass line) := by
  have read := modifyClass_moves scan line depth
    (fun cls => { cls with supertypes :=
      (Header.supertypes? scan.dialect (joined cls.header)).getD cls.supertypes })
    fun cls => ⟨_, cls.header, rfl⟩
  refine read.trans ?_
  unfold resolveClass
  dsimp only
  generalize scan.modifyClass _ = next
  split
  · split
    · rename_i deeper
      obtain ⟨cls, first, below⟩ := (Option.any_eq_true _ _).mp deeper
      obtain ⟨outer, opened⟩ := List.head?_eq_some_iff.mp first
      rw [modifyClass, opened]
      exact .single (.enterClass opened (by simpa using below))
    · exact .single (.closeClass next)
  · exact .refl

theorem enterMethod_moves (method : OpenMethod) (tailStart : Nat) :
    Moves line depth { scan with method := some method }
      (scan.enterMethod method line tailStart) := by
  let part := line.drop (bodyColumn (joined method.header) line tailStart)
  let entering := { method with statements := method.statements ++ scan.statements part }
  have opened : { scan with method := some entering }.method = some entering := rfl
  refine .head (.addStatements part rfl rfl) ?_
  unfold enterMethod
  dsimp only
  split
  · rename_i deeper
    exact .single (.enterMethod opened deeper)
  · exact .single (.closeMethod _)

theorem resolveMethod_moves (method : OpenMethod) :
    Moves line depth { scan with method := some method } (scan.resolveMethod method line) := by
  unfold resolveMethod
  dsimp only
  split
  · exact .single (.closeMethod _)
  · rename_i read found
    refine .head (.headMethod (Header.parameters scan.dialect read.parameters) read.returnType
      method.header rfl) ?_
    split
    · exact .refl
    · split
      · exact .refl
      · exact .refl
      · exact .single (.closeMethod _)
      · exact enterMethod_moves _ _ _ _ _

theorem bodyLine_moves : Moves line depth scan (scan.bodyLine line) := by
  unfold bodyLine
  dsimp only
  split
  · rename_i within
    obtain ⟨method, opened⟩ := Option.isSome_iff_exists.mp within
    rw [modifyMethod, opened]
    refine .head (.addStatements line opened rfl) ?_
    exact (settleMethod_moves _ _ _).trans (settleClasses_moves _ _ _)
  · exact settleClasses_moves _ _ _

theorem withoutPending_moves : Moves line depth scan scan.withoutPending := by
  rcases withoutPending_cases scan with kept | closed | closed
  · rw [kept]
  · rw [closed]
    exact .single (.closeMethod scan)
  · rw [closed]
    exact .single (.closeClass scan)

theorem Turn.moves {scan next : Scan} {line : Line} {depth : Int} {opening : Option Opening}
    (turn : Turn line depth scan opening next) : Moves line depth scan next := by
  have standing := withoutPending_moves scan line depth
  cases turn with
  | @headMethod method opened pending continues =>
      refine .head (.headMethod method.parameters method.returnType
        (method.header ++ [line.mask]) opened) ?_
      exact (resolveMethod_moves _ _ _ _).trans (settleClasses_moves _ _ _)
  | @headClass cls outer free opened pending continues =>
      refine .head (.headClass cls.supertypes (cls.header ++ [line.mask]) opened) ?_
      exact resolveClass_moves _ _ _
  | package _ unstated outside read => exact standing.tail (.package unstated outside read)
  | openClass _ free read =>
      exact (standing.tail (.openClass free read)).trans (resolveClass_moves _ _ _)
  | openMethod _ free opened entered level readable =>
      refine (standing.tail (.openMethod opened entered level free readable)).trans ?_
      exact resolveMethod_moves _ _ _ _
  | body => exact standing.trans (bodyLine_moves _ _ _)

theorem afterHeader_moves : Moves line depth scan (scan.afterHeader line depth) :=
  (afterHeader_turn scan line depth).moves

end Moves

/-- A line that is fed changes at most whether a comment is open, or it counts its braces and then
makes moves. -/
theorem feed_cases (scan : Scan) (raw : List Char) (number : Int) :
    (∃ inComment, scan.feed raw number = { scan with inComment }) ∨
      ∃ (line : Line) (inComment : Bool), line.number = number ∧
        Moves line scan.depth
          { scan with inComment, depth := scan.depth + braceBalance line.mask }
          (scan.feed raw number) := by
  rw [feed_eq]
  split
  · exact .inl ⟨_, rfl⟩
  · exact .inr ⟨scan.readLine raw number, _, rfl, afterHeader_moves _ _ _⟩

section Invariant

variable {Holds : Scan → Prop}
  (move : ∀ line depth scan next, Move line depth scan next → Holds scan → Holds next)

include move

theorem moves_invariant {line : Line} {depth : Int} {scan next : Scan}
    (moves : Moves line depth scan next) (holds : Holds scan) : Holds next := by
  induction moves with
  | refl => exact holds
  | tail _ last ih => exact move _ _ _ _ last ih

variable (advance : ∀ scan inComment depth, Holds scan → Holds { scan with inComment, depth })

include advance

theorem feed_invariant {scan : Scan} (holds : Holds scan) (raw : List Char) (number : Int) :
    Holds (scan.feed raw number) := by
  rcases feed_cases scan raw number with ⟨inComment, fed⟩ | ⟨line, inComment, -, moves⟩
  · rw [fed]
    exact advance scan inComment scan.depth holds
  · exact moves_invariant move moves (advance scan inComment _ holds)

/-- What every move keeps, every run keeps. -/
theorem feedLines_invariant {scan : Scan} (holds : Holds scan) (first : Int)
    (lines : List (List Char)) : Holds (scan.feedLines first lines) := by
  induction lines generalizing scan first with
  | nil => exact holds
  | cons raw lines ih => exact ih (feed_invariant move advance holds raw first) (first + 1)

end Invariant
end MethodFlow.Scan
