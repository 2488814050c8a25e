import MethodFlow.Proofs.Scan.Turns
import Mathlib.Data.Option.Basic

/-!
A scan only passes line numbers on, and it does not look at the comments that it has left. So if
the lines of a source are numbered anew, what is recorded of them is numbered anew in the same way.
-/
namespace MethodFlow

section Declarations

variable (number : Int → Int)

mutual

def Statement.renumber : Statement → Statement
  | .call name line receiver => .call name (number line) receiver
  | .branch condition line whenTrue whenFalse =>
    .branch condition (number line) (renumberAll whenTrue) (renumberAll whenFalse)
  | .loop kind condition line body => .loop kind condition (number line) (renumberAll body)
  | .unsupported kind => .unsupported kind

def Statement.renumberAll : List Statement → List Statement
  | [] => []
  | statement :: statements => statement.renumber :: renumberAll statements

end

def Method.renumber (method : Method) : Method :=
  { method with
    line := number method.line
    statements := method.statements.map (Statement.renumber number) }

def ClassDecl.renumber (cls : ClassDecl) : ClassDecl :=
  { cls with line := number cls.line, methods := cls.methods.map (Method.renumber number) }

def OpenMethod.renumber (method : OpenMethod) : OpenMethod :=
  { method with
    line := number method.line
    statements := method.statements.map (Statement.renumber number) }

def OpenMethod.extend (method : OpenMethod) (statements : List Statement) : OpenMethod :=
  { method with statements := method.statements ++ statements }

def OpenClass.renumber (cls : OpenClass) : OpenClass :=
  { cls with
    line := number cls.line
    methods := cls.methods.map (Method.renumber number)
    nested := cls.nested.map (ClassDecl.renumber number) }

def Scan.Line.renumber (line : Scan.Line) : Scan.Line :=
  { line with number := number line.number }

theorem LineStatements.scan_renumber (dialect : Dialect) (mask code : List Char) (line : Int) :
    scan dialect mask code (number line) =
      (scan dialect mask code line).map (Statement.renumber number) := by
  simp [scan, calls, branches, loops, Statement.renumber, Statement.renumberAll, Function.comp_def]

end Declarations

section Identity

mutual

theorem Statement.renumber_id : ∀ statement : Statement, statement.renumber id = statement
  | .call _ _ _ => rfl
  | .branch _ _ whenTrue whenFalse => by
      simp [renumber, Statement.renumberAll_id whenTrue, Statement.renumberAll_id whenFalse]
  | .loop _ _ _ body => by simp [renumber, Statement.renumberAll_id body]
  | .unsupported _ => rfl

theorem Statement.renumberAll_id :
    ∀ statements : List Statement, Statement.renumberAll id statements = statements
  | [] => rfl
  | statement :: statements => by
      rw [renumberAll, Statement.renumber_id statement, Statement.renumberAll_id statements]

end

theorem Method.renumber_id (method : Method) : method.renumber id = method := by
  simp [renumber, List.map_id'' Statement.renumber_id]

theorem ClassDecl.renumber_id (cls : ClassDecl) : cls.renumber id = cls := by
  simp [renumber, List.map_id'' Method.renumber_id]

theorem OpenMethod.renumber_id (method : OpenMethod) : method.renumber id = method := by
  simp [renumber, List.map_id'' Statement.renumber_id]

theorem OpenClass.renumber_id (cls : OpenClass) : cls.renumber id = cls := by
  simp [renumber, List.map_id'' Method.renumber_id, List.map_id'' ClassDecl.renumber_id]

end Identity

namespace Scan

variable (number : Int → Int) (inComment : Bool)

def relabel (scan : Scan) : Scan :=
  { scan with
    inComment
    done := scan.done.map (ClassDecl.renumber number)
    classes := scan.classes.map (OpenClass.renumber number)
    method := scan.method.map (OpenMethod.renumber number) }

theorem relabel_id (scan : Scan) : scan.relabel id inComment = { scan with inComment } := by
  have method : OpenMethod.renumber id = id := funext OpenMethod.renumber_id
  simp [relabel, List.map_id'' ClassDecl.renumber_id, List.map_id'' OpenClass.renumber_id, method]

section Closing

variable (scan : Scan)

theorem closeMethod_relabel :
    (scan.relabel number inComment).closeMethod = scan.closeMethod.relabel number inComment := by
  cases opened : scan.method with
  | none => simp [closeMethod, relabel, opened]
  | some method =>
      cases classes : scan.classes with
      | nil => simp [closeMethod, relabel, opened, classes]
      | cons cls outer =>
          simp [closeMethod, relabel, opened, classes, OpenClass.renumber, OpenMethod.renumber,
            OpenMethod.toMethod, Method.renumber]

theorem declared_relabel (cls : OpenClass) :
    (scan.relabel number inComment).declared (cls.renumber number) =
      (scan.declared cls).map (ClassDecl.renumber number) :=
  rfl

theorem closeClass_relabel :
    (scan.relabel number inComment).closeClass = scan.closeClass.relabel number inComment := by
  unfold closeClass
  rw [closeMethod_relabel]
  generalize scan.closeMethod = next
  rcases opened : next.classes with _ | ⟨cls, _ | ⟨outer, rest⟩⟩
  · simp [relabel, opened]
  · have declared := declared_relabel number inComment next cls
    simp only [relabel, opened, List.map_cons, List.map_nil, List.map_append] at declared ⊢
    rw [declared]
  · have declared := declared_relabel number inComment next cls
    simp only [relabel, opened, List.map_cons, List.map_append, OpenClass.renumber] at declared ⊢
    rw [declared]

theorem settleMethod_relabel :
    (scan.relabel number inComment).settleMethod = scan.settleMethod.relabel number inComment := by
  have same : (scan.relabel number inComment).method.any (fun method =>
      method.entered && (scan.relabel number inComment).depth ≤ method.baseDepth) =
      scan.method.any fun method => method.entered && scan.depth ≤ method.baseDepth := by
    cases opened : scan.method <;> simp [relabel, opened, OpenMethod.renumber]
  unfold settleMethod
  rw [same, closeMethod_relabel]
  split <;> rfl

theorem settleClassesWithin_relabel (fuel : Nat) :
    settleClassesWithin fuel (scan.relabel number inComment) =
      (settleClassesWithin fuel scan).relabel number inComment := by
  induction fuel generalizing scan with
  | zero => rfl
  | succ fuel ih =>
      have same : (scan.relabel number inComment).classes.head?.any (fun cls =>
          cls.entered && (scan.relabel number inComment).depth ≤ cls.baseDepth) =
          scan.classes.head?.any fun cls => cls.entered && scan.depth ≤ cls.baseDepth := by
        cases opened : scan.classes <;> simp [relabel, opened, OpenClass.renumber]
      unfold settleClassesWithin
      rw [same, closeClass_relabel, ih]
      split <;> rfl

theorem settleClasses_relabel :
    (scan.relabel number inComment).settleClasses =
      scan.settleClasses.relabel number inComment := by
  have length : (scan.relabel number inComment).classes.length = scan.classes.length := by
    simp [relabel]
  rw [settleClasses, length, settleClassesWithin_relabel, settleClasses]

theorem finish_relabel :
    (scan.relabel number inComment).finish = scan.finish.map (ClassDecl.renumber number) := by
  have opened (scan : Scan) : (scan.relabel number inComment).opened =
      scan.opened.map (ClassDecl.renumber number) := by
    simp only [Scan.opened, relabel, List.map_append, ← List.map_reverse, List.flatMap_map,
      List.map_flatMap]
    rfl
  rw [finish, closeMethod_relabel, opened, finish, List.map_map, List.map_map]
  rfl

end Closing

def holding (scan : Scan) (method : OpenMethod) : Scan :=
  { scan with method := some method }

section Lines

variable (scan : Scan) (line : Line) (depth : Int)

theorem statements_relabel :
    (scan.relabel number inComment).statements (line.renumber number) =
      (scan.statements line).map (Statement.renumber number) :=
  LineStatements.scan_renumber number scan.dialect line.mask line.code line.number

theorem modifyClass_relabel (change : OpenClass → OpenClass)
    (commutes : ∀ cls, change (cls.renumber number) = (change cls).renumber number) :
    (scan.relabel number inComment).modifyClass change =
      (scan.modifyClass change).relabel number inComment := by
  cases opened : scan.classes with
  | nil => simp [modifyClass, relabel, opened]
  | cons cls outer => simp [modifyClass, relabel, opened, commutes]

/-- A brace in a line opens the body of the innermost class, or closes the class if its body ends in
the line as well. -/
def openBody : Scan :=
  if line.mask.contains '{' then
    if scan.classes.head?.any fun cls => cls.baseDepth < scan.depth then
      scan.modifyClass fun cls => { cls with entered := true }
    else scan.closeClass
  else scan

theorem openBody_relabel :
    (scan.relabel number inComment).openBody (line.renumber number) =
      (scan.openBody line).relabel number inComment := by
  have deeper : (scan.relabel number inComment).classes.head?.any (fun cls =>
      cls.baseDepth < (scan.relabel number inComment).depth) =
      scan.classes.head?.any fun cls => cls.baseDepth < scan.depth := by
    cases opened : scan.classes <;> simp [relabel, opened, OpenClass.renumber]
  unfold openBody
  rw [deeper, modifyClass_relabel, closeClass_relabel]
  · change (if line.mask.contains '{' then _ else _) = _
    split
    · split <;> rfl
    · rfl
  · intro cls
    rfl

theorem resolveClass_relabel :
    (scan.relabel number inComment).resolveClass (line.renumber number) =
      (scan.resolveClass line).relabel number inComment := by
  let reread (cls : OpenClass) : OpenClass :=
    { cls with
      supertypes := (Header.supertypes? scan.dialect (joined cls.header)).getD cls.supertypes }
  have read : (scan.relabel number inComment).modifyClass reread =
      (scan.modifyClass reread).relabel number inComment :=
    modifyClass_relabel number inComment scan reread fun _ => rfl
  change ((scan.relabel number inComment).modifyClass reread).openBody (line.renumber number) =
    ((scan.modifyClass reread).openBody line).relabel number inComment
  rw [read, openBody_relabel]

theorem extend_renumber (method : OpenMethod) :
    (method.renumber number).extend
        ((scan.relabel number inComment).statements (line.renumber number)) =
      (method.extend (scan.statements line)).renumber number := by
  rw [statements_relabel]
  simp [OpenMethod.extend, OpenMethod.renumber]

theorem enterMethod_eq (method : OpenMethod) (tailStart : Nat) :
    let grown := method.extend
      (scan.statements (line.drop (bodyColumn (joined method.header) line tailStart)))
    scan.enterMethod method line tailStart =
      if method.baseDepth < scan.depth then scan.holding { grown with entered := true }
      else (scan.holding grown).closeMethod :=
  rfl

theorem enterMethod_relabel (method : OpenMethod) (tailStart : Nat) :
    (scan.relabel number inComment).enterMethod (method.renumber number) (line.renumber number)
        tailStart =
      (scan.enterMethod method line tailStart).relabel number inComment := by
  let part := line.drop (bodyColumn (joined method.header) line tailStart)
  have grown := extend_renumber number inComment scan part method
  rw [enterMethod_eq, enterMethod_eq]
  change (if method.baseDepth < scan.depth then
      (scan.relabel number inComment).holding { (method.renumber number).extend
        ((scan.relabel number inComment).statements (part.renumber number)) with entered := true }
    else ((scan.relabel number inComment).holding ((method.renumber number).extend
      ((scan.relabel number inComment).statements (part.renumber number)))).closeMethod) = _
  rw [grown]
  split
  · rfl
  · exact closeMethod_relabel number inComment (scan.holding _)

/-- What the tail of a header says about the body of its method. -/
inductive Tail where
  | awaited
  | missing
  | present

def Tail.ofText : List Char → Tail
  | [] => .awaited
  | ['='] => .awaited
  | ';' :: _ => .missing
  | _ => .present

def reread (method : OpenMethod) (read : Header.MethodHeader) : OpenMethod :=
  { method with
    parameters := Header.parameters scan.dialect read.parameters
    returnType := read.returnType }

def atTail (method : OpenMethod) (line : Line) (tailStart : Nat) : Tail → Scan
  | .awaited => scan.holding method
  | .missing => (scan.holding method).closeMethod
  | .present => (scan.holding method).enterMethod method line tailStart

theorem resolveMethod_of_none (method : OpenMethod)
    (unread : Header.method? scan.dialect method.className (joined method.header) = none) :
    scan.resolveMethod method line = (scan.holding method).closeMethod := by
  simp only [resolveMethod, unread]
  rfl

theorem resolveMethod_of_some (method : OpenMethod) {read : Header.MethodHeader}
    (found : Header.method? scan.dialect method.className (joined method.header) = some read) :
    scan.resolveMethod method line =
      match read.tailStart with
      | none => scan.holding (scan.reread method read)
      | some tailStart => scan.atTail (scan.reread method read) line tailStart
          (.ofText ((joined method.header).drop tailStart)) := by
  simp only [resolveMethod, found]
  cases read.tailStart with
  | none => rfl
  | some tailStart =>
      dsimp only
      generalize (joined method.header).drop tailStart = tail
      split
      · rfl
      · rfl
      · rfl
      · rename_i nonempty equals semicolon
        rw [Tail.ofText.eq_4 tail nonempty equals semicolon]
        rfl

theorem atTail_relabel (method : OpenMethod) (tailStart : Nat) (tail : Tail) :
    (scan.relabel number inComment).atTail (method.renumber number) (line.renumber number)
        tailStart tail =
      (scan.atTail method line tailStart tail).relabel number inComment := by
  cases tail with
  | awaited => rfl
  | missing => exact closeMethod_relabel number inComment (scan.holding method)
  | present =>
      exact enterMethod_relabel number inComment (scan.holding method) line method tailStart

theorem resolveMethod_relabel (method : OpenMethod) :
    (scan.relabel number inComment).resolveMethod (method.renumber number)
        (line.renumber number) =
      (scan.resolveMethod method line).relabel number inComment := by
  cases found : Header.method? scan.dialect method.className (joined method.header) with
  | none =>
      rw [resolveMethod_of_none (scan.relabel number inComment) _ (method.renumber number) found,
        resolveMethod_of_none scan _ method found]
      exact closeMethod_relabel number inComment (scan.holding method)
  | some read =>
      rw [resolveMethod_of_some (scan.relabel number inComment) _ (method.renumber number) found,
        resolveMethod_of_some scan _ method found]
      cases read.tailStart with
      | none => rfl
      | some tailStart =>
          exact atTail_relabel number inComment scan line (scan.reread method read) tailStart _

theorem packageLine?_relabel :
    (scan.relabel number inComment).packageLine? (line.renumber number) =
      (scan.packageLine? line).map (relabel number inComment) := by
  have outside : (scan.relabel number inComment).classes.isEmpty = scan.classes.isEmpty := by
    simp [relabel]
  unfold packageLine?
  rw [outside]
  simp only [apply_ite (Option.map (relabel number inComment)), Option.map_map, Option.map_none]
  rfl

theorem classLine?_relabel :
    (scan.relabel number inComment).classLine? (line.renumber number) depth =
      (scan.classLine? line depth).map (relabel number inComment) := by
  have free : (scan.relabel number inComment).method.isNone = scan.method.isNone := by
    simp [relabel]
  have opens (name : String) :
      { scan.relabel number inComment with
        classes := (line.renumber number).newClass name depth ::
          (scan.relabel number inComment).classes } =
      { scan with classes := line.newClass name depth :: scan.classes }.relabel number
        inComment := rfl
  unfold classLine? openClass?
  simp only [free, opens, resolveClass_relabel, apply_ite (Option.map (relabel number inComment)),
    Option.map_map, Option.map_none]
  rfl

theorem methodLine?_relabel :
    (scan.relabel number inComment).methodLine? (line.renumber number) depth =
      (scan.methodLine? line depth).map (relabel number inComment) := by
  cases classes : scan.classes with
  | nil => simp [methodLine?, relabel, classes]
  | cons cls outer =>
      cases opened : scan.method with
      | some method => simp [methodLine?, relabel, classes, opened]
      | none =>
          have opens (read : Header.MethodHeader) := resolveMethod_relabel number inComment scan
            line (line.newMethod scan.dialect cls.name read depth)
          have left : (scan.relabel number inComment).methodLine? (line.renumber number) depth =
              if cls.entered && depth == cls.baseDepth + 1 then
                (Header.method? scan.dialect cls.name line.mask).map fun read =>
                  (scan.resolveMethod (line.newMethod scan.dialect cls.name read depth)
                    line).relabel number inComment
              else none := by
            simp only [← opens]
            simp only [methodLine?, relabel, classes, opened]
            rfl
          rw [left]
          simp only [methodLine?, classes, opened, openMethod?]
          split
          · rw [Option.map_map]
            rfl
          · rfl

theorem bodyLine_of_some {method : OpenMethod} (opened : scan.method = some method) :
    scan.bodyLine line =
      (scan.holding (method.extend (scan.statements line))).settleMethod.settleClasses := by
  simp only [bodyLine, opened, Option.isSome_some, if_true, modifyMethod, Option.map_some]
  rfl

theorem bodyLine_relabel :
    (scan.relabel number inComment).bodyLine (line.renumber number) =
      (scan.bodyLine line).relabel number inComment := by
  cases opened : scan.method with
  | none =>
      have free : (scan.relabel number inComment).method = none := by simp [relabel, opened]
      rw [bodyLine_of_free _ _ free, bodyLine_of_free _ _ opened, settleClasses_relabel]
  | some method =>
      have still : (scan.relabel number inComment).method = some (method.renumber number) := by
        simp [relabel, opened]
      rw [bodyLine_of_some _ _ still, bodyLine_of_some _ _ opened, extend_renumber,
        ← settleClasses_relabel, ← settleMethod_relabel]
      rfl

theorem ownLine_relabel :
    (scan.relabel number inComment).ownLine (line.renumber number) depth =
      (scan.ownLine line depth).relabel number inComment := by
  unfold ownLine
  rw [packageLine?_relabel, classLine?_relabel, methodLine?_relabel, bodyLine_relabel]
  cases scan.packageLine? line with
  | some next => rfl
  | none =>
      cases scan.classLine? line depth with
      | some next => rfl
      | none => cases scan.methodLine? line depth <;> rfl

theorem afterHeader_relabel :
    (scan.relabel number inComment).afterHeader (line.renumber number) depth =
      (scan.afterHeader line depth).relabel number inComment := by
  cases opened : scan.method with
  | some method =>
      have still : (scan.relabel number inComment).method = some (method.renumber number) := by
        simp [relabel, opened]
      have read := resolveMethod_relabel number inComment scan line
        { method with header := method.header ++ [line.mask] }
      simp only [afterHeader, opened, still]
      change (if method.entered then _
        else if Header.continues (joined method.header) line.mask then _ else _) = _
      split
      · exact ownLine_relabel number inComment scan line depth
      · split
        · exact (congrArg settleClasses read).trans (settleClasses_relabel number inComment _)
        · rw [closeMethod_relabel]
          exact ownLine_relabel number inComment _ line depth
  | none =>
      have free : (scan.relabel number inComment).method = none := by simp [relabel, opened]
      cases classes : scan.classes with
      | nil =>
          have outside : (scan.relabel number inComment).classes = [] := by simp [relabel, classes]
          simp only [afterHeader, opened, free, classes, outside]
          exact ownLine_relabel number inComment scan line depth
      | cons cls outer =>
          have inside : (scan.relabel number inComment).classes =
              cls.renumber number :: outer.map (OpenClass.renumber number) := by
            simp [relabel, classes]
          have read := modifyClass_relabel number inComment scan
            (fun cls => { cls with header := cls.header ++ [line.mask] }) fun _ => rfl
          simp only [afterHeader, opened, free, classes, inside]
          change (if cls.entered then _
            else if Header.continues (joined cls.header) line.mask then _ else _) = _
          split
          · exact ownLine_relabel number inComment scan line depth
          · split
            · refine Eq.trans ?_ (resolveClass_relabel number inComment _ line)
              exact congrArg (resolveClass · (line.renumber number)) read
            · rw [closeClass_relabel]
              exact ownLine_relabel number inComment _ line depth

end Lines

/-- A scan whose lines are numbered anew is fed a line with a new number. All that counts of the
line is its code and its mask, both trimmed. -/
theorem feed_relabel (scan : Scan) (raw other : List Char) (first : Int)
    (code : (MaskedLine.ofLine inComment other).trimmed.code =
      (MaskedLine.ofLine scan.inComment raw).trimmed.code)
    (mask : (MaskedLine.ofLine inComment other).trimmed.mask =
      (MaskedLine.ofLine scan.inComment raw).trimmed.mask) :
    (scan.relabel number inComment).feed other (number first) =
      (scan.feed raw first).relabel number (MaskedLine.ofLine inComment other).inComment := by
  have line : (scan.relabel number inComment).readLine other (number first) =
      (scan.readLine raw first).renumber number := by
    simp only [readLine, Line.renumber, Line.mk.injEq]
    exact ⟨mask, code, trivial⟩
  have comments : (scan.relabel number inComment).pastComments other =
      (scan.pastComments raw).relabel number (MaskedLine.ofLine inComment other).inComment := rfl
  have braces : (scan.relabel number inComment).pastBraces other (number first) =
      (scan.pastBraces raw first).relabel number
        (MaskedLine.ofLine inComment other).inComment := by
    rw [pastBraces, line, comments]
    rfl
  rw [feed_eq, feed_eq, line, comments, braces]
  change (if (scan.readLine raw first).isSkipped then _ else _) = _
  split
  · rfl
  · exact afterHeader_relabel number _ _ _ _

end Scan
end MethodFlow
