import MethodFlow.Proofs.Scan.Renumbering
import MethodFlow.Proofs.Text.Pieces
import MethodFlow.Proofs.Text.Words

/-!
A header is only ever read as one text. So a scan whose pending headers are joined to one line each
goes on like the scan that has them in lines (`feedLines_joinHeaders`), and finds the same classes.
-/
namespace MethodFlow

open Text

def Scan.oneLine : List (List Char) → List (List Char)
  | [] => []
  | header => [joined header]

def OpenMethod.joinHeader (method : OpenMethod) : OpenMethod :=
  { method with header := Scan.oneLine method.header }

def OpenClass.joinHeader (cls : OpenClass) : OpenClass :=
  { cls with header := Scan.oneLine cls.header }

namespace Scan

section Headers

@[simp] theorem joined_oneLine (header : List (List Char)) :
    joined (oneLine header) = joined header := by
  cases header with
  | nil => rfl
  | cons line header => exact unwords_singleton _

@[simp] theorem oneLine_singleton (line : List Char) : oneLine [line] = [line] :=
  congrArg (fun text => [text]) (unwords_singleton line)

theorem oneLine_oneLine (header : List (List Char)) : oneLine (oneLine header) = oneLine header := by
  cases header with
  | nil => rfl
  | cons line header => exact oneLine_singleton _

theorem oneLine_append (header : List (List Char)) (line : List Char) :
    oneLine (oneLine header ++ [line]) = oneLine (header ++ [line]) := by
  cases header with
  | nil => rfl
  | cons first header =>
      have more : ([line] : List (List Char)) ≠ [] := List.cons_ne_nil _ _
      have whole : joined (first :: header ++ [line]) = joined (first :: header) ++ ' ' :: line := by
        rw [joined, unwords_append (List.cons_ne_nil _ _) more, unwords_singleton, joined]
      change [joined [joined (first :: header), line]] = [joined (first :: header ++ [line])]
      rw [whole, joined, unwords_cons more, unwords_singleton]

theorem joinHeader_joinHeader (cls : OpenClass) : cls.joinHeader.joinHeader = cls.joinHeader := by
  simp [OpenClass.joinHeader, oneLine_oneLine]

end Headers

/-- The scan with the header of each open declaration on one line. -/
def joinHeaders (scan : Scan) : Scan :=
  { scan with
    classes := scan.classes.map OpenClass.joinHeader
    method := scan.method.map OpenMethod.joinHeader }

section Closing

variable (scan : Scan)

theorem closeMethod_joinHeaders : scan.joinHeaders.closeMethod = scan.closeMethod.joinHeaders := by
  cases opened : scan.method with
  | none => simp [closeMethod, joinHeaders, opened]
  | some method =>
      cases classes : scan.classes with
      | nil => simp [closeMethod, joinHeaders, opened, classes]
      | cons cls outer =>
          simp [closeMethod, joinHeaders, opened, classes, OpenClass.joinHeader,
            OpenMethod.joinHeader, OpenMethod.toMethod]

theorem closeClass_joinHeaders : scan.joinHeaders.closeClass = scan.closeClass.joinHeaders := by
  unfold closeClass
  rw [closeMethod_joinHeaders]
  generalize scan.closeMethod = next
  rcases opened : next.classes with _ | ⟨cls, _ | ⟨outer, rest⟩⟩
  · simp [joinHeaders, opened]
  · simp only [joinHeaders, opened, List.map_cons, List.map_nil]
    rfl
  · simp only [joinHeaders, opened, List.map_cons]
    rfl

theorem settleMethod_joinHeaders :
    scan.joinHeaders.settleMethod = scan.settleMethod.joinHeaders := by
  have same : scan.joinHeaders.method.any (fun method =>
      method.entered && scan.joinHeaders.depth ≤ method.baseDepth) =
      scan.method.any fun method => method.entered && scan.depth ≤ method.baseDepth := by
    cases opened : scan.method <;> simp [joinHeaders, opened, OpenMethod.joinHeader]
  unfold settleMethod
  rw [same, closeMethod_joinHeaders]
  split <;> rfl

theorem settleClassesWithin_joinHeaders (fuel : Nat) :
    settleClassesWithin fuel scan.joinHeaders = (settleClassesWithin fuel scan).joinHeaders := by
  induction fuel generalizing scan with
  | zero => rfl
  | succ fuel ih =>
      have same : scan.joinHeaders.classes.head?.any (fun cls =>
          cls.entered && scan.joinHeaders.depth ≤ cls.baseDepth) =
          scan.classes.head?.any fun cls => cls.entered && scan.depth ≤ cls.baseDepth := by
        cases opened : scan.classes <;> simp [joinHeaders, opened, OpenClass.joinHeader]
      unfold settleClassesWithin
      rw [same, closeClass_joinHeaders, ih]
      split <;> rfl

theorem settleClasses_joinHeaders :
    scan.joinHeaders.settleClasses = scan.settleClasses.joinHeaders := by
  have length : scan.joinHeaders.classes.length = scan.classes.length := by simp [joinHeaders]
  rw [settleClasses, length, settleClassesWithin_joinHeaders, settleClasses]

theorem finish_joinHeaders : scan.joinHeaders.finish = scan.finish := by
  have opened (scan : Scan) : scan.joinHeaders.opened = scan.opened := by
    simp only [Scan.opened, joinHeaders, ← List.map_reverse, List.flatMap_map]
    rfl
  rw [finish, closeMethod_joinHeaders, opened, finish]
  rfl

end Closing

section Lines

variable (scan : Scan) (line : Line) (depth : Int)

theorem joinHeaders_modifyClass {change joined : OpenClass → OpenClass}
    (commutes : ∀ cls, (change cls).joinHeader = joined cls.joinHeader) :
    (scan.modifyClass change).joinHeaders = scan.joinHeaders.modifyClass joined := by
  cases opened : scan.classes with
  | nil => simp [modifyClass, joinHeaders, opened]
  | cons cls outer => simp [modifyClass, joinHeaders, opened, commutes]

theorem openBody_joinHeaders : scan.joinHeaders.openBody line = (scan.openBody line).joinHeaders := by
  have deeper : scan.joinHeaders.classes.head?.any (fun cls =>
      cls.baseDepth < scan.joinHeaders.depth) =
      scan.classes.head?.any fun cls => cls.baseDepth < scan.depth := by
    cases opened : scan.classes <;> simp [joinHeaders, opened, OpenClass.joinHeader]
  unfold openBody
  rw [deeper, closeClass_joinHeaders, ← joinHeaders_modifyClass]
  · split
    · split <;> rfl
    · rfl
  · intro cls
    rfl

theorem resolveClass_joinHeaders :
    scan.joinHeaders.resolveClass line = (scan.resolveClass line).joinHeaders := by
  let reread (cls : OpenClass) : OpenClass :=
    { cls with
      supertypes := (Header.supertypes? scan.dialect (joined cls.header)).getD cls.supertypes }
  have read : (scan.modifyClass reread).joinHeaders = scan.joinHeaders.modifyClass reread := by
    apply joinHeaders_modifyClass
    intro cls
    simp [reread, OpenClass.joinHeader]
  change (scan.joinHeaders.modifyClass reread).openBody line =
    ((scan.modifyClass reread).openBody line).joinHeaders
  rw [← read, openBody_joinHeaders]

theorem enterMethod_joinHeaders (method : OpenMethod) (tailStart : Nat) :
    scan.joinHeaders.enterMethod method.joinHeader line tailStart =
      (scan.enterMethod method line tailStart).joinHeaders := by
  have header : joined method.joinHeader.header = joined method.header :=
    joined_oneLine method.header
  rw [enterMethod_eq, enterMethod_eq, header]
  change (if method.baseDepth < scan.depth then _ else _) = _
  split
  · rfl
  · exact closeMethod_joinHeaders (scan.holding (method.extend (scan.statements
      (line.drop (bodyColumn (joined method.header) line tailStart)))))

theorem atTail_joinHeaders (method : OpenMethod) (tailStart : Nat) (tail : Tail) :
    scan.joinHeaders.atTail method.joinHeader line tailStart tail =
      (scan.atTail method line tailStart tail).joinHeaders := by
  cases tail with
  | awaited => rfl
  | missing => exact closeMethod_joinHeaders (scan.holding method)
  | present => exact enterMethod_joinHeaders (scan.holding method) line method tailStart

theorem resolveMethod_joinHeaders (method : OpenMethod) :
    scan.joinHeaders.resolveMethod method.joinHeader line =
      (scan.resolveMethod method line).joinHeaders := by
  have header : joined method.joinHeader.header = joined method.header :=
    joined_oneLine method.header
  cases found : Header.method? scan.dialect method.className (joined method.header) with
  | none =>
      rw [resolveMethod_of_none scan line method found, resolveMethod_of_none scan.joinHeaders line]
      · exact closeMethod_joinHeaders (scan.holding method)
      · rw [header]
        exact found
  | some read =>
      have still : Header.method? scan.joinHeaders.dialect method.joinHeader.className
          (joined method.joinHeader.header) = some read := by
        rw [header]
        exact found
      rw [resolveMethod_of_some scan line method found,
        resolveMethod_of_some scan.joinHeaders line method.joinHeader still, header]
      cases read.tailStart with
      | none => rfl
      | some tailStart => exact atTail_joinHeaders scan line (scan.reread method read) tailStart _

theorem packageLine?_joinHeaders :
    scan.joinHeaders.packageLine? line = (scan.packageLine? line).map joinHeaders := by
  have outside : scan.joinHeaders.classes.isEmpty = scan.classes.isEmpty := by simp [joinHeaders]
  unfold packageLine?
  rw [outside, apply_ite (Option.map joinHeaders), Option.map_map]
  rfl

theorem classLine?_joinHeaders :
    scan.joinHeaders.classLine? line depth = (scan.classLine? line depth).map joinHeaders := by
  have free : scan.joinHeaders.method.isNone = scan.method.isNone := by simp [joinHeaders]
  have opens (name : String) :
      { scan.joinHeaders with
        classes := line.newClass name depth :: scan.joinHeaders.classes } =
      { scan with classes := line.newClass name depth :: scan.classes }.joinHeaders := by
    simp [joinHeaders, OpenClass.joinHeader, Line.newClass]
  unfold classLine? openClass?
  simp only [free, opens, resolveClass_joinHeaders, apply_ite (Option.map joinHeaders),
    Option.map_map, Option.map_none]
  rfl

theorem methodLine?_joinHeaders :
    scan.joinHeaders.methodLine? line depth = (scan.methodLine? line depth).map joinHeaders := by
  cases classes : scan.classes with
  | nil => simp [methodLine?, joinHeaders, classes]
  | cons cls outer =>
      cases opened : scan.method with
      | some method => simp [methodLine?, joinHeaders, classes, opened]
      | none =>
          have opens (read : Header.MethodHeader) :
              scan.joinHeaders.resolveMethod (line.newMethod scan.dialect cls.name read depth) line =
                (scan.resolveMethod (line.newMethod scan.dialect cls.name read depth)
                  line).joinHeaders := by
            rw [← resolveMethod_joinHeaders]
            simp [OpenMethod.joinHeader, Line.newMethod]
          have left : scan.joinHeaders.methodLine? line depth =
              if cls.entered && depth == cls.baseDepth + 1 then
                (Header.method? scan.dialect cls.name line.mask).map fun read =>
                  (scan.resolveMethod (line.newMethod scan.dialect cls.name read depth)
                    line).joinHeaders
              else none := by
            simp only [← opens]
            simp only [methodLine?, joinHeaders, classes, opened]
            rfl
          rw [left]
          simp only [methodLine?, classes, opened, openMethod?]
          split
          · rw [Option.map_map]
            rfl
          · rfl

theorem bodyLine_joinHeaders :
    scan.joinHeaders.bodyLine line = (scan.bodyLine line).joinHeaders := by
  cases opened : scan.method with
  | none =>
      have free : scan.joinHeaders.method = none := by simp [joinHeaders, opened]
      rw [bodyLine_of_free _ _ free, bodyLine_of_free _ _ opened, settleClasses_joinHeaders]
  | some method =>
      have still : scan.joinHeaders.method = some method.joinHeader := by
        simp [joinHeaders, opened]
      rw [bodyLine_of_some _ _ still, bodyLine_of_some _ _ opened, ← settleClasses_joinHeaders,
        ← settleMethod_joinHeaders]
      rfl

theorem ownLine_joinHeaders :
    scan.joinHeaders.ownLine line depth = (scan.ownLine line depth).joinHeaders := by
  unfold ownLine
  rw [packageLine?_joinHeaders, classLine?_joinHeaders, methodLine?_joinHeaders,
    bodyLine_joinHeaders]
  cases scan.packageLine? line with
  | some next => rfl
  | none =>
      cases scan.classLine? line depth with
      | some next => rfl
      | none => cases scan.methodLine? line depth <;> rfl

theorem withoutPending_joinHeaders :
    scan.joinHeaders.withoutPending = scan.withoutPending.joinHeaders := by
  cases opened : scan.method with
  | some method =>
      have still : scan.joinHeaders.method = some method.joinHeader := by
        simp [joinHeaders, opened]
      simp only [withoutPending, opened, still, closeMethod_joinHeaders]
      change (if method.entered then _ else _) = _
      split <;> rfl
  | none =>
      have free : scan.joinHeaders.method = none := by simp [joinHeaders, opened]
      cases classes : scan.classes with
      | nil =>
          have outside : scan.joinHeaders.classes = [] := by simp [joinHeaders, classes]
          simp only [withoutPending, opened, free, classes, outside]
      | cons cls outer =>
          have inside : scan.joinHeaders.classes =
              cls.joinHeader :: outer.map OpenClass.joinHeader := by
            simp [joinHeaders, classes]
          simp only [withoutPending, opened, free, classes, inside, closeClass_joinHeaders]
          change (if cls.entered then _ else _) = _
          split <;> rfl

theorem continuesHeader_joinHeaders :
    scan.joinHeaders.continuesHeader line = scan.continuesHeader line := by
  cases opened : scan.method with
  | some method =>
      simp [continuesHeader, joinHeaders, opened, OpenMethod.joinHeader]
  | none =>
      cases classes : scan.classes with
      | nil => simp [continuesHeader, joinHeaders, opened, classes]
      | cons cls outer => simp [continuesHeader, joinHeaders, opened, classes, OpenClass.joinHeader]

theorem joinHeaders_idem : scan.joinHeaders.joinHeaders = scan.joinHeaders := by
  have methods (method : OpenMethod) : method.joinHeader.joinHeader = method.joinHeader := by
    simp [OpenMethod.joinHeader, oneLine_oneLine]
  simp [joinHeaders, joinHeader_joinHeader, methods, Function.comp_def]

end Lines

section Headers

variable {scan : Scan} {line : Line} {method : OpenMethod} {cls : OpenClass}
  {outer : List OpenClass}

theorem afterHeader_of_method (opened : scan.method = some method) (pending : method.entered = false)
    (more : Header.continues (joined method.header) line.mask = true) (depth : Int) :
    scan.afterHeader line depth =
      (scan.resolveMethod { method with header := method.header ++ [line.mask] }
        line).settleClasses := by
  simp [afterHeader, opened, pending, more]

theorem afterHeader_of_class (free : scan.method = none) (opened : scan.classes = cls :: outer)
    (pending : cls.entered = false)
    (more : Header.continues (joined cls.header) line.mask = true) (depth : Int) :
    scan.afterHeader line depth =
      { scan with classes := { cls with header := cls.header ++ [line.mask] } :: outer
        }.resolveClass line := by
  simp [afterHeader, free, opened, pending, more, modifyClass]

end Headers

/-- A line is added to a joined header as to the header in lines, and then the two are joined. -/
theorem afterHeader_joinHeaders (scan : Scan) (line : Line) (depth : Int) :
    (scan.joinHeaders.afterHeader line depth).joinHeaders =
      (scan.afterHeader line depth).joinHeaders := by
  cases continuing : scan.continuesHeader line with
  | false =>
      have standing : scan.joinHeaders.continuesHeader line = false := by
        rw [continuesHeader_joinHeaders, continuing]
      rw [afterHeader_of_standing _ line depth standing,
        afterHeader_of_standing _ line depth continuing, withoutPending_joinHeaders,
        ownLine_joinHeaders, joinHeaders_idem]
  | true =>
      cases opened : scan.method with
      | some method =>
          simp only [continuesHeader, opened, Bool.and_eq_true, Bool.not_eq_true'] at continuing
          have still : scan.joinHeaders.method = some method.joinHeader := by
            simp [joinHeaders, opened]
          have more : Header.continues (joined method.joinHeader.header) line.mask = true := by
            simpa [OpenMethod.joinHeader] using continuing.2
          have grown : { method.joinHeader with
              header := method.joinHeader.header ++ [line.mask] }.joinHeader =
              { method with header := method.header ++ [line.mask] }.joinHeader := by
            simp [OpenMethod.joinHeader, oneLine_append]
          rw [afterHeader_of_method opened continuing.1 continuing.2,
            afterHeader_of_method still continuing.1 more, ← settleClasses_joinHeaders,
            ← settleClasses_joinHeaders, ← resolveMethod_joinHeaders, ← resolveMethod_joinHeaders,
            joinHeaders_idem, grown]
      | none =>
          cases classes : scan.classes with
          | nil => simp [continuesHeader, opened, classes] at continuing
          | cons cls outer =>
              simp only [continuesHeader, opened, classes, Bool.and_eq_true,
                Bool.not_eq_true'] at continuing
              have free : scan.joinHeaders.method = none := by simp [joinHeaders, opened]
              have inside : scan.joinHeaders.classes =
                  cls.joinHeader :: outer.map OpenClass.joinHeader := by
                simp [joinHeaders, classes]
              have more : Header.continues (joined cls.joinHeader.header) line.mask = true := by
                simpa [OpenClass.joinHeader] using continuing.2
              have grown : { cls.joinHeader with
                  header := cls.joinHeader.header ++ [line.mask] }.joinHeader =
                  { cls with header := cls.header ++ [line.mask] }.joinHeader := by
                simp [OpenClass.joinHeader, oneLine_append]
              rw [afterHeader_of_class opened classes continuing.1 continuing.2,
                afterHeader_of_class free inside continuing.1 more, ← resolveClass_joinHeaders,
                ← resolveClass_joinHeaders]
              simp [joinHeaders, opened, grown, joinHeader_joinHeader, Function.comp_def]

theorem feed_joinHeaders (scan : Scan) (raw : List Char) (number : Int) :
    (scan.joinHeaders.feed raw number).joinHeaders = (scan.feed raw number).joinHeaders := by
  rw [feed_eq, feed_eq]
  change (if (scan.readLine raw number).isSkipped then (scan.pastComments raw).joinHeaders
    else (scan.pastBraces raw number).joinHeaders.afterHeader (scan.readLine raw number)
      scan.depth).joinHeaders = _
  split
  · exact joinHeaders_idem (scan.pastComments raw)
  · exact afterHeader_joinHeaders _ _ _

theorem feedLines_joinHeaders (scan : Scan) (first : Int) (lines : List (List Char)) :
    (scan.joinHeaders.feedLines first lines).joinHeaders =
      (scan.feedLines first lines).joinHeaders := by
  induction lines generalizing scan first with
  | nil => exact joinHeaders_idem scan
  | cons raw lines ih =>
      rw [feedLines, feedLines, ← ih, feed_joinHeaders, ih]

/-- Scans that differ only in how their headers are broken into lines find the same classes. -/
theorem finish_feedLines_congr {scan other : Scan} (same : scan.joinHeaders = other.joinHeaders)
    (first : Int) (lines : List (List Char)) :
    (scan.feedLines first lines).finish = (other.feedLines first lines).finish := by
  rw [← finish_joinHeaders, ← feedLines_joinHeaders, same, feedLines_joinHeaders,
    finish_joinHeaders]

end Scan
end MethodFlow
