import MethodFlow.Proofs.Scan.Arrangement
import MethodFlow.Proofs.Scan.Depth
import MethodFlow.Proofs.Scan.Flat

/-!
Where declarations and statements that a scan finds lie in the source. A line opens one declaration
at most, and it adds statements to one method at most, and once; so what is found comes in the order
of the lines, and nothing that is opened is lost or found twice.
-/
namespace MethodFlow

def ClassDecl.heading (cls : ClassDecl) : String × Int :=
  (cls.name, cls.line)

namespace Scan

def Opening.classHeading? : Opening → Option (String × Int)
  | .ofClass cls => some (cls.name, cls.line)
  | .ofMethod _ => none

def Opening.methodHeading? : Opening → Option Heading
  | .ofClass _ => none
  | .ofMethod method => some method.toMethod.heading

def declaredMethods (scan : Scan) : List Method :=
  scan.methods ++ (scan.method.map OpenMethod.toMethod).toList

theorem opened_cons {scan : Scan} {cls : OpenClass} {outer : List OpenClass}
    (opened : scan.classes = cls :: outer) :
    scan.opened =
      { scan with classes := outer }.opened ++ scan.declOf cls :: cls.nested := by
  have same : { scan with classes := outer }.declared = scan.declared := rfl
  simp [Scan.opened, opened, same, declared]

theorem opened_changed (scan : Scan) {cls changed : OpenClass} (outer : List OpenClass)
    (method : Option OpenMethod) (nested : changed.nested = cls.nested) :
    ({ scan with classes := changed :: outer, method } : Scan).opened =
      { scan with classes := outer }.opened ++ scan.declOf changed :: cls.nested := by
  rw [opened_cons rfl, nested]
  rfl

theorem methods_changed {scan : Scan} {cls changed : OpenClass} {outer : List OpenClass}
    {added : List Method} (method : Option OpenMethod) (opened : scan.classes = cls :: outer)
    (nested : changed.nested = cls.nested) (methods : changed.methods = cls.methods ++ added) :
    ({ scan with classes := changed :: outer, method } : Scan).methods.Perm
      (scan.methods ++ added) := by
  have grown : (scan.declOf changed).methods = (scan.declOf cls).methods ++ added := methods
  rw [Scan.methods, Scan.methods, opened_changed scan outer method nested, opened_cons opened]
  exact methodsOf_replace grown

theorem closeMethod_of_free {scan : Scan} (free : scan.method = none) : scan.closeMethod = scan := by
  cases scan
  cases free
  rfl

/-- What holds of the open method: it stands in the innermost class and behind all other methods. -/
structure IsCurrent (source : List Line) (fresh unread : Int) (scan : Scan) (method : Method) :
    Prop where
  housed : ∃ cls outer, scan.classes = cls :: outer ∧ method.className = cls.name ∧
    cls.line < method.line
  recorded : method.IsRecorded scan.dialect source fresh unread
  last : ∀ other ∈ scan.methods, other.EndsBefore method.line

theorem IsCurrent.inClass {source : List Line} {fresh unread : Int} {scan : Scan} {method : Method}
    {cls : OpenClass} {outer : List OpenClass}
    (current : scan.IsCurrent source fresh unread method) (opened : scan.classes = cls :: outer) :
    method.className = cls.name ∧ cls.line < method.line := by
  obtain ⟨innermost, others, found, inside⟩ := current.housed
  rw [opened, List.cons.injEq] at found
  rw [found.1]
  exact inside

/-- What holds of a scan of which no declaration stands at or after the line `fresh` and no statement
at or after the line `unread`, where `log` are the declarations that were opened. -/
structure InOrder (source : List Line) (fresh unread : Int) (log : List Opening) (scan : Scan) :
    Prop where
  arranged : Arranged scan.dialect source fresh unread scan.opened
  current : ∀ method, scan.method = some method →
    scan.IsCurrent source fresh unread method.toMethod
  classesLogged : scan.opened.map ClassDecl.heading = log.filterMap Opening.classHeading?
  methodsLogged : (scan.declaredMethods.map Method.heading).Perm
    (log.filterMap Opening.methodHeading?)

namespace InOrder

variable {source : List Line} {fresh unread fresh' unread' : Int} {log : List Opening}
  {scan : Scan}

theorem start (source : List Line) (fresh unread : Int) (dialect : Dialect)
    (file : Option String) : InOrder source fresh unread [] (Scan.start dialect file) where
  arranged := ⟨.nil, nofun, nofun, nofun, .nil⟩
  current := nofun
  classesLogged := rfl
  methodsLogged := .nil

theorem mono (ordered : InOrder source fresh unread log scan) (later : fresh ≤ fresh')
    (laterUnread : unread ≤ unread') : InOrder source fresh' unread' log scan where
  arranged := ordered.arranged.mono later laterUnread
  current := by
    intro method found
    have current := ordered.current method found
    exact ⟨current.housed, current.recorded.mono later laterUnread, current.last⟩
  classesLogged := ordered.classesLogged
  methodsLogged := ordered.methodsLogged

theorem changeClass {cls changed : OpenClass} {outer : List OpenClass} {added : Option Method}
    {method : Option OpenMethod} (ordered : InOrder source fresh unread log scan)
    (opened : scan.classes = cls :: outer) (name : changed.name = cls.name)
    (line : changed.line = cls.line) (nested : changed.nested = cls.nested)
    (methods : changed.methods = cls.methods ++ added.toList)
    (moved : added.toList ++ (method.map OpenMethod.toMethod).toList =
      (scan.method.map OpenMethod.toMethod).toList) :
    InOrder source fresh unread log { scan with classes := changed :: outer, method } := by
  have old := opened_cons opened
  have new := opened_changed scan outer method nested
  have perm := methods_changed method opened nested methods
  have wasOpen (closed : Method)
      (member : closed ∈ added.toList ++ (method.map OpenMethod.toMethod).toList) :
      scan.IsCurrent source fresh unread closed := by
    rw [moved, Option.mem_toList] at member
    obtain ⟨current, found, rfl⟩ := Option.map_eq_some_iff.mp member
    exact ordered.current current found
  refine ⟨?_, ?_, ?_, ?_⟩
  · have arranged := ordered.arranged
    rw [old] at arranged
    rw [new]
    refine arranged.replace name line methods ?_ ?_ ?_
    · intro closed member
      exact (wasOpen closed (by simp [Option.mem_def.mp member])).inClass opened
    · intro closed member
      exact (wasOpen closed (by simp [Option.mem_def.mp member])).recorded
    · intro closed member
      have last := (wasOpen closed (by simp [Option.mem_def.mp member])).last
      rwa [Scan.methods, old] at last
  · intro other isOpen
    obtain rfl : method = some other := isOpen
    have current := wasOpen other.toMethod (by simp)
    -- Only one method is open at a time, so the class got none.
    obtain rfl : added = none := by
      have length := congrArg List.length moved
      cases added with
      | none => rfl
      | some closed =>
          cases found : scan.method <;> simp [found] at length
    refine ⟨⟨changed, outer, rfl, ?_⟩, current.recorded, fun earlier member => ?_⟩
    · rw [name, line]
      exact current.inClass opened
    · exact current.last earlier (by simpa using perm.mem_iff.mp member)
  · rw [new, ← ordered.classesLogged, old]
    simp [ClassDecl.heading, declOf, name, line]
  · refine List.Perm.trans ?_ ordered.methodsLogged
    apply List.Perm.map
    rw [declaredMethods, declaredMethods, ← moved, ← List.append_assoc]
    exact perm.append_right _

theorem closeMethod (ordered : InOrder source fresh unread log scan) :
    InOrder source fresh unread log scan.closeMethod := by
  cases found : scan.method with
  | none => rwa [closeMethod_of_free found]
  | some method =>
      obtain ⟨cls, outer, opened, -, -⟩ := (ordered.current method found).housed
      have closed : scan.closeMethod = { scan with
          classes := { cls with methods := cls.methods ++ [method.toMethod] } :: outer
          method := none } := by
        simp only [Scan.closeMethod, found, opened]
      rw [closed]
      have methods : cls.methods ++ [method.toMethod] =
          cls.methods ++ (some method.toMethod).toList := rfl
      exact ordered.changeClass opened rfl rfl rfl methods (by simp [found])

theorem closeClass (ordered : InOrder source fresh unread log scan) :
    InOrder source fresh unread log scan.closeClass := by
  have closed := ordered.closeMethod
  have dialect : scan.closeClass.dialect = scan.closeMethod.dialect :=
    congrArg Prod.fst ((closeClass_frame scan).trans (closeMethod_frame scan).symm)
  have methods : scan.closeClass.declaredMethods = scan.closeMethod.declaredMethods := by
    simp [declaredMethods, Scan.methods, closeClass_opened]
  refine ⟨?_, by simp, ?_, ?_⟩
  · rw [closeClass_opened, dialect]
    exact closed.arranged
  · rw [closeClass_opened]
    exact closed.classesLogged
  · rw [methods]
    exact closed.methodsLogged

theorem settleClassesWithin (ordered : InOrder source fresh unread log scan) (fuel : Nat) :
    InOrder source fresh unread log (Scan.settleClassesWithin fuel scan) := by
  refine settleClassesWithin_invariant (fun next stillOrdered => ?_) fuel ordered
  exact stillOrdered.closeClass

theorem settleMethod (ordered : InOrder source fresh unread log scan) :
    InOrder source fresh unread log scan.settleMethod := by
  rcases settleMethod_cases scan with kept | closed
  · rwa [kept]
  · rw [closed]
    exact ordered.closeMethod

theorem withoutPending (ordered : InOrder source fresh unread log scan) :
    InOrder source fresh unread log scan.withoutPending := by
  rcases withoutPending_cases scan with kept | closed | closed
  · rwa [kept]
  · rw [closed]
    exact ordered.closeMethod
  · rw [closed]
    exact ordered.closeClass

theorem resolveClass {cls : OpenClass} {outer : List OpenClass}
    (ordered : InOrder source fresh unread log scan) (opened : scan.classes = cls :: outer)
    (line : Line) : InOrder source fresh unread log (scan.resolveClass line) := by
  have methods : cls.methods = cls.methods ++ (none : Option Method).toList :=
    (List.append_nil _).symm
  have changed (supertypes : Supertypes) (entered : Bool) : InOrder source fresh unread log
      { scan with classes := { cls with supertypes, entered } :: outer } :=
    ordered.changeClass opened rfl rfl rfl methods rfl
  obtain ⟨supertypes, kept | ⟨-, entered⟩ | ⟨-, closed⟩⟩ := resolveClass_cases scan line opened
  · rw [kept]
    exact changed supertypes cls.entered
  · rw [entered]
    exact changed supertypes true
  · rw [closed]
    exact (changed supertypes cls.entered).closeClass

theorem openClass (ordered : InOrder source fresh unread log scan) (cls : OpenClass)
    (free : scan.method = none) (bare : cls.methods = []) (single : cls.nested = [])
    (later : fresh ≤ cls.line) :
    InOrder source (cls.line + 1) unread (log ++ [.ofClass cls])
      { scan with classes := cls :: scan.classes } := by
  have opened : { scan with classes := cls :: scan.classes }.opened =
      scan.opened ++ [scan.declOf cls] := by
    rw [opened_cons rfl, single]
    rfl
  have methods : { scan with classes := cls :: scan.classes }.declaredMethods =
      scan.declaredMethods := by
    simp [declaredMethods, Scan.methods, FunctionMap.methodsOf, opened, declOf, bare]
  refine ⟨?_, ?_, ?_, ?_⟩
  · rw [opened]
    have declBare : (scan.declOf cls).methods = [] := bare
    exact ordered.arranged.append declBare later
  · intro method found
    cases free.symm.trans found
  · rw [opened, List.map_append, ordered.classesLogged, List.filterMap_append]
    rfl
  · rw [methods, List.filterMap_append]
    exact (List.append_nil _).symm ▸ ordered.methodsLogged

theorem openMethod {cls : OpenClass} {outer : List OpenClass}
    (ordered : InOrder source fresh unread log scan) (method : OpenMethod)
    (free : scan.method = none) (opened : scan.classes = cls :: outer)
    (className : method.className = cls.name) (bare : method.statements = [])
    (later : fresh ≤ method.line) (read : unread ≤ method.line) :
    InOrder source (method.line + 1) unread (log ++ [.ofMethod method])
      { scan with method := some method } := by
  have below : cls.line < method.line := by
    have inside : scan.declOf cls ∈ scan.opened := by
      rw [opened_cons opened]
      simp
    exact Int.lt_of_lt_of_le (ordered.arranged.before _ inside) later
  have methods : { scan with method := some method }.declaredMethods =
      scan.declaredMethods ++ [method.toMethod] := by
    simp [declaredMethods, free]
    rfl
  refine ⟨ordered.arranged.mono (by omega) (Int.le_refl _), ?_, ordered.classesLogged.trans ?_, ?_⟩
  · intro other isOpen
    obtain rfl : method = other := Option.some.inj isOpen
    refine ⟨⟨cls, outer, opened, className, below⟩, ⟨Int.lt_succ _, [], .nil, nofun, bare⟩, ?_⟩
    intro earlier member
    exact (ordered.arranged.recorded earlier member).endsBefore later read
  · rw [List.filterMap_append]
    exact (List.append_nil _).symm
  · rw [methods, List.map_append, List.filterMap_append]
    exact ordered.methodsLogged.append_right _

theorem withPackage (ordered : InOrder source fresh unread log scan) (outside : scan.classes = [])
    (package : Option String) : InOrder source fresh unread log { scan with package } := by
  have opened : { scan with package }.opened = scan.opened := by
    simp [Scan.opened, outside]
  have methods : { scan with package }.methods = scan.methods := by
    rw [Scan.methods, opened, Scan.methods]
  refine ⟨?_, ?_, ?_, ?_⟩
  · rw [opened]
    exact ordered.arranged
  · intro method found
    obtain ⟨cls, outer, inside, -, -⟩ := (ordered.current method found).housed
    cases outside.symm.trans inside
  · rw [opened]
    exact ordered.classesLogged
  · rw [declaredMethods, methods]
    exact ordered.methodsLogged

theorem withMethod {method changed : OpenMethod} (ordered : InOrder source fresh unread log scan)
    (found : scan.method = some method) (same : changed.toMethod = method.toMethod) :
    InOrder source fresh unread log { scan with method := some changed } := by
  refine ⟨ordered.arranged, ?_, ordered.classesLogged, ?_⟩
  · intro other isOpen
    obtain rfl : changed = other := Option.some.inj isOpen
    have current := ordered.current method found
    rw [same]
    exact ⟨current.housed, current.recorded, current.last⟩
  · have methods := ordered.methodsLogged
    rw [declaredMethods, found, Option.map_some, ← same] at methods
    exact methods

theorem grow {line : Line} {method grown : OpenMethod}
    (ordered : InOrder source fresh unread log scan) (found : scan.method = some method)
    (grows : method.Grows scan.dialect line grown) (listed : line ∈ source)
    (notBefore : method.line ≤ line.number) (read : unread ≤ line.number) :
    InOrder source fresh (line.number + 1) log { scan with method := some grown } := by
  have current := ordered.current method found
  have heading := grows.heading
  simp only [Method.heading, Heading.mk.injEq] at heading
  obtain ⟨className, -, -, sameLine⟩ := heading
  have later : unread ≤ line.number + 1 := Int.le_trans read (Int.le_of_lt (Int.lt_succ _))
  refine ⟨ordered.arranged.mono (Int.le_refl _) later, ?_, ordered.classesLogged, ?_⟩
  · intro other isOpen
    obtain rfl : grown = other := Option.some.inj isOpen
    refine ⟨?_, current.recorded.grow sameLine listed notBefore read grows.statements, ?_⟩
    · rw [className, sameLine]
      exact current.housed
    · rw [sameLine]
      exact current.last
  · have methods := ordered.methodsLogged
    have same : { scan with method := some grown }.methods = scan.methods := rfl
    simp only [declaredMethods, found] at methods
    simpa [declaredMethods, same, grows.heading] using methods

theorem resolveMethod {line : Line} {method : OpenMethod}
    (ordered : InOrder source fresh unread log { scan with method := some method })
    (listed : line ∈ source) (notBefore : method.line ≤ line.number)
    (read : unread ≤ line.number) :
    InOrder source fresh (line.number + 1) log (scan.resolveMethod method line) := by
  obtain ⟨grown, grows, -, resolved⟩ := resolveMethod_cases scan line method
  have stillOpen : InOrder source fresh (line.number + 1) log { scan with method := some grown } :=
    ordered.grow rfl grows listed notBefore read
  rcases resolved with kept | closed
  · rwa [kept]
  · rw [closed]
    exact stillOpen.closeMethod

theorem bodyLine {line : Line} (ordered : InOrder source line.number line.number log scan)
    (listed : line ∈ source) :
    InOrder source line.number (line.number + 1) log (scan.bodyLine line) := by
  cases found : scan.method with
  | none =>
      rw [bodyLine_of_free scan line found]
      have later := ordered.mono (Int.le_refl _) (Int.le_of_lt (Int.lt_succ line.number))
      exact later.settleClassesWithin _
  | some method =>
      obtain ⟨grown, grows, -, settled⟩ := bodyLine_of_open scan line found
      have earlier := (ordered.current method found).recorded.line
      rw [settled]
      have stillOpen := ordered.grow found grows listed (Int.le_of_lt earlier) (Int.le_refl _)
      exact stillOpen.settleMethod.settleClassesWithin _

/-- A line of the source opens at most one declaration and adds statements to at most one method. -/
theorem turn {line : Line} {depth : Int} {opening : Option Opening} {next : Scan}
    (ordered : InOrder source line.number line.number log scan) (listed : line ∈ source)
    (turned : Turn line depth scan opening next) :
    InOrder source (line.number + 1) (line.number + 1) (log ++ opening.toList) next := by
  have later : line.number ≤ line.number + 1 := Int.le_of_lt (Int.lt_succ _)
  cases turned with
  | @headMethod method opened pending continues =>
      have earlier := (ordered.current method opened).recorded.line
      have headed : InOrder source line.number line.number log { scan with
          method := some { method with header := method.header ++ [line.mask] } } :=
        ordered.withMethod opened rfl
      have resolved := headed.resolveMethod listed (Int.le_of_lt earlier) (Int.le_refl _)
      rw [Option.toList_none, List.append_nil]
      exact (resolved.mono later (Int.le_refl _)).settleClassesWithin _
  | @headClass cls outer free opened pending continues =>
      have methods : cls.methods = cls.methods ++ (none : Option Method).toList :=
        (List.append_nil _).symm
      have headed : InOrder source line.number line.number log { scan with
          classes := { cls with header := cls.header ++ [line.mask] } :: outer } :=
        ordered.changeClass opened rfl rfl rfl methods rfl
      rw [Option.toList_none, List.append_nil]
      exact (headed.resolveClass rfl line).mono later later
  | package standing unstated outside read =>
      rw [Option.toList_none, List.append_nil]
      exact (ordered.withoutPending.withPackage outside _).mono later later
  | @openClass name standing free read =>
      have opened := ordered.withoutPending.openClass (line.newClass name depth) free rfl rfl
        (Int.le_refl _)
      exact (opened.resolveClass rfl line).mono (Int.le_refl _) later
  | @openMethod cls outer read standing free opened entered level readable =>
      have begun := ordered.withoutPending.openMethod
        (line.newMethod scan.withoutPending.dialect cls.name read depth) free opened rfl rfl
        (Int.le_refl _) (Int.le_refl _)
      exact begun.resolveMethod listed (Int.le_refl _) (Int.le_refl _)
  | body standing =>
      rw [Option.toList_none, List.append_nil]
      exact (ordered.withoutPending.bodyLine listed).mono later (Int.le_refl _)

end InOrder

def openingOf (scan : Scan) (raw : List Char) (number : Int) : Option Opening :=
  let line := scan.readLine raw number
  if line.isSkipped then none else (scan.pastBraces raw number).opening? line scan.depth

def openings (scan : Scan) (first : Int) : List (List Char) → List Opening
  | [] => []
  | raw :: lines =>
    (scan.openingOf raw first).toList ++ (scan.feed raw first).openings (first + 1) lines

/-- Masked lines as the scan reads them, numbered from `first` on. -/
def numbered (first : Int) : List MaskedLine → List Line
  | [] => []
  | masked :: lines =>
    ⟨masked.trimmed.mask, masked.trimmed.code, first⟩ :: numbered (first + 1) lines

theorem InOrder.feed {source : List Line} {log : List Opening} {scan : Scan} {number : Int}
    (ordered : InOrder source number number log scan) {raw : List Char}
    (listed : scan.readLine raw number ∈ source) :
    InOrder source (number + 1) (number + 1) (log ++ (scan.openingOf raw number).toList)
      (scan.feed raw number) := by
  have same (inComment : Bool) (depth : Int) :
      InOrder source number number log { scan with inComment, depth } := by
    refine ⟨ordered.arranged, fun method found => ?_, ordered.classesLogged,
      ordered.methodsLogged⟩
    have current := ordered.current method found
    exact ⟨current.housed, current.recorded, current.last⟩
  rw [feed_eq, openingOf]
  cases skipped : (scan.readLine raw number).isSkipped with
  | true =>
      have later : number ≤ number + 1 := Int.le_of_lt (Int.lt_succ _)
      have past : InOrder source number number log (scan.pastComments raw) := same _ scan.depth
      simpa using past.mono later later
  | false =>
      have past : InOrder source number number log (scan.pastBraces raw number) := same _ _
      have turned := afterHeader_turn (scan.pastBraces raw number) (scan.readLine raw number)
        scan.depth
      exact InOrder.turn past listed turned

theorem InOrder.feedLines {source : List Line} {log : List Opening} {scan : Scan} {first : Int}
    (ordered : InOrder source first first log scan) {lines : List (List Char)}
    (listed : numbered first (MaskedLine.ofLines scan.inComment lines) ⊆ source) :
    InOrder source (first + lines.length) (first + lines.length)
      (log ++ scan.openings first lines) (scan.feedLines first lines) := by
  induction lines generalizing scan first log with
  | nil => simpa [openings, Scan.feedLines] using ordered
  | cons raw lines ih =>
      rw [MaskedLine.ofLines, numbered, List.cons_subset] at listed
      have fed := ordered.feed listed.1
      have fedFrame := feed_frame scan raw first
      simp only [frame, Prod.mk.injEq] at fedFrame
      have rest := ih fed (fedFrame.2.2.2 ▸ listed.2)
      have count : first + 1 + (lines.length : Int) = first + ((raw :: lines).length : Int) := by
        rw [List.length_cons]
        omega
      rwa [count, List.append_assoc] at rest

/-- How classes lie in the lines of a source, where `openings` are the declarations that the lines
open. -/
structure Layout (dialect : Dialect) (lines : List (List Char)) (openings : List Opening)
    (classes : List ClassDecl) : Prop where
  classLines : (classes.map ClassDecl.line).Pairwise (· < ·)
  methodLines : ∀ cls ∈ classes, (cls.methods.map Method.line).Pairwise (· < ·)
  members : ∀ cls ∈ classes, ∀ method ∈ cls.methods,
    method.className = cls.name ∧ cls.line < method.line
  statementLines : ∀ method ∈ FunctionMap.methodsOf classes,
    method.statements.map Statement.line? = method.statementLines.map some ∧
    method.statementLines.Pairwise (· ≤ ·) ∧
    ∀ number ∈ method.statementLines, method.line ≤ number ∧ number ≤ lines.length
  /-- Every line gives its statements to a method once. -/
  statements : ∀ method ∈ FunctionMap.methodsOf classes, ∃ parts : List Line,
    parts.Pairwise (fun part later => part.number < later.number) ∧
    (∀ part ∈ parts, part.IsPartOf (numbered 1 (MaskedLine.ofLines false lines))) ∧
    method.statements = parts.flatMap (Line.statements dialect)
  /-- Of two methods one ends before the other begins. -/
  apart : (FunctionMap.methodsOf classes).Pairwise Method.Apart
  openedClasses : classes.map ClassDecl.heading = openings.filterMap Opening.classHeading?
  /-- Every method that is opened is found once. -/
  openedMethods : ((FunctionMap.methodsOf classes).map Method.heading).Perm
    (openings.filterMap Opening.methodHeading?)

theorem InOrder.finish {source : List Line} {fresh unread : Int} {log : List Opening} {scan : Scan}
    (ordered : InOrder source fresh unread log scan) :
    Arranged scan.dialect source fresh unread scan.finish ∧
      scan.finish.map ClassDecl.heading = log.filterMap Opening.classHeading? ∧
      ((FunctionMap.methodsOf scan.finish).map Method.heading).Perm
        (log.filterMap Opening.methodHeading?) := by
  have closed := ordered.closeMethod
  have dialect : scan.closeMethod.dialect = scan.dialect :=
    congrArg Prod.fst (closeMethod_frame scan)
  refine ⟨?_, ?_, ?_⟩
  · have arranged := closed.arranged
    rw [dialect] at arranged
    exact arranged.withPackage scan.package
  · rw [Scan.finish, List.map_map]
    exact closed.classesLogged
  · have methods := closed.methodsLogged
    rw [declaredMethods, closeMethod_method, Option.map_none, Option.toList_none,
      List.append_nil] at methods
    rw [Scan.finish, FunctionMap.methodsOf, List.flatMap_map]
    exact methods

/-- This holds of every text, also of one whose braces do not balance. -/
theorem extract_layout (dialect : Dialect) (file : Option String) (source : String) :
    Layout dialect (Text.lines source.toList)
      ((start dialect file).openings 1 (Text.lines source.toList))
      (extract dialect file source) := by
  have fed := InOrder.feedLines
    (.start (numbered 1 (MaskedLine.ofLines false (Text.lines source.toList))) 1 1 dialect file)
    (List.Subset.refl (numbered 1 (MaskedLine.ofLines false (Text.lines source.toList))))
  obtain ⟨arranged, classes, methods⟩ := fed.finish
  rw [feedLines_dialect] at arranged
  refine ⟨arranged.increasing, ?_, ?_, ?_, ?_, arranged.apart, classes, methods⟩
  · exact fun cls member => (arranged.ordered cls member).increasing
  · exact fun cls member => (arranged.ordered cls member).members
  · intro method member
    have recorded := arranged.recorded method member
    refine ⟨recorded.map_line?, recorded.statementLines_sorted, fun number isLine => ?_⟩
    obtain ⟨notBefore, before⟩ := recorded.mem_statementLines number isLine
    exact ⟨notBefore, by omega⟩
  · intro method member
    obtain ⟨parts, increasing, inside, statements⟩ := (arranged.recorded method member).statements
    exact ⟨parts, increasing, fun part isPart => (inside part isPart).1, statements⟩

end Scan
end MethodFlow
