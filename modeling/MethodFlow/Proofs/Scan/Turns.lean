import MethodFlow.Scan.Feed
import Mathlib.Data.Option.Basic

/-!
What one line does to a scan: it goes on with a header, states the package, opens a class or a
method, or is a line of the open method, after which scopes may end. Each of these comes with its
guards, and with the declaration that the line opens.
-/
namespace MethodFlow

structure Heading where
  className : String
  name : String
  visibility : String
  line : Int
  deriving DecidableEq, Repr

def Method.heading (method : Method) : Heading :=
  ⟨method.className, method.name, method.visibility, method.line⟩

/-- What a line may change in the method that it belongs to: it is read again, and the statements in
a part of the line, which goes to its end, are added. -/
structure OpenMethod.Grows (dialect : Dialect) (line : Scan.Line) (method grown : OpenMethod) :
    Prop where
  heading : grown.toMethod.heading = method.toMethod.heading
  baseDepth : grown.baseDepth = method.baseDepth
  statements : grown.statements = method.statements ∨ ∃ count : Nat,
    grown.statements = method.statements ++ (line.drop count).statements dialect

namespace Scan

/-- The text of a sample source, which is written with angle brackets for braces. -/
def braced (text : String) : List Char :=
  text.toList.map fun c => if c = '⟨' then '{' else if c = '⟩' then '}' else c

section Reading

variable (scan : Scan) (raw : List Char) (number : Int)

def readLine : Line :=
  let masked := (MaskedLine.ofLine scan.inComment raw).trimmed
  ⟨masked.mask, masked.code, number⟩

def Line.isSkipped (line : Line) : Bool :=
  line.mask.isEmpty || line.mask.head? == some '*'

def pastComments : Scan :=
  { scan with inComment := (MaskedLine.ofLine scan.inComment raw).inComment }

def pastBraces : Scan :=
  { scan.pastComments raw with
    depth := scan.depth + braceBalance (scan.readLine raw number).mask }

theorem feed_eq :
    scan.feed raw number =
      if (scan.readLine raw number).isSkipped then scan.pastComments raw
      else (scan.pastBraces raw number).afterHeader (scan.readLine raw number) scan.depth :=
  rfl

end Reading

inductive Opening where
  | ofClass (cls : OpenClass)
  | ofMethod (method : OpenMethod)

section Opening

variable (scan : Scan) (line : Line) (depth : Int)

def continuesHeader : Bool :=
  match scan.method, scan.classes with
  | some method, _ => !method.entered && Header.continues (joined method.header) line.mask
  | none, cls :: _ => !cls.entered && Header.continues (joined cls.header) line.mask
  | none, [] => false

/-- The scan without the declaration that waits for its body. -/
def withoutPending : Scan :=
  match scan.method, scan.classes with
  | some method, _ => if method.entered then scan else scan.closeMethod
  | none, cls :: _ => if cls.entered then scan else scan.closeClass
  | none, [] => scan

theorem withoutPending_cases :
    scan.withoutPending = scan ∨ scan.withoutPending = scan.closeMethod ∨
      scan.withoutPending = scan.closeClass := by
  unfold withoutPending
  split
  · split
    · exact .inl rfl
    · exact .inr (.inl rfl)
  · split
    · exact .inl rfl
    · exact .inr (.inr rfl)
  · exact .inl rfl

def newClass? : Option OpenClass :=
  if scan.method.isNone then
    (Header.openedClass? scan.dialect line.mask).map fun name => line.newClass name depth
  else none

def newMethod? : Option OpenMethod :=
  match scan.classes, scan.method with
  | cls :: _, none =>
    if cls.entered && depth == cls.baseDepth + 1 then
      (Header.method? scan.dialect cls.name line.mask).map fun read =>
        line.newMethod scan.dialect cls.name read depth
    else none
  | _, _ => none

def ownOpening? : Option Opening :=
  if (scan.packageLine? line).isSome then none
  else (scan.newClass? line depth).map .ofClass <|> (scan.newMethod? line depth).map .ofMethod

def opening? : Option Opening :=
  if scan.continuesHeader line then none else scan.withoutPending.ownOpening? line depth

theorem classLine?_eq :
    scan.classLine? line depth = (scan.newClass? line depth).map fun cls =>
      { scan with classes := cls :: scan.classes }.resolveClass line := by
  unfold classLine? newClass? openClass?
  split
  · rw [Option.map_map]
    rfl
  · rfl

theorem methodLine?_eq :
    scan.methodLine? line depth = (scan.newMethod? line depth).map fun method =>
      scan.resolveMethod method line := by
  unfold methodLine? newMethod? openMethod?
  cases scan.classes with
  | nil => rfl
  | cons cls outer =>
      cases scan.method with
      | some method => rfl
      | none =>
          dsimp only
          split
          · rw [Option.map_map]
            rfl
          · rfl

variable {scan line depth}

theorem packageLine?_eq_some {next : Scan} (found : scan.packageLine? line = some next) :
    scan.package = none ∧ scan.classes = [] ∧ ∃ name, package? line.mask = some name ∧
      next = { scan with package := some name } := by
  rw [packageLine?, Option.ite_none_right_eq_some, Bool.and_eq_true, Option.isNone_iff_eq_none,
    List.isEmpty_iff] at found
  obtain ⟨⟨unstated, outside⟩, stated⟩ := found
  obtain ⟨name, read, rfl⟩ := Option.map_eq_some_iff.mp stated
  exact ⟨unstated, outside, name, read, rfl⟩

theorem newClass?_eq_some {cls : OpenClass} (found : scan.newClass? line depth = some cls) :
    scan.method = none ∧ ∃ name, Header.openedClass? scan.dialect line.mask = some name ∧
      cls = line.newClass name depth := by
  rw [newClass?, Option.ite_none_right_eq_some, Option.isNone_iff_eq_none] at found
  obtain ⟨free, header⟩ := found
  obtain ⟨name, read, rfl⟩ := Option.map_eq_some_iff.mp header
  exact ⟨free, name, read, rfl⟩

theorem newMethod?_eq_some {method : OpenMethod}
    (found : scan.newMethod? line depth = some method) :
    scan.method = none ∧ ∃ cls outer read, scan.classes = cls :: outer ∧ cls.entered = true ∧
      depth = cls.baseDepth + 1 ∧ Header.method? scan.dialect cls.name line.mask = some read ∧
      method = line.newMethod scan.dialect cls.name read depth := by
  unfold newMethod? at found
  split at found
  · rename_i cls outer opened free
    rw [Option.ite_none_right_eq_some, Bool.and_eq_true, beq_iff_eq] at found
    obtain ⟨⟨entered, level⟩, header⟩ := found
    obtain ⟨read, readable, rfl⟩ := Option.map_eq_some_iff.mp header
    exact ⟨free, cls, outer, read, opened, entered, level, readable, rfl⟩
  · cases found

end Opening

/-- What a line does to a scan that has counted its braces, and what it opens. `depth` is the brace
depth before the line. -/
inductive Turn (line : Line) (depth : Int) (scan : Scan) : Option Opening → Scan → Prop
  | headMethod {method : OpenMethod} (opened : scan.method = some method)
      (pending : method.entered = false)
      (continues : Header.continues (joined method.header) line.mask = true) :
      Turn line depth scan none
        (scan.resolveMethod { method with header := method.header ++ [line.mask] }
          line).settleClasses
  | headClass {cls : OpenClass} {outer : List OpenClass} (free : scan.method = none)
      (opened : scan.classes = cls :: outer) (pending : cls.entered = false)
      (continues : Header.continues (joined cls.header) line.mask = true) :
      Turn line depth scan none
        ({ scan with classes := { cls with header := cls.header ++ [line.mask] } :: outer
          }.resolveClass line)
  | package {name : String} (standing : scan.continuesHeader line = false)
      (unstated : scan.withoutPending.package = none)
      (outside : scan.withoutPending.classes = []) (read : package? line.mask = some name) :
      Turn line depth scan none { scan.withoutPending with package := some name }
  | openClass {name : String} (standing : scan.continuesHeader line = false)
      (free : scan.withoutPending.method = none)
      (read : Header.openedClass? scan.withoutPending.dialect line.mask = some name) :
      Turn line depth scan (some (.ofClass (line.newClass name depth)))
        ({ scan.withoutPending with
          classes := line.newClass name depth :: scan.withoutPending.classes }.resolveClass line)
  | openMethod {cls : OpenClass} {outer : List OpenClass} {read : Header.MethodHeader}
      (standing : scan.continuesHeader line = false)
      (free : scan.withoutPending.method = none)
      (opened : scan.withoutPending.classes = cls :: outer) (entered : cls.entered = true)
      (level : depth = cls.baseDepth + 1)
      (readable : Header.method? scan.withoutPending.dialect cls.name line.mask = some read) :
      Turn line depth scan
        (some (.ofMethod (line.newMethod scan.withoutPending.dialect cls.name read depth)))
        (scan.withoutPending.resolveMethod
          (line.newMethod scan.withoutPending.dialect cls.name read depth) line)
  | body (standing : scan.continuesHeader line = false) :
      Turn line depth scan none (scan.withoutPending.bodyLine line)

section Turn

variable (scan : Scan) (line : Line) (depth : Int)

theorem afterHeader_of_standing (standing : scan.continuesHeader line = false) :
    scan.afterHeader line depth = scan.withoutPending.ownLine line depth := by
  cases found : scan.method with
  | some method =>
      simp only [continuesHeader, found] at standing
      simp only [afterHeader, withoutPending, found]
      cases entered : method.entered with
      | true => rfl
      | false =>
          rw [entered] at standing
          simp_all
  | none =>
      cases opened : scan.classes with
      | nil => simp only [afterHeader, withoutPending, found, opened]
      | cons cls outer =>
          simp only [continuesHeader, found, opened] at standing
          simp only [afterHeader, withoutPending, found, opened]
          cases entered : cls.entered with
          | true => rfl
          | false => simp_all

theorem ownLine_turn (standing : scan.continuesHeader line = false) :
    Turn line depth scan (scan.withoutPending.ownOpening? line depth)
      (scan.withoutPending.ownLine line depth) := by
  unfold ownOpening? ownLine
  rw [classLine?_eq, methodLine?_eq]
  cases package : scan.withoutPending.packageLine? line with
  | some next =>
      obtain ⟨unstated, outside, name, read, rfl⟩ := packageLine?_eq_some package
      exact .package standing unstated outside read
  | none =>
      cases newClass : scan.withoutPending.newClass? line depth with
      | some cls =>
          obtain ⟨free, name, read, rfl⟩ := newClass?_eq_some newClass
          exact .openClass standing free read
      | none =>
          cases newMethod : scan.withoutPending.newMethod? line depth with
          | some method =>
              obtain ⟨free, cls, outer, read, opened, entered, level, readable, rfl⟩ :=
                newMethod?_eq_some newMethod
              exact .openMethod standing free opened entered level readable
          | none => exact .body standing

theorem afterHeader_turn :
    Turn line depth scan (scan.opening? line depth) (scan.afterHeader line depth) := by
  cases continuing : scan.continuesHeader line with
  | false =>
      rw [afterHeader_of_standing scan line depth continuing, opening?, continuing]
      exact ownLine_turn scan line depth continuing
  | true =>
      rw [opening?, if_pos continuing]
      cases found : scan.method with
      | some method =>
          simp only [continuesHeader, found, Bool.and_eq_true, Bool.not_eq_true'] at continuing
          have turn : Turn line depth scan none _ := .headMethod found continuing.1 continuing.2
          simpa [afterHeader, found, continuing] using turn
      | none =>
          cases opened : scan.classes with
          | nil => simp [continuesHeader, found, opened] at continuing
          | cons cls outer =>
              simp only [continuesHeader, found, opened, Bool.and_eq_true,
                Bool.not_eq_true'] at continuing
              have turn : Turn line depth scan none _ :=
                .headClass found opened continuing.1 continuing.2
              simpa [afterHeader, found, opened, continuing, modifyClass] using turn

end Turn

section Resolving

variable (scan : Scan) (line : Line)

/-- The header of a class is read again, and its body opens if there is one in the line and it does
not end there as well. -/
theorem resolveClass_cases {cls : OpenClass} {outer : List OpenClass}
    (opened : scan.classes = cls :: outer) :
    ∃ supertypes,
      scan.resolveClass line = { scan with classes := { cls with supertypes } :: outer } ∨
      (cls.baseDepth < scan.depth ∧ scan.resolveClass line =
        { scan with classes := { cls with supertypes, entered := true } :: outer }) ∨
      (scan.depth ≤ cls.baseDepth ∧ scan.resolveClass line =
        { scan with classes := { cls with supertypes } :: outer }.closeClass) := by
  refine ⟨(Header.supertypes? scan.dialect (joined cls.header)).getD cls.supertypes, ?_⟩
  simp only [resolveClass, modifyClass, opened]
  split
  · rename_i brace
    by_cases deeper : cls.baseDepth < scan.depth
    · right
      left
      simp [deeper]
    · right
      right
      simp [deeper, Int.not_lt.mp deeper]
  · exact .inl rfl

theorem resolveMethod_cases (method : OpenMethod) :
    ∃ grown : OpenMethod, method.Grows scan.dialect line grown ∧
      (grown.entered = method.entered ∨ method.baseDepth < scan.depth) ∧
      (scan.resolveMethod method line = { scan with method := some grown } ∨
        scan.resolveMethod method line = { scan with method := some grown }.closeMethod) := by
  unfold resolveMethod
  dsimp only
  split
  · exact ⟨method, ⟨rfl, rfl, .inl rfl⟩, .inl rfl, .inr rfl⟩
  · rename_i read found
    let reread := { method with
      parameters := Header.parameters scan.dialect read.parameters
      returnType := read.returnType }
    have same : method.Grows scan.dialect line reread := ⟨rfl, rfl, .inl rfl⟩
    split
    · exact ⟨reread, same, .inl rfl, .inl rfl⟩
    · rename_i tailStart tail
      split
      · exact ⟨reread, same, .inl rfl, .inl rfl⟩
      · exact ⟨reread, same, .inl rfl, .inl rfl⟩
      · exact ⟨reread, same, .inl rfl, .inr rfl⟩
      · let count := bodyColumn (joined method.header) line tailStart
        let grown := { reread with
          statements := reread.statements ++ scan.statements (line.drop count) }
        have grows : method.Grows scan.dialect line grown := ⟨rfl, rfl, .inr ⟨count, rfl⟩⟩
        unfold enterMethod
        dsimp only
        split
        · rename_i deeper
          exact ⟨{ grown with entered := true }, ⟨rfl, rfl, .inr ⟨count, rfl⟩⟩, .inr deeper,
            .inl rfl⟩
        · exact ⟨grown, grows, .inl rfl, .inr rfl⟩

theorem bodyLine_of_free (free : scan.method = none) :
    scan.bodyLine line = scan.settleClasses := by
  simp [bodyLine, free]

theorem bodyLine_of_open {method : OpenMethod} (opened : scan.method = some method) :
    ∃ grown : OpenMethod, method.Grows scan.dialect line grown ∧
      grown.entered = method.entered ∧
      scan.bodyLine line = { scan with method := some grown }.settleMethod.settleClasses := by
  refine ⟨{ method with statements := method.statements ++ scan.statements line },
    ⟨rfl, rfl, .inr ⟨0, rfl⟩⟩, rfl, ?_⟩
  simp [bodyLine, modifyMethod, opened]

theorem settleMethod_cases :
    scan.settleMethod = scan ∨ scan.settleMethod = scan.closeMethod := by
  unfold settleMethod
  split
  · exact .inr rfl
  · exact .inl rfl

end Resolving

end Scan
end MethodFlow
