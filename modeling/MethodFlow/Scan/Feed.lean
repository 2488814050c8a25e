import MethodFlow.Header.ClassHeader
import MethodFlow.Header.Continuation
import MethodFlow.Header.MethodHeader
import MethodFlow.Header.Parameters
import MethodFlow.LineStatements
import MethodFlow.MaskedLine
import MethodFlow.Scan.Basic

/-!
Feeding lines to a scan. A line first goes to the declaration whose body has not opened yet; if it
is not more of that header, the declaration has no body and the line stands for itself: as the
package, as a new class or method, or as a line of the open method.
-/
namespace MethodFlow.Scan

open Text

structure Line where
  mask : List Char
  code : List Char
  number : Int

def joined (header : List (List Char)) : List Char :=
  unwords header

/-- Reads the header of the innermost class again, now that `line` is part of it. A brace in the
line opens the body, and closes it too if the depth is back where it was. -/
def resolveClass (scan : Scan) (line : Line) : Scan :=
  let scan := scan.modifyClass fun cls =>
    { cls with
      supertypes := (Header.supertypes? scan.dialect (joined cls.header)).getD cls.supertypes }
  if line.mask.contains '{' then
    if scan.classes.head?.any fun cls => cls.baseDepth < scan.depth then
      scan.modifyClass fun cls => { cls with entered := true }
    else scan.closeClass
  else scan

def Line.newClass (line : Line) (name : String) (depth : Int) : OpenClass :=
  { name, supertypes := ⟨none, []⟩, line := line.number, baseDepth := depth,
    header := [line.mask], entered := false, methods := [], nested := [] }

def openClass? (scan : Scan) (line : Line) (depth : Int) : Option Scan :=
  (Header.openedClass? scan.dialect line.mask).map fun name =>
    { scan with classes := line.newClass name depth :: scan.classes }.resolveClass line

def Line.drop (line : Line) (count : Nat) : Line :=
  { line with mask := line.mask.drop count, code := line.code.drop count }

def Line.statements (dialect : Dialect) (line : Line) : List Statement :=
  LineStatements.scan dialect line.mask line.code line.number

def statements (scan : Scan) (line : Line) : List Statement :=
  line.statements scan.dialect

/-- Where the text after the character at `tailStart` in the header begins in the last line of the
header. -/
def bodyColumn (header : List Char) (line : Line) (tailStart : Nat) : Nat :=
  tailStart + 1 - (header.length - line.mask.length)

/-- Adds the statements that stand in the last line of the header after the start of the body. The
body stays open if the depth has grown. -/
def enterMethod (scan : Scan) (method : OpenMethod) (line : Line) (tailStart : Nat) : Scan :=
  let body := scan.statements (line.drop (bodyColumn (joined method.header) line tailStart))
  let method := { method with statements := method.statements ++ body }
  if method.baseDepth < scan.depth then
    { scan with method := some { method with entered := true } }
  else { scan with method := some method }.closeMethod

/-- Reads the header of the open method again, now that `line` is part of it. A semicolon ends the
declaration; a body that is still to come keeps it open. -/
def resolveMethod (scan : Scan) (method : OpenMethod) (line : Line) : Scan :=
  let header := joined method.header
  match Header.method? scan.dialect method.className header with
  | none => { scan with method := some method }.closeMethod
  | some read =>
    let method :=
      { method with
        parameters := Header.parameters scan.dialect read.parameters
        returnType := read.returnType }
    let scan := { scan with method := some method }
    match read.tailStart with
    | none => scan
    | some tailStart =>
      match header.drop tailStart with
      | [] => scan
      | ['='] => scan
      | ';' :: _ => scan.closeMethod
      | _ => scan.enterMethod method line tailStart

def Line.newMethod (line : Line) (dialect : Dialect) (className : String)
    (read : Header.MethodHeader) (depth : Int) : OpenMethod :=
  { name := read.name
    className
    visibility := read.visibility
    parameters := Header.parameters dialect read.parameters
    returnType := read.returnType
    line := line.number
    baseDepth := depth
    header := [line.mask]
    entered := false
    statements := [] }

def openMethod? (scan : Scan) (cls : OpenClass) (line : Line) (depth : Int) : Option Scan :=
  (Header.method? scan.dialect cls.name line.mask).map fun read =>
    scan.resolveMethod (line.newMethod scan.dialect cls.name read depth) line

def package? (line : List Char) : Option String :=
  (Header.keyword? ["package"] line).bind fun (_, rest) =>
    let isPart := fun c => isWord c || c == '.'
    let name := rest.takeWhile isPart
    let rest := trimLeft (rest.dropWhile isPart)
    if !name.isEmpty && (rest == [] || rest == [';']) then some (String.ofList name) else none

def packageLine? (scan : Scan) (line : Line) : Option Scan :=
  if scan.package.isNone && scan.classes.isEmpty then
    (package? line.mask).map fun name => { scan with package := some name }
  else none

def classLine? (scan : Scan) (line : Line) (depth : Int) : Option Scan :=
  if scan.method.isNone then scan.openClass? line depth else none

def methodLine? (scan : Scan) (line : Line) (depth : Int) : Option Scan :=
  match scan.classes, scan.method with
  | cls :: _, none =>
    if cls.entered && depth == cls.baseDepth + 1 then scan.openMethod? cls line depth else none
  | _, _ => none

def bodyLine (scan : Scan) (line : Line) : Scan :=
  let scan :=
    if scan.method.isSome then
      (scan.modifyMethod fun method =>
        { method with statements := method.statements ++ scan.statements line }).settleMethod
    else scan
  scan.settleClasses

def ownLine (scan : Scan) (line : Line) (depth : Int) : Scan :=
  (scan.packageLine? line <|> scan.classLine? line depth <|> scan.methodLine? line depth).getD
    (scan.bodyLine line)

def afterHeader (scan : Scan) (line : Line) (depth : Int) : Scan :=
  match scan.method, scan.classes with
  | some method, _ =>
    if method.entered then scan.ownLine line depth
    else if Header.continues (joined method.header) line.mask then
      (scan.resolveMethod { method with header := method.header ++ [line.mask] } line).settleClasses
    else scan.closeMethod.ownLine line depth
  | none, cls :: _ =>
    if cls.entered then scan.ownLine line depth
    else if Header.continues (joined cls.header) line.mask then
      (scan.modifyClass fun cls =>
        { cls with header := cls.header ++ [line.mask] }).resolveClass line
    else scan.closeClass.ownLine line depth
  | none, [] => scan.ownLine line depth

def braceBalance (mask : List Char) : Int :=
  mask.count '{' - mask.count '}'

/-- Blank lines, and lines that look like the inside of a block comment, change nothing. -/
def feed (scan : Scan) (raw : List Char) (number : Int) : Scan :=
  let masked := (MaskedLine.ofLine scan.inComment raw).trimmed
  let scan := { scan with inComment := masked.inComment }
  if masked.mask.isEmpty || masked.mask.head? == some '*' then scan
  else
    { scan with depth := scan.depth + braceBalance masked.mask }.afterHeader
      ⟨masked.mask, masked.code, number⟩ scan.depth

def feedLines (scan : Scan) (first : Int) : List (List Char) → Scan
  | [] => scan
  | line :: lines => (scan.feed line first).feedLines (first + 1) lines

def states (scan : Scan) (first : Int) : List (List Char) → List Scan
  | [] => []
  | line :: lines =>
    let next := scan.feed line first
    next :: next.states (first + 1) lines

def extract (dialect : Dialect) (file : Option String) (source : String) : List ClassDecl :=
  ((start dialect file).feedLines 1 (lines source.toList)).finish

end MethodFlow.Scan
