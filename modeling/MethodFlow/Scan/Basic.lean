import MethodFlow.Declaration

/-!
The state of a scan: the classes that are open around the current line, the method that is open in
the innermost of them, and the classes that are done. A class that closes goes to the class around
it, behind the classes that closed there before, so that reading the open classes from the outermost
inwards gives all classes in the order in which they were opened.
-/
namespace MethodFlow

structure OpenMethod where
  name : String
  className : String
  visibility : String
  parameters : List Parameter
  returnType : Option String
  line : Int
  /-- The brace depth before its first line. -/
  baseDepth : Int
  /-- The masks of its header lines, which are collected until its body opens. -/
  header : List (List Char)
  entered : Bool
  statements : List Statement

def OpenMethod.toMethod (method : OpenMethod) : Method :=
  { name := method.name
    className := method.className
    visibility := method.visibility
    parameters := method.parameters
    returnType := method.returnType
    line := method.line
    statements := method.statements }

structure OpenClass where
  name : String
  supertypes : Supertypes
  line : Int
  baseDepth : Int
  header : List (List Char)
  entered : Bool
  methods : List Method
  /-- The classes opened and closed in it, in the order in which they were opened. -/
  nested : List ClassDecl

structure Scan where
  dialect : Dialect
  file : Option String
  package : Option String
  /-- How many more braces were opened than closed. -/
  depth : Int
  inComment : Bool
  done : List ClassDecl
  /-- The open classes, the innermost first. -/
  classes : List OpenClass
  method : Option OpenMethod

namespace Scan

def start (dialect : Dialect) (file : Option String) : Scan :=
  { dialect, file, package := none, depth := 0, inComment := false, done := [], classes := [],
    method := none }

def declOf (scan : Scan) (cls : OpenClass) : ClassDecl :=
  { name := cls.name
    supertypes := cls.supertypes
    methods := cls.methods
    line := cls.line
    package := scan.package
    file := scan.file
    dialect := scan.dialect }

def declared (scan : Scan) (cls : OpenClass) : List ClassDecl :=
  scan.declOf cls :: cls.nested

def opened (scan : Scan) : List ClassDecl :=
  scan.done ++ scan.classes.reverse.flatMap scan.declared

def closeMethod (scan : Scan) : Scan :=
  match scan.method, scan.classes with
  | some method, cls :: outer =>
    { scan with
      method := none
      classes := { cls with methods := cls.methods ++ [method.toMethod] } :: outer }
  | _, _ => { scan with method := none }

def closeClass (scan : Scan) : Scan :=
  let scan := scan.closeMethod
  match scan.classes with
  | [] => scan
  | [cls] => { scan with classes := [], done := scan.done ++ scan.declared cls }
  | cls :: outer :: rest =>
    { scan with classes := { outer with nested := outer.nested ++ scan.declared cls } :: rest }

def settleMethod (scan : Scan) : Scan :=
  if scan.method.any fun method => method.entered && scan.depth ≤ method.baseDepth then
    scan.closeMethod
  else scan

def settleClassesWithin : (fuel : Nat) → Scan → Scan
  | 0, scan => scan
  | fuel + 1, scan =>
    if scan.classes.head?.any fun cls => cls.entered && scan.depth ≤ cls.baseDepth then
      settleClassesWithin fuel scan.closeClass
    else scan

def settleClasses (scan : Scan) : Scan :=
  settleClassesWithin scan.classes.length scan

def modifyClass (scan : Scan) (change : OpenClass → OpenClass) : Scan :=
  match scan.classes with
  | [] => scan
  | cls :: outer => { scan with classes := change cls :: outer }

def modifyMethod (scan : Scan) (change : OpenMethod → OpenMethod) : Scan :=
  { scan with method := scan.method.map change }

/-- The classes of the source, once its last line has been fed. The package counts for all of them,
wherever it was stated. -/
def finish (scan : Scan) : List ClassDecl :=
  scan.closeMethod.opened.map fun cls => { cls with package := scan.package }

end Scan
end MethodFlow
