import MethodFlow.Declaration
import MethodFlow.Header.Modifier
import MethodFlow.Header.Parameters
import MethodFlow.Tree.Statements

/-!
The classes of a Java source, read off its syntax tree. They cannot be had if a branch in one of
their methods has no condition.
-/
namespace MethodFlow.Tree

open Text

def classKinds : List String :=
  ["class_declaration", "interface_declaration", "enum_declaration", "record_declaration"]

def methodKinds : List String :=
  ["method_declaration", "constructor_declaration"]

/-- The part of an enum body that holds declarations; they count as members of the enum. -/
def enumDeclarations : String :=
  "enum_body_declarations"

def package? (bytes : List UInt8) (root : Node) : Option String :=
  root.children.findSome? fun child =>
    if child.kind = "package_declaration" then
      (child.childOfKind? ["scoped_identifier", "identifier"]).map (Node.text bytes)
    else none

def typeNames (bytes : List UInt8) (holder : Option Node) : List String :=
  match holder.bind fun holder => holder.childOfKind? ["type_list"] with
  | some types => types.namedChildren.map (Node.text bytes)
  | none => []

def supertypes (bytes : List UInt8) (node : Node) : Supertypes :=
  let superclass := node.child? "superclass"
  let extended := node.childOfKind? ["extends_interfaces"]
  let supers :=
    ((superclass.bind fun node => node.namedChildren.head?).map (Node.text bytes)).toList ++
      typeNames bytes extended ++ typeNames bytes (node.child? "interfaces")
  if superclass.isNone && extended.isNone then ⟨none, supers⟩
  else ⟨supers.head?, supers.drop 1⟩

def parameter? (bytes : List UInt8) (node : Node) : Option Parameter :=
  if node.kind = "formal_parameter" then
    some ⟨((node.child? "name").map (Node.text bytes)).getD "param",
      ((node.child? "type").map (Node.text bytes)).getD "?"⟩
  else if node.kind = "spread_parameter" then
    Header.parameterOfWords? (Header.splitTopLevel (· == ' ') (node.chars bytes))
  else none

def method (bytes : List UInt8) (className : String) (node : Node) :
    Except MissingCondition Method := do
  let statements ← ((node.child? "body").map (statements bytes)).getD (.ok [])
  return {
    name := ((node.child? "name").map (Node.text bytes)).getD "<anonymous>"
    className
    visibility := ((node.childOfKind? ["modifiers"]).map fun modifiers =>
      Header.visibilityOf (modifiers.chars bytes)).getD "package"
    parameters := ((node.child? "parameters").map fun list =>
      list.namedChildren.filterMap (parameter? bytes)).getD []
    returnType := if node.kind = "method_declaration" then
        (node.child? "type").map (Node.text bytes)
      else none
    line := node.line
    statements }

def members (node : Node) : List Node :=
  match node.child? "body" with
  | none => []
  | some body => body.namedChildren.flatMap fun child =>
      if child.kind = enumDeclarations then child.namedChildren else [child]

structure Place where
  package : Option String
  file : Option String

def classDecl (bytes : List UInt8) (place : Place) (name : String) (node : Node) :
    Except MissingCondition ClassDecl := do
  let methods ← ((members node).filter fun member => methodKinds.contains member.kind).mapM
    (method bytes name)
  return {
    name
    supertypes := supertypes bytes node
    methods
    line := node.line
    package := place.package
    file := place.file
    dialect := .java }

def classAt? (bytes : List UInt8) (place : Place) (node : Node) :
    Except MissingCondition (Option ClassDecl) :=
  match classKinds.contains node.kind, node.child? "name" with
  | true, some name => some <$> classDecl bytes place (name.text bytes) node
  | _, _ => .ok none

abbrev Classes := Except MissingCondition (List ClassDecl)

mutual

def classes (bytes : List UInt8) (place : Place) : Node → Classes
  | ⟨kind, named, start, stop, row, field, children⟩ => do
    match ← classAt? bytes place ⟨kind, named, start, stop, row, field, children⟩ with
    | some cls => return cls :: (← classesInBody bytes place children)
    | none => return []

def classesInBody (bytes : List UInt8) (place : Place) : List Node → Classes
  | [] => .ok []
  | ⟨_, _, _, _, _, field, children⟩ :: rest =>
    if field == some "body" then classesAmongMembers bytes place children
    else classesInBody bytes place rest

def classesAmongMembers (bytes : List UInt8) (place : Place) : List Node → Classes
  | [] => .ok []
  | ⟨kind, named, start, stop, row, field, children⟩ :: rest => do
    let found ←
      if !named then .ok []
      else if kind = enumDeclarations then classesAmong bytes place children
      else classes bytes place ⟨kind, named, start, stop, row, field, children⟩
    return found ++ (← classesAmongMembers bytes place rest)

def classesAmong (bytes : List UInt8) (place : Place) : List Node → Classes
  | [] => .ok []
  | node :: rest => do
    let found ← if node.named then classes bytes place node else .ok []
    return found ++ (← classesAmong bytes place rest)

end

def extract (file : Option String) (source : String) (root : Node) : Classes :=
  let bytes := Utf8.encode source.toList
  classesAmong bytes ⟨package? bytes root, file⟩ root.children

end MethodFlow.Tree
