import MethodFlow.CallSite
import MethodFlow.Statement
import MethodFlow.Tree.Node

/-!
The statements below a node, in the order in which they are evaluated: calls in a receiver come
before the call, calls in a condition before the branch or loop. Unlike on single lines the bodies
of branches and loops are known. A branch has to have a condition; a loop need not.
-/
namespace MethodFlow.Tree

open Text

structure MissingCondition where
  line : Int
  deriving DecidableEq, Repr

def MissingCondition.message (_ : MissingCondition) : String :=
  "'NoneType' object has no attribute 'start_byte'"

/-- The statements below a node, unless a branch among them has no condition. -/
abbrev Below := Except MissingCondition (List Statement)

structure Part where
  node : Node
  statements : Below

def part? (parts : List Part) (field : String) : Option Part :=
  parts.find? fun part => part.node.field == some field

def below (parts : List Part) (field : String) : Below :=
  ((part? parts field).map Part.statements).getD (.ok [])

def belowAll (parts : List Part) : Below :=
  List.flatten <$> parts.mapM Part.statements

def belowOthers (parts : List Part) (field : String) : Below :=
  belowAll (parts.eraseP fun part => part.node.field == some field)

def orElse (text : List Char) (default : String) : String :=
  if text.isEmpty then default else String.ofList text

def callUnlessFramework (name : List Char) (receiver : Option (List Char)) (line : Int) :
    List Statement :=
  if (CallSite.mk receiver name).isFramework then []
  else [.call (String.ofList name) line (receiver.map String.ofList)]

def invocation (bytes : List UInt8) (node : Node) (parts : List Part) : Below := do
  let receiver := (part? parts "object").map fun part => part.node.chars bytes
  let call := match part? parts "name" with
    | some name => callUnlessFramework (name.node.chars bytes) receiver node.line
    | none => []
  return (← below parts "object") ++ call ++ (← below parts "arguments")

def simpleName (type : List Char) : List Char :=
  ((type.takeWhile (· != '<')).reverse.takeWhile (· != '.')).reverse

def creation (bytes : List UInt8) (node : Node) (parts : List Part) : Below := do
  let call := match part? parts "type" with
    | some type => callUnlessFramework (simpleName (type.node.chars bytes)) none node.line
    | none => []
  return call ++ (← belowOthers parts "type")

def conditionText? (bytes : List UInt8) (parts : List Part) : Option (List Char) :=
  (part? parts "condition").map fun part => stripParentheses (part.node.chars bytes)

def branching (bytes : List UInt8) (node : Node) (parts : List Part) : Below := do
  let before ← below parts "condition"
  match conditionText? bytes parts with
  | none => throw ⟨node.line⟩
  | some condition =>
    return before ++ [.branch (orElse condition "condition") node.line
      (← below parts "consequence") (← below parts "alternative")]

def counting (bytes : List UInt8) (node : Node) (parts : List Part) : Below := do
  let before ← belowOthers parts "body"
  let condition := orElse ((node.parenthesized? bytes).getD []) "loop_condition"
  return before ++ [.loop .forLoop condition node.line (← below parts "body")]

def looping (bytes : List UInt8) (kind : LoopKind) (node : Node) (parts : List Part) : Below := do
  let before ← below parts "condition"
  let condition := orElse ((conditionText? bytes parts).getD []) "loop_condition"
  return before ++ [.loop kind condition node.line (← below parts "body")]

def combine (bytes : List UInt8) (node : Node) (parts : List Part) : Below :=
  match node.kind with
  | "method_invocation" => invocation bytes node parts
  | "object_creation_expression" => creation bytes node parts
  | "if_statement" => branching bytes node parts
  | "for_statement" => counting bytes node parts
  | "enhanced_for_statement" => counting bytes node parts
  | "while_statement" => looping bytes .whileLoop node parts
  | "do_statement" => looping bytes .doWhile node parts
  | _ => belowAll parts

mutual

def statements (bytes : List UInt8) : Node → Below
  | ⟨kind, named, start, stop, row, field, children⟩ =>
    combine bytes ⟨kind, named, start, stop, row, field, children⟩ (parts bytes children)

def parts (bytes : List UInt8) : List Node → List Part
  | [] => []
  | child :: children => ⟨child, statements bytes child⟩ :: parts bytes children

end

end MethodFlow.Tree
