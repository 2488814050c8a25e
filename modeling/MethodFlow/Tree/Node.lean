import MethodFlow.Text.Blank
import MethodFlow.Text.Utf8

/-!
Syntax trees of a source, which is given as bytes.
-/
namespace MethodFlow.Tree

structure Node where
  kind : String
  /-- Whether the grammar names the node; punctuation is not named. -/
  named : Bool
  /-- The positions among the bytes of the source between which the node stands. -/
  start : Int
  stop : Int
  row : Int
  /-- The field under which the parent holds the node. -/
  field : Option String
  children : List Node
  deriving Inhabited, Repr

namespace Node

def namedChildren (node : Node) : List Node :=
  node.children.filter named

def child? (node : Node) (field : String) : Option Node :=
  node.children.find? fun child => child.field == some field

def childOfKind? (node : Node) (kinds : List String) : Option Node :=
  node.children.find? fun child => kinds.contains child.kind

def chars (bytes : List UInt8) (node : Node) : List Char :=
  Text.Utf8.between bytes node.start node.stop

def text (bytes : List UInt8) (node : Node) : String :=
  String.ofList (node.chars bytes)

def line (node : Node) : Int :=
  node.row + 1

/-- What stands between the first opening and the last closing parenthesis among the children, with
its blanks collapsed, unless that is nothing. -/
def parenthesized? (bytes : List UInt8) (node : Node) : Option (List Char) :=
  match node.childOfKind? ["("], node.children.reverse.find? fun child => child.kind == ")" with
  | some opening, some closing =>
    let text := Text.collapse (Text.Utf8.between bytes opening.stop closing.start)
    if text.isEmpty then none else some text
  | _, _ => none

end Node

def stripParentheses (text : List Char) : List Char :=
  let text := Text.trim text
  if text.head? == some '(' && text.getLast? == some ')' then Text.collapse (text.drop 1).dropLast
  else Text.collapse text

end MethodFlow.Tree
