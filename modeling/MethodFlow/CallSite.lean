import MethodFlow.Text.Alphanumeric
import MethodFlow.Text.Blank
import MethodFlow.Text.Search

/-!
Places where a name stands before an opening parenthesis, with the receiver before its dot, and
which of them count as calls of the program's own methods.
-/
namespace MethodFlow

structure CallSite where
  receiver : Option (List Char)
  name : List Char
  deriving DecidableEq, Repr

namespace CallSite

open Text

def identifier? : List Char → Option (List Char × List Char)
  | [] => none
  | c :: text =>
    if isIdentifierStart c then
      some (c :: text.takeWhile isIdentifierPart, text.dropWhile isIdentifierPart)
    else none

def member? (text : List Char) : Option (List Char × List Char) :=
  match trimLeft text with
  | '.' :: rest => identifier? (trimLeft rest)
  | _ => none

def members : (fuel : Nat) → List Char → List (List Char) × List Char
  | 0, text => ([], text)
  | fuel + 1, text =>
    match member? text with
    | some (name, rest) =>
      let (names, rest) := members fuel rest
      (name :: names, rest)
    | none => ([], text)

@[simp] theorem members_zero (text : List Char) : members 0 text = ([], text) := by
  rw [members]

def ofChain (first : List Char) (names : List (List Char)) : CallSite :=
  { receiver := if names.isEmpty then none else some (['.'].intercalate (first :: names).dropLast)
    name := names.getLastD first }

def read? (text : List Char) : Option (CallSite × List Char) :=
  match identifier? text with
  | none => none
  | some (first, rest) =>
    let (names, rest) := members rest.length rest
    match trimLeft rest with
    | '(' :: rest => some (ofChain first names, rest)
    | _ => none

def findAll (mask : List Char) : List (Found CallSite) :=
  Text.findAll
    (fun _ text => (read? text).map fun (site, rest) => (site, text.length - rest.length)) mask

def frameworkNames : List String :=
  ["Log", "Toast", "findViewById", "setContentView", "getSystemService", "startActivity", "finish",
    "runOnUiThread", "getString", "getResources"]

def keywords : List String :=
  ["if", "else", "for", "while", "do", "switch", "case", "when", "catch", "try", "synchronized",
    "return", "throw", "new", "assert", "super", "this", "fun", "class", "interface", "object",
    "constructor", "is", "in", "as", "instanceof", "typeof", "sizeof"]

def isFrameworkName (name : List Char) : Bool :=
  frameworkNames.any fun known =>
    hasInfix known.toList name || (known.toList.map Char.toLower).isPrefixOf name

def root (receiver : List Char) : List Char :=
  receiver.takeWhile (· != '.')

def isFramework (site : CallSite) : Bool :=
  isFrameworkName site.name ||
    site.receiver.any fun receiver =>
      !receiver.isEmpty && (frameworkNames.map String.toList).contains (root receiver)

def isUser (site : CallSite) : Bool :=
  !(keywords.map String.toList).contains site.name && !site.isFramework

end CallSite
end MethodFlow
