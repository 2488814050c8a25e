import MethodFlow.CallSite
import MethodFlow.Dialect
import MethodFlow.Parenthesis
import MethodFlow.Statement

/-!
The statements on one line of a method body: first its calls, then its `if` headers, then its loop
headers, each from left to right.
-/
namespace MethodFlow.LineStatements

open Text

/-- One of the words, standing alone before an opening parenthesis. The length read takes the
parenthesis in. -/
def headed? (words : List String) (before : Option Char) (text : List Char) :
    Option (String × Nat) :=
  if wordMayBegin before then
    words.findSome? fun word =>
      match (after? word.toList text).map trimLeft with
      | some ('(' :: rest) => some (word, text.length - rest.length)
      | _ => none
  else none

def isCall (found : Found CallSite) : Bool :=
  !found.before.any (fun c => c == '@' || c == ':') && found.value.isUser

def calls (mask : List Char) (line : Int) : List Statement :=
  ((CallSite.findAll mask).filter isCall).map fun found =>
    .call (String.ofList found.value.name) line (found.value.receiver.map String.ofList)

def conditionOf {α : Type} (mask code : List Char) (default : String) (found : Found α) : String :=
  ((condition? mask code (found.stop - 1)).map String.ofList).getD default

def branches (mask code : List Char) (line : Int) : List Statement :=
  (findAll (headed? ["if"]) mask).map fun found =>
    .branch (conditionOf mask code "condition" found) line [] []

def isDoBlock (text : List Char) : Bool :=
  match (after? "do".toList text).map trimLeft with
  | some ('{' :: _) => text.getLast? == some '}'
  | _ => false

/-- Whether a `while` with `before` on its left closes a `do` block: its line ends in a semicolon in
Java, and opens no block in Kotlin. -/
def closesDo (dialect : Dialect) (before mask : List Char) : Bool :=
  let before := trim before
  let last := (trimRight mask).getLast?
  (before == ['}'] || isDoBlock before) &&
    match dialect with
    | .java => last == some ';'
    | .kotlin => last != some '{'

def loopKind (dialect : Dialect) (mask : List Char) (found : Found String) : LoopKind :=
  if found.value = "for" then .forLoop
  else if found.value = "while" && !closesDo dialect (mask.take found.start) mask then .whileLoop
  else .doWhile

def loops (dialect : Dialect) (mask code : List Char) (line : Int) : List Statement :=
  (findAll (headed? ["for", "while", "do"]) mask).map fun found =>
    .loop (loopKind dialect mask found) (conditionOf mask code "loop_condition" found) line []

def scan (dialect : Dialect) (mask code : List Char) (line : Int) : List Statement :=
  calls mask line ++ branches mask code line ++ loops dialect mask code line

end MethodFlow.LineStatements
