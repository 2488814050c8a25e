import MethodFlow.Text.Alphanumeric
import MethodFlow.Text.Blank
import MethodFlow.Text.Search

/-!
Pieces that declaration headers are read with. A reader takes what it reads off the front of the
text; where a piece has no end of its own, it is given the reader of what comes next and stops at
the first place where that one reads.
-/
namespace MethodFlow.Header

open Text

def blanks? : List Char → Option (List Char)
  | [] => none
  | c :: text => if isBlank c then some (trimLeft text) else none

def word? (text : List Char) : Option (List Char × List Char) :=
  match text.takeWhile isWord with
  | [] => none
  | word => some (word, text.dropWhile isWord)

def keyword? (keywords : List String) (text : List Char) : Option (String × List Char) :=
  keywords.findSome? fun keyword =>
    ((after? keyword.toList text).bind blanks?).map fun rest => (keyword, rest)

def bracketed? (opening closing : Char) : List Char → Option (List Char × List Char)
  | [] => none
  | c :: text =>
    if c = opening then
      match text.dropWhile (· != closing) with
      | _ :: rest => some (text.takeWhile (· != closing), rest)
      | [] => none
    else none

def shortestRun {α : Type} (part : Char → Bool) (next? : List Char → Option α) :
    List Char → Option (List Char × α)
  | [] => none
  | c :: text =>
    if part c then
      match next? text with
      | some value => some ([c], value)
      | none => (shortestRun part next? text).map fun (run, value) => (c :: run, value)
    else none

/-- The shortest run after `least` blanks or more. A run starts at the first character that is not
blank; where none is to be had there, a blank more than are needed may stand for it. -/
def runAfterBlanks {α : Type} (least : Nat) (part : Char → Bool) (next? : List Char → Option α)
    (text : List Char) : Option (List Char × α) :=
  let blanks := text.takeWhile isBlank
  let rest := trimLeft text
  if blanks.length < least then none
  else shortestRun part next? rest <|>
    if least < blanks.length then
      (next? rest).map fun value => (blanks.drop (blanks.length - 1), value)
    else none

/-- Passes over characters up to the first `closing` after which `next?` reads. -/
def skipTo {α : Type} (part : Char → Bool) (closing : Char) (next? : List Char → Option α) :
    List Char → Option α
  | [] => none
  | c :: text =>
    (if c = closing then next? text else none) <|>
      if part c then skipTo part closing next? text else none

def isOneLine (text : List Char) : Bool :=
  !text.dropLast.contains '\n'

end MethodFlow.Header
