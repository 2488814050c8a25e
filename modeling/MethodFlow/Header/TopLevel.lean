import MethodFlow.Text.Blank

/-!
Lists whose items may hold brackets of their own.
-/
namespace MethodFlow.Header

open Text

def opensBracket (c : Char) : Bool :=
  c == '<' || c == '(' || c == '['

def closesBracket (c : Char) : Bool :=
  c == '>' || c == ')' || c == ']'

/-- The bracket depth after a character. A closing bracket without an opening one counts for
nothing, and one bracket is as good as another. -/
def depthAfter (depth : Nat) (c : Char) : Nat :=
  if opensBracket c then depth + 1
  else if closesBracket c then depth - 1
  else depth

def topLevelPieces (separator : Char → Bool) : (depth : Nat) → List Char → List (List Char)
  | _, [] => [[]]
  | depth, c :: text =>
    let depth := depthAfter depth c
    if separator c && depth == 0 then [] :: topLevelPieces separator depth text
    else match topLevelPieces separator depth text with
      | [] => [[c]]
      | piece :: rest => (c :: piece) :: rest

def splitTopLevel (separator : Char → Bool) (text : List Char) : List (List Char) :=
  ((topLevelPieces separator 0 text).map trim).filter fun piece => !piece.isEmpty

def splitCommas (text : List Char) : List (List Char) :=
  splitTopLevel (· == ',') text

end MethodFlow.Header
