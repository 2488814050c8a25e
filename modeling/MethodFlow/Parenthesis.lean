import MethodFlow.Text.Blank
import MethodFlow.Text.Position

/-!
Matching parentheses on one line, and the conditions that stand between them.
-/
namespace MethodFlow

/-- How far from the front the `)` stands that brings the number of open parentheses, `depth` at the
front, down to zero. -/
def closingOffset : (depth : Int) → List Char → Option Nat
  | _, [] => none
  | depth, c :: text =>
    if c = '(' then (closingOffset (depth + 1) text).map (· + 1)
    else if c = ')' then
      if depth = 1 then some 0 else (closingOffset (depth - 1) text).map (· + 1)
    else (closingOffset depth text).map (· + 1)

/-- The code between the parenthesis at `opening` and the one that closes it in the mask, or up to
the end of the line where none does. Blanks are collapsed, and a blank condition is none. -/
def condition? (mask code : List Char) (opening : Int) : Option (List Char) :=
  let inside := match closingOffset 0 (Text.fromPosition mask opening) with
    | some offset => Text.between code (opening + 1) (opening + offset)
    | none => Text.between code (opening + 1) code.length
  let text := Text.collapse inside
  if text.isEmpty then none else some text

def conditionAt (mask code : List Char) (opening : Int) :
    Except Text.PositionError (Option (List Char)) :=
  match Text.positionError? mask.length opening with
  | some error => .error error
  | none => .ok (condition? mask code opening)

end MethodFlow
