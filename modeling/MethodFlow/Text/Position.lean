/-!
Positions among the characters of a text or its bytes. A position counts from the left; a negative
one counts back from the end.
-/
namespace MethodFlow.Text

def clampPosition (length : Nat) (position : Int) : Nat :=
  if position < 0 then (length + position).toNat else min length position.toNat

def between {α : Type} (items : List α) (first last : Int) : List α :=
  let start := clampPosition items.length first
  (items.drop start).take (clampPosition items.length last - start)

/-- The items at a position and after it, up to the last one. From a negative position the count
goes on past the end with the first item. -/
def fromPosition {α : Type} (items : List α) (position : Int) : List α :=
  if position < 0 then items.drop (items.length - position.natAbs) ++ items
  else items.drop position.toNat

inductive PositionError where
  | beforeFirst
  | beyondRange
  deriving DecidableEq, Repr

def PositionError.message : PositionError → String
  | beforeFirst => "string index out of range"
  | beyondRange => "cannot fit 'int' into an index-sized integer"

def leastPosition : Int :=
  -0x8000000000000000

/-- What is wrong with a position to count from. One past the end is not wrong: nothing is there to
be counted. -/
def positionError? (length : Nat) (position : Int) : Option PositionError :=
  if position < leastPosition then some .beyondRange
  else if position < -length then some .beforeFirst
  else none

end MethodFlow.Text
