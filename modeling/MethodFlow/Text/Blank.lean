/-!
White space, and what is cut along it: trimmed texts, words and lines. Sets of characters are given
by ranges of code points, in rising order.
-/
namespace MethodFlow.Text

def inRanges : List (Nat × Nat) → Nat → Bool
  | [], _ => false
  | (first, last) :: ranges, n => !(n < first) && (n ≤ last || inRanges ranges n)

def blankRanges : List (Nat × Nat) :=
  [(0x9, 0xd), (0x1c, 0x20), (0x85, 0x85), (0xa0, 0xa0), (0x1680, 0x1680), (0x2000, 0x200a),
  (0x2028, 0x2029), (0x202f, 0x202f), (0x205f, 0x205f), (0x3000, 0x3000)]

def isBlank (c : Char) : Bool :=
  inRanges blankRanges c.toNat

def trimLeft (text : List Char) : List Char :=
  text.dropWhile isBlank

def trimRight (text : List Char) : List Char :=
  (text.reverse.dropWhile isBlank).reverse

def trim (text : List Char) : List Char :=
  trimRight (trimLeft text)

/-- The pieces between separators, empty ones too, so there is always one more than separators. -/
def pieces (separator : Char → Bool) : List Char → List (List Char)
  | [] => [[]]
  | c :: text =>
    if separator c then [] :: pieces separator text
    else match pieces separator text with
      | [] => [[c]]
      | piece :: rest => (c :: piece) :: rest

def words (text : List Char) : List (List Char) :=
  (pieces isBlank text).filter fun word => !word.isEmpty

def unwords (words : List (List Char)) : List Char :=
  [' '].intercalate words

def collapse (text : List Char) : List Char :=
  unwords (words text)

def isLineEnd (c : Char) : Bool :=
  inRanges [(0xa, 0xd), (0x1c, 0x1e), (0x85, 0x85), (0x2028, 0x2029)] c.toNat

/-- The lines of a text. A carriage return and the line feed after it end one line, and no line
follows the last line end. -/
def lines : List Char → List (List Char)
  | [] => []
  | '\r' :: '\n' :: text => [] :: lines text
  | c :: text =>
    if isLineEnd c then [] :: lines text
    else match lines text with
      | [] => [[c]]
      | line :: rest => (c :: line) :: rest

end MethodFlow.Text
