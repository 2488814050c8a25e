import MethodFlow.Text.Blank

/-!
One physical line seen twice, column by column: as code, with its comments blanked, and as mask,
with the inside of string and character literals blanked as well. What is found in the mask is cut
out of the code at the same columns. A block comment may go on in the next line; a literal may not.
-/
namespace MethodFlow

structure MaskedLine where
  code : List Char
  mask : List Char
  /-- Whether a block comment is still open at the end of the line. -/
  inComment : Bool
  deriving DecidableEq, Repr

namespace MaskedLine

inductive Mode where
  | code
  | comment
  | literal (quote : Char)
  deriving DecidableEq, Repr

def push (c m : Char) (line : MaskedLine) : MaskedLine :=
  { line with code := c :: line.code, mask := m :: line.mask }

def pushBlank (line : MaskedLine) : MaskedLine :=
  line.push ' ' ' '

def isQuote (c : Char) : Bool :=
  c == '"' || c == '\''

/-- In a literal a backslash takes the next character with it; a line comment ends the line. -/
def read : Mode → List Char → MaskedLine
  | mode, [] => ⟨[], [], mode == .comment⟩
  | .comment, '*' :: '/' :: rest => (read .code rest).pushBlank.pushBlank
  | .comment, _ :: rest => (read .comment rest).pushBlank
  | .literal quote, '\\' :: c :: rest => ((read (.literal quote) rest).push c ' ').push '\\' ' '
  | .literal quote, c :: rest =>
    if c = quote then (read .code rest).push c c
    else (read (.literal quote) rest).push c ' '
  | .code, '/' :: '/' :: _ => ⟨[], [], false⟩
  | .code, '/' :: '*' :: rest => (read .comment rest).pushBlank.pushBlank
  | .code, c :: rest => (read (if isQuote c then .literal c else .code) rest).push c c

@[simp] theorem read_nil (mode : Mode) : read mode [] = ⟨[], [], mode == .comment⟩ := by
  rw [read]

def ofLine (inComment : Bool) (line : List Char) : MaskedLine :=
  read (if inComment then .comment else .code) line

def trimmed (line : MaskedLine) : MaskedLine :=
  { line with code := Text.trim line.code, mask := Text.trim line.mask }

def ofLines (inComment : Bool) : List (List Char) → List MaskedLine
  | [] => []
  | line :: lines =>
    let masked := ofLine inComment line
    masked :: ofLines masked.inComment lines

end MaskedLine
end MethodFlow
