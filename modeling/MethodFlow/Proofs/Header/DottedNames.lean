import MethodFlow.Proofs.Header.Items
import MethodFlow.Proofs.Text.Words

/-!
Names as they stand in types and parameter lists: identifiers, and identifiers with dots between
them. They hold no blanks and no signs that lists are cut at.
-/
namespace MethodFlow.Header

open Text

def typeSigns : List Char :=
  ['<', '>', '(', ')', '[', ']', ',', ':', '=', '@', '?', '.']

/-- Identifiers may have any other characters, which takes in those of both languages. -/
def isNamePart (c : Char) : Bool :=
  !isBlank c && !typeSigns.contains c

structure Identifier where
  chars : List Char
  nonempty : chars ≠ []
  plain : ∀ c ∈ chars, isNamePart c = true

structure DottedName where
  first : Identifier
  rest : List Identifier

def DottedName.parts (name : DottedName) : List Identifier :=
  name.first :: name.rest

def DottedName.text (name : DottedName) : List Char :=
  name.first.chars ++ name.rest.flatMap fun part => '.' :: part.chars

def isDottedPart (c : Char) : Bool :=
  isNamePart c || c == '.'

section Characters

variable {c : Char}

theorem isBlank_of_dotted (dotted : isDottedPart c = true) : isBlank c = false := by
  rw [isDottedPart, Bool.or_eq_true, beq_iff_eq] at dotted
  rcases dotted with part | rfl
  · rw [isNamePart, Bool.and_eq_true, Bool.not_eq_true'] at part
    exact part.1
  · decide

theorem ne_of_dotted (dotted : isDottedPart c = true) {sign : Char}
    (listed : typeSigns.contains sign = true) (other : sign ≠ '.') : c ≠ sign := by
  rintro rfl
  rw [isDottedPart, isNamePart, listed] at dotted
  simp [other] at dotted

theorem isBracket_of_dotted (dotted : isDottedPart c = true) : isBracket c = false := by
  have unlike {sign : Char} (listed : typeSigns.contains sign = true) (other : sign ≠ '.') :
      (c == sign) = false :=
    beq_eq_false_iff_ne.mpr (ne_of_dotted dotted listed other)
  simp only [isBracket, opensBracket, closesBracket]
  rw [unlike (by decide) (by decide), unlike (by decide) (by decide),
    unlike (by decide) (by decide), unlike (by decide) (by decide), unlike (by decide) (by decide),
    unlike (by decide) (by decide)]
  rfl

theorem isAnnotationWord_of_dotted {text : List Char}
    (dotted : ∀ c ∈ text, isDottedPart c = true) : isAnnotationWord text = false := by
  rw [isAnnotationWord, beq_eq_false_iff_ne]
  intro first
  have unlike : '@' ≠ '@' := ne_of_dotted (dotted '@' (List.mem_of_head? first)) (by decide)
    (by decide)
  exact unlike rfl

end Characters

theorem Identifier.dotted (name : Identifier) : ∀ c ∈ name.chars, isDottedPart c = true := by
  intro c member
  rw [isDottedPart, name.plain c member]
  rfl

theorem Identifier.isSolid (name : Identifier) : IsSolid name.chars :=
  ⟨name.nonempty, fun c member => isBlank_of_dotted (name.dotted c member)⟩

namespace DottedName

variable (name : DottedName)

theorem dotted : ∀ c ∈ name.text, isDottedPart c = true := by
  intro c member
  rcases List.mem_append.mp member with first | later
  · exact name.first.dotted c first
  · obtain ⟨part, -, inside⟩ := List.mem_flatMap.mp later
    rcases List.mem_cons.mp inside with rfl | further
    · decide
    · exact part.dotted c further

theorem isSolid : IsSolid name.text where
  nonempty := by simp [text, name.first.nonempty]
  solid c member := isBlank_of_dotted (name.dotted c member)

theorem not_mem_text {sign : Char} (listed : typeSigns.contains sign = true)
    (other : sign ≠ '.') : sign ∉ name.text :=
  fun member => ne_of_dotted (name.dotted sign member) listed other rfl

theorem depthThrough_text (depth : Nat) : depthThrough depth name.text = depth :=
  depthThrough_plain (fun c member => isBracket_of_dotted (name.dotted c member)) depth

theorem isEnclosed (level : Nat) : IsEnclosed level name.text :=
  isEnclosed_plain (fun c member => isBracket_of_dotted (name.dotted c member))
    (name.not_mem_text (by decide) (by decide)) level

theorem hides_text (depth : Nat) : hides (· == ',') depth name.text = true := by
  apply hides_of_none
  intro c member
  exact beq_eq_false_iff_ne.mpr (ne_of_dotted (name.dotted c member) (by decide) (by decide))

end DottedName

end MethodFlow.Header
