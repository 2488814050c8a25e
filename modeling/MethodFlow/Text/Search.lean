/-!
Reading the front of a text, and finding all places in it that read.
-/
namespace MethodFlow.Text

def after? : (word text : List Char) → Option (List Char)
  | [], text => some text
  | w :: word, c :: text => if w = c then after? word text else none
  | _ :: _, [] => none

def hasInfix (word : List Char) : List Char → Bool
  | [] => word.isEmpty
  | c :: text => word.isPrefixOf (c :: text) || hasInfix word text

def skipItems (item? : List Char → Option (List Char)) : (fuel : Nat) → List Char → List Char
  | 0, text => text
  | fuel + 1, text =>
    match item? text with
    | some rest => skipItems item? fuel rest
    | none => text

/-- A place in a text that was read: what was read there, where it starts, how long it is, and
the character before it. -/
structure Found (α : Type) where
  value : α
  start : Nat
  length : Nat
  before : Option Char

def Found.stop {α : Type} (found : Found α) : Nat :=
  found.start + found.length

/-- All places that read, from left to right and without overlap. The reader is given the character
before the place and the text from there on, and gives how many characters it took. -/
def findAllFrom {α : Type} (read? : Option Char → List Char → Option (α × Nat))
    (position : Nat) (skip : Nat) (before : Option Char) : List Char → List (Found α)
  | [] => []
  | c :: text =>
    match skip with
    | skip + 1 => findAllFrom read? (position + 1) skip (some c) text
    | 0 =>
      match read? before (c :: text) with
      | some (value, length) =>
        ⟨value, position, length, before⟩ ::
          findAllFrom read? (position + 1) (length - 1) (some c) text
      | none => findAllFrom read? (position + 1) 0 (some c) text

@[simp] theorem findAllFrom_nil {α : Type} (read? : Option Char → List Char → Option (α × Nat))
    (position skip : Nat) (before : Option Char) :
    findAllFrom read? position skip before [] = [] := by
  rw [findAllFrom]

def findAll {α : Type} (read? : Option Char → List Char → Option (α × Nat)) (text : List Char) :
    List (Found α) :=
  findAllFrom read? 0 0 none text

end MethodFlow.Text
