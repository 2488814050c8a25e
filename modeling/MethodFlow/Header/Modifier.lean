import MethodFlow.Header.Reading

/-!
What may stand before a declaration: annotations and modifiers, among them its visibility.
-/
namespace MethodFlow.Header

open Text

def annotation? : List Char → Option (List Char)
  | '@' :: text =>
    let isPart := fun c => isWord c || c == '.'
    let rest := text.dropWhile isPart
    if (text.takeWhile isPart).isEmpty then none
    else match bracketed? '(' ')' rest with
      | some (_, rest) => blanks? rest
      | none => blanks? rest
  | _ => none

def skipAnnotations (text : List Char) : List Char :=
  skipItems annotation? text.length text

/-- All ways to take modifiers off the front, `fuel` of them at most, the longest first. A modifier
may also be left alone and read as a type or a name. -/
def modifierReadings (modifiers : List String) :
    (fuel : Nat) → List Char → List (List String × List Char)
  | 0, text => [([], text)]
  | fuel + 1, text =>
    match keyword? modifiers text with
    | some (modifier, rest) =>
      (modifierReadings modifiers fuel rest).map (fun (taken, rest) => (modifier :: taken, rest)) ++
        [([], text)]
    | none => [([], text)]

def declared? {α : Type} (modifiers : List String)
    (read? : List String → List Char → Option α) (text : List Char) : Option α :=
  (modifierReadings modifiers text.length (skipAnnotations text)).findSome? fun (taken, rest) =>
    read? taken rest

def visibilities : List String :=
  ["public", "private", "protected", "internal"]

def visibilityAmong (words : List String) : String :=
  (words.find? visibilities.contains).getD "package"

def visibilityOf (text : List Char) : String :=
  visibilityAmong ((words text).map String.ofList)

end MethodFlow.Header
