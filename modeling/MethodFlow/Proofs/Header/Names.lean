import MethodFlow.Header.ClassHeader
import MethodFlow.Header.MethodHeader
import Mathlib.Data.List.TakeWhile
import Mathlib.Data.Option.Basic

/-!
The names that headers give to classes and methods are made of word characters.
-/
namespace MethodFlow.Header

open Text

def isName (name : String) : Bool :=
  name.toList.all isWord

theorem isName_ofList {name : List Char} :
    isName (String.ofList name) = true ↔ ∀ c ∈ name, isWord c = true := by
  simp [isName]

section Readers

variable {α : Type} {value : α} {text : List Char}

theorem declared?_reads {modifiers : List String}
    {read? : List String → List Char → Option α}
    (found : declared? modifiers read? text = some value) :
    ∃ taken rest, read? taken rest = some value := by
  obtain ⟨⟨taken, rest⟩, -, read⟩ := List.exists_of_findSome?_eq_some found
  exact ⟨taken, rest, read⟩

theorem skipTo_reads {part : Char → Bool} {closing : Char} {next? : List Char → Option α}
    (found : skipTo part closing next? text = some value) :
    ∃ rest, next? rest = some value := by
  induction text with
  | nil => cases found
  | cons c text ih =>
      rcases (Option.orElse_eq_some _ _ _).mp found with here | ⟨-, later⟩
      · split at here
        · exact ⟨text, here⟩
        · cases here
      · split at later
        · exact ih later
        · cases later

theorem word?_isWord {word rest : List Char} (found : word? text = some (word, rest)) :
    ∀ c ∈ word, isWord c = true := by
  unfold word? at found
  split at found
  · cases found
  · cases found
    exact fun c member => List.mem_takeWhile_imp member

end Readers

section Classes

theorem className?_isWord {modifiers kinds : List String} {text name rest : List Char}
    (found : className? modifiers kinds text = some (name, rest)) :
    ∀ c ∈ name, isWord c = true := by
  obtain ⟨taken, front, read⟩ := declared?_reads found
  obtain ⟨back, -, named⟩ := Option.bind_eq_some_iff.mp read
  exact word?_isWord named

theorem companion?_isWord {header name : List Char} {supers : Supertypes}
    (found : companion? header = some (some name, supers)) : ∀ c ∈ name, isWord c = true := by
  obtain ⟨rest, -, read⟩ := Option.bind_eq_some_iff.mp found
  rcases (Option.orElse_eq_some _ _ _).mp read with named | ⟨-, bare⟩
  · obtain ⟨⟨word, after⟩, wordRead, supersRead⟩ := Option.bind_eq_some_iff.mp named
    obtain ⟨supers', -, same⟩ := Option.map_eq_some_iff.mp supersRead
    cases same
    obtain ⟨front, -, wordFound⟩ := Option.bind_eq_some_iff.mp wordRead
    exact word?_isWord wordFound
  · obtain ⟨supers', -, same⟩ := Option.map_eq_some_iff.mp bare
    cases same

theorem openedClass?_isName {dialect : Dialect} {line : List Char} {name : String}
    (found : openedClass? dialect line = some name) : isName name = true := by
  cases dialect with
  | java =>
      obtain ⟨⟨word, rest⟩, read, rfl⟩ := Option.map_eq_some_iff.mp found
      exact isName_ofList.mpr (className?_isWord read)
  | kotlin =>
      rcases (Option.orElse_eq_some _ _ _).mp found with named | ⟨-, companion⟩
      · obtain ⟨⟨word, rest⟩, read, rfl⟩ := Option.map_eq_some_iff.mp named
        exact isName_ofList.mpr (className?_isWord read)
      · obtain ⟨⟨word?, supers⟩, read, rfl⟩ := Option.map_eq_some_iff.mp companion
        cases word? with
        | none => exact (by decide : isName "Companion" = true)
        | some word => exact isName_ofList.mpr (companion?_isWord read)

end Classes

section Methods

variable {text header : List Char} {head : MethodHead}

theorem nameAfterType?_isWord {rest name inside : List Char}
    (found : nameAfterType? text = some (rest, name, inside)) : ∀ c ∈ name, isWord c = true := by
  obtain ⟨⟨word, after⟩, wordRead, opened⟩ := Option.bind_eq_some_iff.mp found
  obtain ⟨inside', -, same⟩ := Option.map_eq_some_iff.mp opened
  cases same
  obtain ⟨front, -, wordFound⟩ := Option.bind_eq_some_iff.mp wordRead
  exact word?_isWord wordFound

theorem typeAndName?_isName {visibility : String}
    (found : typeAndName? visibility text = some head) : isName head.name = true := by
  unfold typeAndName? at found
  dsimp only at found
  split at found
  · cases found
  · obtain ⟨⟨afterType, name, inside⟩, read, rfl⟩ := Option.map_eq_some_iff.mp found
    apply isName_ofList.mpr
    rcases (Option.orElse_eq_some _ _ _).mp read with generic | ⟨-, plain⟩
    · split at generic
      · obtain ⟨rest, named⟩ := skipTo_reads generic
        exact nameAfterType?_isWord named
      · cases generic
    · exact nameAfterType?_isWord plain

theorem javaMethodHead?_isName (found : javaMethodHead? header = some head) :
    isName head.name = true := by
  obtain ⟨modifiers, rest, read⟩ := declared?_reads found
  rcases (Option.orElse_eq_some _ _ _).mp read with generic | ⟨-, plain⟩
  · obtain ⟨front, -, named⟩ := Option.bind_eq_some_iff.mp generic
    exact typeAndName?_isName named
  · exact typeAndName?_isName plain

theorem constructorHead?_isName (found : constructorHead? header = some head) :
    isName head.name = true := by
  obtain ⟨modifiers, rest, read⟩ := declared?_reads found
  obtain ⟨⟨name, after⟩, named, opened⟩ := Option.bind_eq_some_iff.mp read
  obtain ⟨inside, -, rfl⟩ := Option.map_eq_some_iff.mp opened
  exact isName_ofList.mpr (word?_isWord named)

theorem functionName?_isWord {name inside : List Char}
    (found : functionName? text = some (name, inside)) : ∀ c ∈ name, isWord c = true := by
  unfold functionName? at found
  dsimp only at found
  split at found
  · cases found
  · split at found
    · obtain ⟨rest, -, same⟩ := Option.map_eq_some_iff.mp found
      cases same
      exact fun c member => List.mem_takeWhile_imp (List.mem_reverse.mp member)
    · cases found

theorem kotlinFunctionHead?_isName (found : kotlinFunctionHead? header = some head) :
    isName head.name = true := by
  obtain ⟨modifiers, rest, read⟩ := declared?_reads found
  obtain ⟨⟨keyword, front⟩, -, after⟩ := Option.bind_eq_some_iff.mp read
  obtain ⟨⟨name, inside⟩, named, rfl⟩ := Option.map_eq_some_iff.mp after
  apply isName_ofList.mpr
  rcases (Option.orElse_eq_some _ _ _).mp named with generic | ⟨-, plain⟩
  · obtain ⟨⟨typeNames, back⟩, -, function⟩ := Option.bind_eq_some_iff.mp generic
    exact functionName?_isWord function
  · exact functionName?_isWord plain

theorem withTail?_name {α : Type} {tail? : List Char → Option (α × List Char)}
    {returnType : Option α → Option String} {read : MethodHeader}
    (found : withTail? header head tail? returnType = some read) : read.name = head.name := by
  unfold withTail? at found
  split at found
  · cases found
    rfl
  · obtain ⟨tail, -, rfl⟩ := Option.map_eq_some_iff.mp found
    rfl

theorem method?_isName {dialect : Dialect} {className : String} {read : MethodHeader}
    (found : method? dialect className header = some read) : isName read.name = true := by
  cases dialect with
  | kotlin =>
      obtain ⟨head, headRead, tailed⟩ := Option.bind_eq_some_iff.mp found
      rw [withTail?_name tailed]
      exact kotlinFunctionHead?_isName headRead
  | java =>
      rcases (Option.orElse_eq_some _ _ _).mp found with constructed | ⟨-, plain⟩
      · obtain ⟨head, headRead, tailed⟩ := Option.bind_eq_some_iff.mp constructed
        split at tailed
        · rw [withTail?_name tailed]
          exact constructorHead?_isName headRead
        · cases tailed
      · obtain ⟨head, headRead, tailed⟩ := Option.bind_eq_some_iff.mp plain
        split at tailed
        · cases tailed
        · rw [withTail?_name tailed]
          exact javaMethodHead?_isName headRead

end Methods
end MethodFlow.Header
