import MethodFlow.Declaration
import MethodFlow.Header.Reading
import MethodFlow.Header.TopLevel

/-!
The supertypes that a class header names.
-/
namespace MethodFlow.Header

open Text

def afterLastClosing? : List Char → Option (List Char)
  | [] => none
  | c :: text =>
    if c = '\n' then none
    else afterLastClosing? text <|> if c = ')' then some text else none

/-- Drops what stands from a `(` to the last `)` on its line, after passing over `skip`
characters. -/
def dropArgumentsFrom (skip : Nat) : List Char → List Char
  | [] => []
  | c :: text =>
    match skip with
    | skip + 1 => dropArgumentsFrom skip text
    | 0 =>
      if c = '(' then
        match afterLastClosing? text with
        | some rest => dropArgumentsFrom (text.length - rest.length) text
        | none => c :: dropArgumentsFrom 0 text
      else c :: dropArgumentsFrom 0 text

def dropArguments (text : List Char) : List Char :=
  dropArgumentsFrom 0 text

def startsDelegation (text : List Char) : Bool :=
  (((blanks? text).bind (after? "by".toList)).bind blanks?).isSome

def dropDelegation : List Char → List Char
  | [] => []
  | c :: text => if startsDelegation (c :: text) then [] else c :: dropDelegation text

def cleanType (text : List Char) : List Char :=
  collapse (dropDelegation (dropArguments text))

/-- The first type after `extends` is the superclass; further ones, which an interface may have, are
interfaces like those after `implements`. -/
def javaSupertypes (extended implemented : Option (List Char)) : Supertypes :=
  let supers := (extended.map splitCommas).getD []
  let interfaces := supers.drop 1 ++ (implemented.map splitCommas).getD []
  ⟨supers.head?.map String.ofList, interfaces.map String.ofList⟩

def kotlinSupertypes (supers : Option (List Char)) : Supertypes :=
  let names := (((supers.map splitCommas).getD []).map cleanType).filter fun name => !name.isEmpty
  ⟨names.head?.map String.ofList, (names.drop 1).map String.ofList⟩

end MethodFlow.Header
