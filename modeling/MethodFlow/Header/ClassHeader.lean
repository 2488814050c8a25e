import MethodFlow.Header.Modifier
import MethodFlow.Header.Supertypes

/-!
Class headers. The name can be read off the first line of a header; the supertypes only once the
header, with its lines joined, reads as a whole up to its end or to the start of the body.
-/
namespace MethodFlow.Header

open Text

def javaClassModifiers : List String :=
  ["public", "private", "protected", "static", "final", "abstract", "sealed", "non-sealed",
    "strictfp"]

def javaClassKinds : List String :=
  ["class", "interface", "enum", "record"]

def kotlinClassModifiers : List String :=
  ["public", "private", "protected", "internal", "open", "final", "abstract", "sealed", "data",
    "enum", "inner", "annotation", "value", "inline", "expect", "actual"]

def kotlinClassKinds : List String :=
  ["class", "interface", "object"]

def className? (modifiers kinds : List String) (text : List Char) :
    Option (List Char × List Char) :=
  declared? modifiers (fun _ rest => ((keyword? kinds rest).map Prod.snd).bind word?) text

def classBody? (text : List Char) : Option Unit :=
  match trimLeft text with
  | [] => some ()
  | '{' :: body => if isOneLine body then some () else none
  | _ => none

def clause {α : Type} (keyword : String) (part : Char → Bool) (next? : List Char → Option α)
    (text : List Char) : Option (Option (List Char) × α) :=
  ((((blanks? text).bind (after? keyword.toList)).bind (runAfterBlanks 1 part next?)).map
      fun (run, value) => (some run, value)) <|>
    (next? text).map fun value => (none, value)

def isTypeListPart (c : Char) : Bool :=
  isWord c || c == '.' || c == '<' || c == '>' || c == ',' || c == '?' || isBlank c

def isNameListPart (c : Char) : Bool :=
  isWord c || c == '.' || c == ',' || isBlank c

def permits? (text : List Char) : Option Unit :=
  (clause "permits" isNameListPart classBody? text).map Prod.snd

def implements? (text : List Char) : Option (Option (List Char)) :=
  (clause "implements" isTypeListPart permits? text).map Prod.fst

def extends? (text : List Char) : Option Supertypes :=
  (clause "extends" isTypeListPart implements? text).map fun (extended, implemented) =>
    javaSupertypes extended implemented

def components? (text : List Char) : Option Supertypes :=
  ((bracketed? '(' ')' (trimLeft text)).bind fun (_, rest) => extends? rest) <|> extends? text

/-- Type parameters end at the first `>` after which the header reads on. -/
def typeParameters? (text : List Char) : Option Supertypes :=
  (match trimLeft text with
    | '<' :: rest => skipTo (· != '{') '>' components? rest
    | _ => none) <|> components? text

def javaClass? (header : List Char) : Option Supertypes :=
  (className? javaClassModifiers javaClassKinds header).bind fun (_, rest) => typeParameters? rest

def kotlinSupers? (text : List Char) : Option Supertypes :=
  (match trimLeft text with
    | ':' :: rest =>
      (runAfterBlanks 0 (· != '{') classBody? rest).map fun (run, _) => kotlinSupertypes (some run)
    | _ => none) <|>
    (classBody? text).map fun _ => kotlinSupertypes none

def primaryConstructor? (text : List Char) : Option Supertypes :=
  let rest := trimLeft text
  let rest := ((keyword? visibilities rest).map Prod.snd).getD rest
  let rest := ((after? "constructor".toList rest).map trimLeft).getD rest
  (match rest with
    | '(' :: rest => skipTo (· != '\n') ')' kotlinSupers? rest
    | _ => none) <|> kotlinSupers? text

def kotlinClass? (header : List Char) : Option Supertypes :=
  (className? kotlinClassModifiers kotlinClassKinds header).bind fun (_, rest) =>
    ((bracketed? '<' '>' (trimLeft rest)).bind fun (_, rest) => primaryConstructor? rest) <|>
      primaryConstructor? rest

def companion? (header : List Char) : Option (Option (List Char) × Supertypes) :=
  let rest := ((keyword? visibilities header).map Prod.snd).getD header
  ((keyword? ["companion"] rest).bind fun (_, rest) => after? "object".toList rest).bind fun rest =>
    (((blanks? rest).bind word?).bind fun (name, rest) =>
      (kotlinSupers? rest).map fun supers => (some name, supers)) <|>
    (kotlinSupers? rest).map fun supers => (none, supers)

def openedClass? (dialect : Dialect) (line : List Char) : Option String :=
  match dialect with
  | .java => (className? javaClassModifiers javaClassKinds line).map fun (name, _) =>
      String.ofList name
  | .kotlin =>
    ((className? kotlinClassModifiers kotlinClassKinds line).map fun (name, _) =>
      String.ofList name) <|>
    (companion? line).map fun (name, _) => (name.map String.ofList).getD "Companion"

def supertypes? (dialect : Dialect) (header : List Char) : Option Supertypes :=
  match dialect with
  | .java => javaClass? header
  | .kotlin => kotlinClass? header <|> (companion? header).map Prod.snd

end MethodFlow.Header
