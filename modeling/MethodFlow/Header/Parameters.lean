import MethodFlow.Declaration
import MethodFlow.Header.TopLevel

/-!
Parameter lists. Items that do not have the shape of a parameter are left out.
-/
namespace MethodFlow.Header

open Text

def isAnnotationWord (word : List Char) : Bool :=
  word.head? == some '@'

def parameterOfWords? (words : List (List Char)) : Option Parameter :=
  let words := words.filter fun word => !isAnnotationWord word && word != "final".toList
  match words.getLast?, words.dropLast with
  | some name, type@(_ :: _) => some ⟨String.ofList name, String.ofList (unwords type)⟩
  | _, _ => none

def kotlinParameter? (item : List Char) : Option Parameter :=
  match item.dropWhile (· != ':') with
  | [] => none
  | _ :: rest =>
    let names := (words (item.takeWhile (· != ':'))).filter fun word => !isAnnotationWord word
    names.getLast?.map fun name =>
      ⟨String.ofList name, String.ofList (trim (rest.takeWhile (· != '=')))⟩

def parameters (dialect : Dialect) (text : List Char) : List Parameter :=
  (splitCommas text).filterMap fun item =>
    match dialect with
    | .java => parameterOfWords? (words item)
    | .kotlin => kotlinParameter? item

end MethodFlow.Header
