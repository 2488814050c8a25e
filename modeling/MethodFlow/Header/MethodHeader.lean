import MethodFlow.Declaration
import MethodFlow.Header.Modifier
import MethodFlow.Parenthesis

/-!
Method headers: a head that ends at the parenthesis of the parameter list, the list up to the
parenthesis that closes it, and a tail that may state exceptions or a return type before the body.
While the list is still open the header has no tail.
-/
namespace MethodFlow.Header

open Text

structure MethodHeader where
  name : String
  visibility : String
  parameters : List Char
  returnType : Option String
  /-- Where the body, or what stands for it, starts in the header. -/
  tailStart : Option Nat
  deriving DecidableEq, Repr

structure MethodHead where
  name : String
  visibility : String
  returnType : List Char
  rest : List Char

def parenthesis? (text : List Char) : Option (List Char) :=
  match trimLeft text with
  | '(' :: rest => some rest
  | _ => none

def javaMethodModifiers : List String :=
  ["public", "private", "protected", "static", "final", "abstract", "synchronized", "native",
    "default", "strictfp"]

def constructorModifiers : List String :=
  ["public", "private", "protected"]

def kotlinFunctionModifiers : List String :=
  ["public", "private", "protected", "internal", "open", "override", "final", "abstract", "suspend",
    "inline", "operator", "infix", "tailrec", "external", "actual", "expect"]

def arrayBrackets? (text : List Char) : Option (List Char) :=
  match trimLeft text with
  | '[' :: rest =>
    match trimLeft rest with
    | ']' :: rest => some rest
    | _ => none
  | _ => none

def nameAfterType? (text : List Char) : Option (List Char × List Char × List Char) :=
  let rest := skipItems arrayBrackets? text.length text
  ((blanks? rest).bind word?).bind fun (name, afterName) =>
    (parenthesis? afterName).map fun inside => (rest, name, inside)

/-- A return type and a method name. The arguments of the type end at the first `>` after which the
head reads on. -/
def typeAndName? (visibility : String) (text : List Char) : Option MethodHead :=
  let isPart := fun c => isWord c || c == '.' || c == '$'
  let rest := text.dropWhile isPart
  if (text.takeWhile isPart).isEmpty then none
  else
    ((match trimLeft rest with
      | '<' :: rest => skipTo (· != '\n') '>' nameAfterType? rest
      | _ => none) <|> nameAfterType? rest).map fun (afterType, name, inside) =>
        ⟨String.ofList name, visibility, text.take (text.length - afterType.length), inside⟩

def typeVariables? (text : List Char) : Option (List Char) :=
  (bracketed? '<' '>' text).bind fun (names, rest) =>
    if names.isEmpty then none else blanks? rest

def javaMethodHead? (header : List Char) : Option MethodHead :=
  declared? javaMethodModifiers (fun modifiers rest =>
    ((typeVariables? rest).bind (typeAndName? (visibilityAmong modifiers))) <|>
      typeAndName? (visibilityAmong modifiers) rest) header

def constructorHead? (header : List Char) : Option MethodHead :=
  declared? constructorModifiers (fun modifiers rest =>
    (word? rest).bind fun (name, rest) =>
      (parenthesis? rest).map fun inside =>
        ⟨String.ofList name, visibilityAmong modifiers, [], inside⟩) header

def isReceiverPart (c : Char) : Bool :=
  isWord c || c == '.' || c == '<' || c == '>' || c == '?'

def functionName? (text : List Char) : Option (List Char × List Char) :=
  let qualified := text.takeWhile isReceiverPart
  let name := (qualified.reverse.takeWhile isWord).reverse
  let receiver := (qualified.reverse.dropWhile isWord).reverse
  if name.isEmpty then none
  else if receiver.isEmpty || (receiver.getLast? == some '.' && 1 < receiver.length) then
    (parenthesis? (text.dropWhile isReceiverPart)).map fun inside => (name, inside)
  else none

/-- A Kotlin function. What stands in angle brackets after `fun` are type parameters, or else
belongs to the receiver type. -/
def kotlinFunctionHead? (header : List Char) : Option MethodHead :=
  declared? kotlinFunctionModifiers (fun modifiers rest =>
    (keyword? ["fun"] rest).bind fun (_, rest) =>
      (((bracketed? '<' '>' rest).bind fun (_, rest) => functionName? (trimLeft rest)) <|>
        functionName? rest).map fun (name, inside) =>
          ⟨String.ofList name, visibilityAmong modifiers, [], inside⟩) header

/-- The body of a method, or what stands for it, by its first character. Nothing at all is a body
that is still to come. -/
def methodBody? (starts : List Char) (text : List Char) : Option (List Char) :=
  match trimLeft text with
  | [] => some []
  | c :: body => if starts.contains c && isOneLine body then some (c :: body) else none

def isExceptionListPart (c : Char) : Bool :=
  isWord c || c == '.' || c == ',' || isBlank c

def javaTail? (starts : List Char) (text : List Char) : Option (List Char) :=
  ((after? "throws".toList (trimLeft text)).bind fun rest =>
    ((runAfterBlanks 1 isExceptionListPart (methodBody? starts) rest).map Prod.snd) <|>
      methodBody? starts rest) <|>
  methodBody? starts text

def kotlinTail? (text : List Char) : Option (Option (List Char) × List Char) :=
  (match trimLeft text with
    | ':' :: rest =>
      (runAfterBlanks 0 (fun c => c != '{' && c != '=') (methodBody? ['{', '=']) rest).map
        fun (type, body) => (some type, body)
    | _ => none) <|>
  (methodBody? ['{', '='] text).map fun body => (none, body)

/-- Completes a head by its parameter list and its tail. The return type may depend on the tail,
which is missing while the list is open. -/
def withTail? {α : Type} (header : List Char) (head : MethodHead)
    (tail? : List Char → Option (α × List Char)) (returnType : Option α → Option String) :
    Option MethodHeader :=
  match closingOffset 1 head.rest with
  | none => some ⟨head.name, head.visibility, head.rest, returnType none, none⟩
  | some offset =>
    (tail? (head.rest.drop (offset + 1))).map fun (value, body) =>
      ⟨head.name, head.visibility, head.rest.take offset, returnType (some value),
        some (header.length - body.length)⟩

def kotlinReturnType (tail : Option (Option (List Char))) : Option String :=
  match tail.join with
  | some type => some (String.ofList (collapse type))
  | none => some "Unit"

def statementWords : List String :=
  ["return", "new", "else", "throw", "case", "yield", "package", "import"]

def withJavaTail? (header : List Char) (head : MethodHead) (starts : List Char)
    (returnType : Option String) : Option MethodHeader :=
  withTail? header head (fun text => (javaTail? starts text).map fun body => ((), body))
    fun _ => returnType

def constructor? (className : String) (header : List Char) : Option MethodHeader :=
  (constructorHead? header).bind fun head =>
    if head.name = className then withJavaTail? header head ['{'] none else none

def javaMethod? (header : List Char) : Option MethodHeader :=
  (javaMethodHead? header).bind fun head =>
    if statementWords.contains (String.ofList head.returnType) then none
    else withJavaTail? header head ['{', ';'] (some (String.ofList (collapse head.returnType)))

def method? (dialect : Dialect) (className : String) (header : List Char) : Option MethodHeader :=
  match dialect with
  | .kotlin =>
    (kotlinFunctionHead? header).bind fun head => withTail? header head kotlinTail? kotlinReturnType
  | .java => constructor? className header <|> javaMethod? header

end MethodFlow.Header
