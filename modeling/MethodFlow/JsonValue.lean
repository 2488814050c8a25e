import MethodFlow.Text.Quoted

/-!
JSON values with whole numbers, and their printed form: two spaces of indentation for each level,
one item to a line, and ASCII only.
-/
namespace MethodFlow

inductive JsonValue where
  | null
  | bool (value : Bool)
  | int (value : Int)
  | str (value : String)
  | arr (items : List JsonValue)
  | obj (fields : List (String × JsonValue))
  deriving Inhabited, Repr

namespace JsonValue

def unitEscape (unit : Nat) : List Char :=
  '\\' :: 'u' :: Text.hexDigits 4 unit

def codeEscape (code : Nat) : List Char :=
  if code < 0x10000 then unitEscape code
  else
    unitEscape (0xd800 + (code - 0x10000) / 0x400) ++ unitEscape (0xdc00 + (code - 0x10000) % 0x400)

def escapeChar (c : Char) : List Char :=
  if c == '"' || c == '\\' then ['\\', c]
  else if c == '\n' then ['\\', 'n']
  else if c == '\r' then ['\\', 'r']
  else if c == '\t' then ['\\', 't']
  else if c == '\x08' then ['\\', 'b']
  else if c == '\x0c' then ['\\', 'f']
  else if ' ' ≤ c && c ≤ '~' then [c]
  else codeEscape c.toNat

def renderString (text : String) : List Char :=
  '"' :: text.toList.flatMap escapeChar ++ ['"']

def renderInt (value : Int) : List Char :=
  (toString value).toList

def newline (level : Nat) : List Char :=
  '\n' :: List.replicate (2 * level) ' '

mutual

def renderAt (level : Nat) : JsonValue → List Char
  | .null => "null".toList
  | .bool true => "true".toList
  | .bool false => "false".toList
  | .int value => renderInt value
  | .str value => renderString value
  | .arr [] => ['[', ']']
  | .arr (item :: items) =>
    '[' :: newline (level + 1) ++ renderAt (level + 1) item ++ renderItems (level + 1) items ++
      newline level ++ [']']
  | .obj [] => ['{', '}']
  | .obj ((name, value) :: fields) =>
    '{' :: newline (level + 1) ++ renderString name ++ [':', ' '] ++ renderAt (level + 1) value ++
      renderFields (level + 1) fields ++ newline level ++ ['}']

def renderItems (level : Nat) : List JsonValue → List Char
  | [] => []
  | item :: items => ',' :: newline level ++ renderAt level item ++ renderItems level items

def renderFields (level : Nat) : List (String × JsonValue) → List Char
  | [] => []
  | (name, value) :: fields =>
    ',' :: newline level ++ renderString name ++ [':', ' '] ++ renderAt level value ++
      renderFields level fields

end

def render (value : JsonValue) : String :=
  String.ofList (renderAt 0 value)

def strings (texts : List String) : JsonValue :=
  .arr (texts.map .str)

end JsonValue
end MethodFlow
