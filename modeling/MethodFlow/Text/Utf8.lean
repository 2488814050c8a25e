import MethodFlow.Text.Position

/-!
Texts as bytes. Where bytes are no text, each longest piece that could have begun a character gives
one replacement character.
-/
namespace MethodFlow.Text.Utf8

def encode (text : List Char) : List UInt8 :=
  text.flatMap String.utf8EncodeChar

def replacement : Char :=
  Char.ofNat 0xfffd

structure Lead where
  following : Nat
  least : Nat
  greatest : Nat
  bits : Nat

/-- Overlong forms, surrogates and code points past the last one are ruled out by the range of the
second byte, or have no first byte at all. -/
def lead? (byte : Nat) : Option Lead :=
  if byte < 0x80 then some ⟨0, 0x80, 0xbf, byte⟩
  else if byte < 0xc2 then none
  else if byte < 0xe0 then some ⟨1, 0x80, 0xbf, byte - 0xc0⟩
  else if byte = 0xe0 then some ⟨2, 0xa0, 0xbf, 0⟩
  else if byte = 0xed then some ⟨2, 0x80, 0x9f, 0xd⟩
  else if byte < 0xf0 then some ⟨2, 0x80, 0xbf, byte - 0xe0⟩
  else if byte = 0xf0 then some ⟨3, 0x90, 0xbf, 0⟩
  else if byte < 0xf4 then some ⟨3, 0x80, 0xbf, byte - 0xf0⟩
  else if byte = 0xf4 then some ⟨3, 0x80, 0x8f, 4⟩
  else none

/-- Takes the bytes that follow a first byte: the character, or the replacement where one is
missing, and how many bytes were taken. -/
def follow : (following least greatest bits taken : Nat) → List UInt8 → Char × Nat
  | 0, _, _, bits, taken, _ => (Char.ofNat bits, taken)
  | _ + 1, _, _, _, taken, [] => (replacement, taken)
  | following + 1, least, greatest, bits, taken, byte :: bytes =>
    if least ≤ byte.toNat && byte.toNat ≤ greatest then
      follow following 0x80 0xbf (bits * 0x40 + byte.toNat % 0x40) (taken + 1) bytes
    else (replacement, taken)

def decodeFirst (byte : UInt8) (bytes : List UInt8) : Char × Nat :=
  match lead? byte.toNat with
  | some lead => follow lead.following lead.least lead.greatest lead.bits 0 bytes
  | none => (replacement, 0)

def decodeFrom (skip : Nat) : List UInt8 → List Char
  | [] => []
  | byte :: bytes =>
    match skip with
    | skip + 1 => decodeFrom skip bytes
    | 0 =>
      let (c, taken) := decodeFirst byte bytes
      c :: decodeFrom taken bytes

def decode (bytes : List UInt8) : List Char :=
  decodeFrom 0 bytes

def between (bytes : List UInt8) (first last : Int) : List Char :=
  decode (Text.between bytes first last)

end MethodFlow.Text.Utf8
