import MethodFlow.Text.Utf8

/-!
Texts are read back from their bytes. Each character is decoded from the bytes that encode it,
whatever follows (`decodeFirst_encoded`), and so the bytes between the offsets of two positions are
read as the characters between them (`between_byteOffset`).
-/
namespace MethodFlow.Text

theorem clampPosition_natCast (length position : Nat) :
    clampPosition length position = min length position := by
  rw [clampPosition, if_neg (by omega), Int.toNat_natCast]

theorem between_natCast {α : Type} (items : List α) (first last : Nat) :
    between items first last = (items.take last).drop first := by
  rw [between, clampPosition_natCast, clampPosition_natCast, ← List.drop_take,
    Nat.min_comm items.length last, ← List.take_eq_take_min]
  by_cases inside : first ≤ items.length
  · rw [Nat.min_eq_right inside]
  · have short : (items.take last).length ≤ items.length := List.length_take_le' last items
    rw [Nat.min_eq_left (by omega), List.drop_of_length_le short,
      List.drop_of_length_le (by omega)]

namespace Utf8

section Bytes

def following (bits : Nat) : UInt8 :=
  UInt8.ofNat (bits % 0x40 + 0x80)

theorem toNat_ofNat_of_lt {byte : Nat} (small : byte < 0x100) :
    (UInt8.ofNat byte).toNat = byte := by
  rw [UInt8.toNat_ofNat']
  exact Nat.mod_eq_of_lt small

theorem toNat_following (bits : Nat) : (following bits).toNat = bits % 0x40 + 0x80 :=
  toNat_ofNat_of_lt (by omega)

theorem follow_following {count least greatest bits taken next : Nat} {bytes : List UInt8}
    (low : least ≤ next % 0x40 + 0x80) (high : next % 0x40 + 0x80 ≤ greatest) :
    follow (count + 1) least greatest bits taken (following next :: bytes) =
      follow count 0x80 0xbf (bits * 0x40 + next % 0x40) (taken + 1) bytes := by
  have same : (following next).toNat % 0x40 = next % 0x40 := by
    rw [toNat_following]
    omega
  rw [follow, if_pos (by simp [toNat_following, low, high]), same]

theorem follow_further {count bits taken next : Nat} {bytes : List UInt8} :
    follow (count + 1) 0x80 0xbf bits taken (following next :: bytes) =
      follow count 0x80 0xbf (bits * 0x40 + next % 0x40) (taken + 1) bytes :=
  follow_following (by omega) (by omega)

end Bytes

section Leads

variable {code : Nat}

theorem lead?_one (small : code ≤ 0x7f) : lead? code = some ⟨0, 0x80, 0xbf, code⟩ := by
  rw [lead?, if_pos (by omega)]

theorem lead?_two (above : 0x7f < code) (small : code ≤ 0x7ff) :
    lead? (code / 0x40 % 0x20 + 0xc0) = some ⟨1, 0x80, 0xbf, code / 0x40⟩ := by
  have bits : code / 0x40 % 0x20 + 0xc0 - 0xc0 = code / 0x40 := by omega
  rw [lead?, if_neg (by omega), if_neg (by omega), if_pos (by omega), bits]

/-- A first byte admits the second byte of every code point that begins with it. -/
theorem lead?_three (above : 0x7ff < code) (small : code ≤ 0xffff)
    (proper : code < 0xd800 ∨ 0xdfff < code) :
    ∃ least greatest, lead? (code / 0x1000 % 0x10 + 0xe0) =
        some ⟨2, least, greatest, code / 0x1000⟩ ∧
      least ≤ code / 0x40 % 0x40 + 0x80 ∧ code / 0x40 % 0x40 + 0x80 ≤ greatest := by
  have bits : code / 0x1000 % 0x10 + 0xe0 - 0xe0 = code / 0x1000 := by omega
  rw [lead?, if_neg (by omega), if_neg (by omega), if_neg (by omega)]
  by_cases first : code / 0x1000 % 0x10 + 0xe0 = 0xe0
  · have none : code / 0x1000 = 0 := by omega
    rw [if_pos first, none]
    exact ⟨_, _, rfl, by omega, by omega⟩
  · rw [if_neg first]
    by_cases surrogate : code / 0x1000 % 0x10 + 0xe0 = 0xed
    · have thirteen : code / 0x1000 = 0xd := by omega
      rw [if_pos surrogate, thirteen]
      exact ⟨_, _, rfl, by omega, by omega⟩
    · rw [if_neg surrogate, if_pos (by omega), bits]
      exact ⟨_, _, rfl, by omega, by omega⟩

theorem lead?_four (above : 0xffff < code) (small : code < 0x110000) :
    ∃ least greatest, lead? (code / 0x40000 % 0x8 + 0xf0) =
        some ⟨3, least, greatest, code / 0x40000⟩ ∧
      least ≤ code / 0x1000 % 0x40 + 0x80 ∧ code / 0x1000 % 0x40 + 0x80 ≤ greatest := by
  have bits : code / 0x40000 % 0x8 + 0xf0 - 0xf0 = code / 0x40000 := by omega
  rw [lead?, if_neg (by omega), if_neg (by omega), if_neg (by omega), if_neg (by omega),
    if_neg (by omega), if_neg (by omega)]
  by_cases first : code / 0x40000 % 0x8 + 0xf0 = 0xf0
  · have none : code / 0x40000 = 0 := by omega
    rw [if_pos first, none]
    exact ⟨_, _, rfl, by omega, by omega⟩
  · rw [if_neg first]
    by_cases last : code / 0x40000 % 0x8 + 0xf0 < 0xf4
    · rw [if_pos last, bits]
      exact ⟨_, _, rfl, by omega, by omega⟩
    · have four : code / 0x40000 = 4 := by omega
      rw [if_neg last, if_pos (by omega), four]
      exact ⟨_, _, rfl, by omega, by omega⟩

end Leads

section Characters

variable {code : Nat} (rest : List UInt8)

theorem decodeFirst_one (small : code ≤ 0x7f) :
    decodeFirst (UInt8.ofNat code) rest = (Char.ofNat code, 0) := by
  rw [decodeFirst, toNat_ofNat_of_lt (by omega), lead?_one small]
  rfl

theorem decodeFirst_two (above : 0x7f < code) (small : code ≤ 0x7ff) :
    decodeFirst (UInt8.ofNat (code / 0x40 % 0x20 + 0xc0)) (following code :: rest) =
      (Char.ofNat code, 1) := by
  have bits : code / 0x40 * 0x40 + code % 0x40 = code := by omega
  rw [decodeFirst, toNat_ofNat_of_lt (by omega), lead?_two above small]
  dsimp only
  rw [follow_further, bits, follow]

theorem decodeFirst_three (above : 0x7ff < code) (small : code ≤ 0xffff)
    (proper : code < 0xd800 ∨ 0xdfff < code) :
    decodeFirst (UInt8.ofNat (code / 0x1000 % 0x10 + 0xe0))
      (following (code / 0x40) :: following code :: rest) = (Char.ofNat code, 2) := by
  have bits : (code / 0x1000 * 0x40 + code / 0x40 % 0x40) * 0x40 + code % 0x40 = code := by omega
  obtain ⟨least, greatest, leads, low, high⟩ := lead?_three above small proper
  rw [decodeFirst, toNat_ofNat_of_lt (by omega), leads]
  dsimp only
  rw [follow_following low high, follow_further, bits, follow]

theorem decodeFirst_four (above : 0xffff < code) (small : code < 0x110000) :
    decodeFirst (UInt8.ofNat (code / 0x40000 % 0x8 + 0xf0))
      (following (code / 0x1000) :: following (code / 0x40) :: following code :: rest) =
      (Char.ofNat code, 3) := by
  have bits : ((code / 0x40000 * 0x40 + code / 0x1000 % 0x40) * 0x40 + code / 0x40 % 0x40) * 0x40 +
      code % 0x40 = code := by
    omega
  obtain ⟨least, greatest, leads, low, high⟩ := lead?_four above small
  rw [decodeFirst, toNat_ofNat_of_lt (by omega), leads]
  dsimp only
  rw [follow_following low high, follow_further, follow_further, bits, follow]

theorem utf8EncodeChar_eq (c : Char) :
    String.utf8EncodeChar c =
      if c.toNat ≤ 0x7f then [UInt8.ofNat c.toNat]
      else if c.toNat ≤ 0x7ff then
        [UInt8.ofNat (c.toNat / 0x40 % 0x20 + 0xc0), following c.toNat]
      else if c.toNat ≤ 0xffff then
        [UInt8.ofNat (c.toNat / 0x1000 % 0x10 + 0xe0), following (c.toNat / 0x40),
          following c.toNat]
      else
        [UInt8.ofNat (c.toNat / 0x40000 % 0x8 + 0xf0), following (c.toNat / 0x1000),
          following (c.toNat / 0x40), following c.toNat] :=
  rfl

theorem decodeFirst_encoded (c : Char) :
    ∃ byte bytes, String.utf8EncodeChar c = byte :: bytes ∧
      decodeFirst byte (bytes ++ rest) = (c, bytes.length) := by
  have proper : c.toNat < 0xd800 ∨ 0xdfff < c.toNat ∧ c.toNat < 0x110000 := c.valid
  have back : Char.ofNat c.toNat = c := Char.ofNat_toNat c
  rw [utf8EncodeChar_eq]
  split
  · rename_i small
    exact ⟨_, _, rfl, (decodeFirst_one rest small).trans (by rw [back]; rfl)⟩
  · rename_i above
    split
    · rename_i small
      exact ⟨_, _, rfl, (decodeFirst_two rest (by omega) small).trans (by rw [back]; rfl)⟩
    · rename_i above
      split
      · rename_i small
        exact ⟨_, _, rfl,
          (decodeFirst_three rest (by omega) small (by omega)).trans (by rw [back]; rfl)⟩
      · exact ⟨_, _, rfl, (decodeFirst_four rest (by omega) (by omega)).trans (by rw [back]; rfl)⟩

end Characters

section Texts

@[simp] theorem encode_nil : encode [] = [] :=
  rfl

@[simp] theorem encode_cons (c : Char) (text : List Char) :
    encode (c :: text) = String.utf8EncodeChar c ++ encode text :=
  List.flatMap_cons

@[simp] theorem encode_append (left right : List Char) :
    encode (left ++ right) = encode left ++ encode right :=
  List.flatMap_append

theorem decodeFrom_length (taken rest : List UInt8) :
    decodeFrom taken.length (taken ++ rest) = decodeFrom 0 rest := by
  induction taken with
  | nil => rfl
  | cons byte taken ih => exact ih

theorem decode_encode (text : List Char) : decode (encode text) = text := by
  induction text with
  | nil => rfl
  | cons c text ih =>
      obtain ⟨byte, bytes, encoded, first⟩ := decodeFirst_encoded (encode text) c
      rw [encode_cons, encoded, List.cons_append, decode, decodeFrom]
      dsimp only
      rw [first, decodeFrom_length]
      exact congrArg (c :: ·) ih

def byteOffset (text : List Char) (position : Nat) : Nat :=
  (encode (text.take position)).length

theorem encode_take (text : List Char) (position : Nat) :
    encode (text.take position) = (encode text).take (byteOffset text position) := by
  have split : encode (text.take position) ++ encode (text.drop position) = encode text := by
    rw [← encode_append, List.take_append_drop]
  rw [← split, byteOffset, List.take_left]

theorem encode_drop (text : List Char) (position : Nat) :
    encode (text.drop position) = (encode text).drop (byteOffset text position) := by
  have split : encode (text.take position) ++ encode (text.drop position) = encode text := by
    rw [← encode_append, List.take_append_drop]
  rw [← split, byteOffset, List.drop_left]

theorem byteOffset_mono (text : List Char) {first last : Nat} (ordered : first ≤ last) :
    byteOffset text first ≤ byteOffset text last := by
  obtain ⟨more, longer⟩ := List.take_prefix_take_left (l := text) ordered
  rw [byteOffset, byteOffset, ← longer, encode_append, List.length_append]
  exact Nat.le_add_right _ _

/-- The bytes between two positions of a text are read as the characters between them. -/
theorem between_byteOffset (text : List Char) (first last : Nat) :
    between (encode text) (byteOffset text first) (byteOffset text last) =
      (text.take last).drop first := by
  rw [between, between_natCast, ← encode_take]
  by_cases ordered : first ≤ last
  · have offset : byteOffset (text.take last) first = byteOffset text first := by
      rw [byteOffset, List.take_take, Nat.min_eq_left ordered, byteOffset]
    rw [← offset, ← encode_drop, decode_encode]
  · have before : byteOffset text last ≤ byteOffset text first := byteOffset_mono text (by omega)
    have short : (text.take last).length ≤ last := List.length_take_le last text
    rw [List.drop_of_length_le before, List.drop_of_length_le (by omega)]
    rfl

end Texts

end Utf8
end MethodFlow.Text
