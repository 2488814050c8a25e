import MethodFlow.JsonValue
import Mathlib.Data.Nat.Digits.Defs

/-!
Texts and numbers as they are printed. What is printed at the start of a longer text tells both the
text or the number and where it ends; and it is ASCII.
-/
namespace MethodFlow

namespace Text

theorem hexDigits_one {n : Nat} (small : n < 16) : hexDigits 1 n = [n.digitChar] := by
  simp [hexDigits, Nat.toDigits_of_lt_base small]

theorem hexDigits_succ (count n : Nat) :
    hexDigits (count + 2) n = hexDigits (count + 1) (n / 16) ++ [(n % 16).digitChar] := by
  unfold hexDigits
  by_cases small : n < 16
  · have quotient : n / 16 = 0 := Nat.div_eq_of_lt small
    rw [Nat.toDigits_of_lt_base small, quotient, Nat.toDigits_zero, Nat.mod_eq_of_lt small]
    simp [← List.replicate_succ']
  · rw [Nat.toDigits_of_base_le (by decide) (Nat.not_lt.mp small)]
    simp

theorem digitChar_injective {m n : Nat} (mSmall : m < 16) (nSmall : n < 16)
    (same : m.digitChar = n.digitChar) : m = n := by
  have all : ∀ m < 16, ∀ n < 16, m.digitChar = n.digitChar → m = n := by decide
  exact all m mSmall n nSmall same

theorem hexDigits_injective {count m n : Nat} (mSmall : m < 16 ^ (count + 1))
    (nSmall : n < 16 ^ (count + 1)) (same : hexDigits (count + 1) m = hexDigits (count + 1) n) :
    m = n := by
  induction count generalizing m n with
  | zero =>
      rw [hexDigits_one mSmall, hexDigits_one nSmall] at same
      exact digitChar_injective mSmall nSmall (List.singleton_inj.mp same)
  | succ count ih =>
      rw [hexDigits_succ, hexDigits_succ] at same
      obtain ⟨front, last⟩ := List.append_inj' same rfl
      have bound : 16 ^ (count + 1 + 1) = 16 ^ (count + 1) * 16 := Nat.pow_succ _ _
      have quotient : m / 16 = n / 16 := ih (by omega) (by omega) front
      have remainder : m % 16 = n % 16 :=
        digitChar_injective (by omega) (by omega) (List.singleton_inj.mp last)
      omega

theorem hexDigits_length {count n : Nat} (small : n < 16 ^ (count + 1)) :
    (hexDigits (count + 1) n).length = count + 1 := by
  have short := Nat.toDigits_length 16 n (count + 1) (Nat.succ_pos count) small
  simp [hexDigits, Nat.sub_add_cancel short]

theorem hexDigits_ascii {count n : Nat} (small : n < 16 ^ (count + 1)) :
    ∀ c ∈ hexDigits (count + 1) n, c.toNat < 0x80 := by
  have digit : ∀ digit < 16, digit.digitChar.toNat < 0x80 := by decide
  induction count generalizing n with
  | zero =>
      rw [hexDigits_one small]
      exact List.forall_mem_singleton.mpr (digit n small)
  | succ count ih =>
      have bound : 16 ^ (count + 1 + 1) = 16 ^ (count + 1) * 16 := Nat.pow_succ _ _
      rw [hexDigits_succ, List.forall_mem_append]
      exact ⟨ih (by omega), List.forall_mem_singleton.mpr (digit (n % 16) (by omega))⟩

end Text

namespace JsonValue

theorem scalar_cases (c : Char) :
    c.toNat < 0xd800 ∨ 0xdfff < c.toNat ∧ c.toNat < 0x110000 :=
  c.valid

theorem unitEscape_append_inj {m n : Nat} {rest rest' : List Char} (mSmall : m < 0x10000)
    (nSmall : n < 0x10000) (same : unitEscape m ++ rest = unitEscape n ++ rest') :
    m = n ∧ rest = rest' := by
  simp only [unitEscape, List.cons_append, List.cons.injEq, true_and] at same
  have length : (Text.hexDigits 4 m).length = (Text.hexDigits 4 n).length := by
    rw [Text.hexDigits_length mSmall, Text.hexDigits_length nSmall]
  obtain ⟨digits, rests⟩ := List.append_inj same length
  exact ⟨Text.hexDigits_injective mSmall nSmall digits, rests⟩

/-- The units that two characters begin with tell them apart: the first of two units is none that a
character has by itself. -/
theorem codeEscape_append_inj {c d : Char} {rest rest' : List Char}
    (same : codeEscape c.toNat ++ rest = codeEscape d.toNat ++ rest') : c = d ∧ rest = rest' := by
  have cScalar := scalar_cases c
  have dScalar := scalar_cases d
  unfold codeEscape at same
  split at same
  · rename_i cSmall
    split at same
    · rename_i dSmall
      obtain ⟨codes, rests⟩ := unitEscape_append_inj cSmall dSmall same
      exact ⟨Char.toNat_inj.mp codes, rests⟩
    · rw [List.append_assoc] at same
      have units := (unitEscape_append_inj (by omega) (by omega) same).1
      omega
  · rw [List.append_assoc] at same
    split at same
    · have units := (unitEscape_append_inj (by omega) (by omega) same).1
      omega
    · rw [List.append_assoc] at same
      obtain ⟨first, seconds⟩ := unitEscape_append_inj (by omega) (by omega) same
      obtain ⟨second, rests⟩ := unitEscape_append_inj (by omega) (by omega) seconds
      exact ⟨Char.toNat_inj.mp (by omega), rests⟩

def letterEscapes : List (Char × Char) :=
  [('"', '"'), ('\\', '\\'), ('\n', 'n'), ('\r', 'r'), ('\t', 't'), ('\x08', 'b'), ('\x0c', 'f')]

/-- How a character is written: by a letter, as it is, or by its code. -/
theorem escapeChar_cases (c : Char) :
    (∃ letter, (c, letter) ∈ letterEscapes ∧ escapeChar c = ['\\', letter]) ∨
      (c ≠ '\\' ∧ c ≠ '"' ∧ c.toNat < 0x80 ∧ escapeChar c = [c]) ∨
      escapeChar c = codeEscape c.toNat := by
  by_cases listed : ∃ letter, (c, letter) ∈ letterEscapes
  · left
    obtain ⟨letter, member⟩ := listed
    refine ⟨letter, member, ?_⟩
    have written : ∀ escape ∈ letterEscapes, escapeChar escape.1 = ['\\', escape.2] := by decide
    exact written (c, letter) member
  · right
    have unlisted : ∀ escape ∈ letterEscapes, c ≠ escape.1 := by
      rintro ⟨other, letter⟩ member rfl
      exact listed ⟨letter, member⟩
    simp only [letterEscapes, List.forall_mem_cons, List.not_mem_nil, false_implies, implies_true,
      and_true] at unlisted
    obtain ⟨quote, backslash, lineFeed, carriageReturn, tab, backspace, formFeed⟩ := unlisted
    simp only [escapeChar, beq_iff_eq, Bool.or_eq_true, quote, backslash, lineFeed,
      carriageReturn, tab, backspace, formFeed, or_self, if_false]
    split
    · rename_i printable
      left
      have last : c ≤ '~' := by simpa using (Bool.and_eq_true_iff.mp printable).2
      have bound : c.toNat ≤ '~'.toNat := last
      exact ⟨backslash, quote, Nat.lt_of_le_of_lt bound (by decide), rfl⟩
    · exact .inr rfl

theorem codeEscape_head (code : Nat) : ∃ text, codeEscape code = '\\' :: 'u' :: text := by
  unfold codeEscape
  split
  · exact ⟨Text.hexDigits 4 code, rfl⟩
  · rw [unitEscape, List.cons_append, List.cons_append]
    exact ⟨_, rfl⟩

theorem escapeChar_append_inj {c d : Char} {rest rest' : List Char}
    (same : escapeChar c ++ rest = escapeChar d ++ rest') : c = d ∧ rest = rest' := by
  have letters : ∀ one ∈ letterEscapes, ∀ other ∈ letterEscapes,
      one.2 = other.2 → one.1 = other.1 := by decide
  have notCode : ∀ escape ∈ letterEscapes, escape.2 ≠ 'u' := by decide
  obtain ⟨cText, cCoded⟩ := codeEscape_head c.toNat
  obtain ⟨dText, dCoded⟩ := codeEscape_head d.toNat
  rcases escapeChar_cases c with
    ⟨cLetter, cListed, cWritten⟩ | ⟨cOpen, -, -, cWritten⟩ | cWritten
  · rw [cWritten] at same
    rcases escapeChar_cases d with
      ⟨dLetter, dListed, dWritten⟩ | ⟨dOpen, -, -, dWritten⟩ | dWritten
    · rw [dWritten] at same
      simp only [List.cons_append, List.nil_append, List.cons.injEq, true_and] at same
      exact ⟨letters _ cListed _ dListed same.1, same.2⟩
    · rw [dWritten] at same
      exact absurd (List.cons.inj same).1.symm dOpen
    · rw [dWritten, dCoded] at same
      exact absurd (List.cons.inj (List.cons.inj same).2).1 (notCode _ cListed)
  · rw [cWritten] at same
    rcases escapeChar_cases d with ⟨dLetter, -, dWritten⟩ | ⟨-, -, -, dWritten⟩ | dWritten
    · rw [dWritten] at same
      exact absurd (List.cons.inj same).1 cOpen
    · rw [dWritten] at same
      exact List.cons.inj same
    · rw [dWritten, dCoded] at same
      exact absurd (List.cons.inj same).1 cOpen
  · rw [cWritten] at same
    rcases escapeChar_cases d with
      ⟨dLetter, dListed, dWritten⟩ | ⟨dOpen, -, -, dWritten⟩ | dWritten
    · rw [dWritten, cCoded] at same
      exact absurd (List.cons.inj (List.cons.inj same).2).1.symm (notCode _ dListed)
    · rw [dWritten, cCoded] at same
      exact absurd (List.cons.inj same).1.symm dOpen
    · rw [dWritten] at same
      exact codeEscape_append_inj same

theorem escapeChar_ne_quote (c : Char) (rest rest' : List Char) :
    '"' :: rest ≠ escapeChar c ++ rest' := by
  intro same
  obtain ⟨text, coded⟩ := codeEscape_head c.toNat
  rcases escapeChar_cases c with ⟨letter, -, written⟩ | ⟨-, notQuote, -, written⟩ | written
  · rw [written] at same
    exact absurd (List.cons.inj same).1 (by decide)
  · rw [written] at same
    exact absurd (List.cons.inj same).1.symm notQuote
  · rw [written, coded] at same
    exact absurd (List.cons.inj same).1 (by decide)

theorem flatMap_escapeChar_inj {text text' rest rest' : List Char}
    (same : text.flatMap escapeChar ++ '"' :: rest = text'.flatMap escapeChar ++ '"' :: rest') :
    text = text' ∧ rest = rest' := by
  induction text generalizing text' with
  | nil =>
      cases text' with
      | nil => exact ⟨rfl, (List.cons.inj same).2⟩
      | cons d text' =>
          rw [List.flatMap_cons, List.append_assoc] at same
          exact absurd same (escapeChar_ne_quote d _ _)
  | cons c text ih =>
      cases text' with
      | nil =>
          rw [List.flatMap_cons, List.append_assoc] at same
          exact absurd same.symm (escapeChar_ne_quote c _ _)
      | cons d text' =>
          rw [List.flatMap_cons, List.append_assoc, List.flatMap_cons, List.append_assoc] at same
          obtain ⟨rfl, later⟩ := escapeChar_append_inj same
          obtain ⟨rfl, rests⟩ := ih later
          exact ⟨rfl, rests⟩

theorem renderString_append_inj {text text' : String} {rest rest' : List Char}
    (same : renderString text ++ rest = renderString text' ++ rest') :
    text = text' ∧ rest = rest' := by
  simp only [renderString, List.cons_append, List.append_assoc, List.cons.injEq, true_and,
    List.nil_append] at same
  obtain ⟨texts, rests⟩ := flatMap_escapeChar_inj same
  exact ⟨String.toList_inj.mp texts, rests⟩

theorem codeEscape_ascii (c : Char) : ∀ d ∈ codeEscape c.toNat, d.toNat < 0x80 := by
  have scalar := scalar_cases c
  have unit {n : Nat} (small : n < 0x10000) : ∀ d ∈ unitEscape n, d.toNat < 0x80 := by
    rw [unitEscape, List.forall_mem_cons, List.forall_mem_cons]
    exact ⟨by decide, by decide, Text.hexDigits_ascii small⟩
  unfold codeEscape
  split
  · rename_i small
    exact unit small
  · rw [List.forall_mem_append]
    exact ⟨unit (by omega), unit (by omega)⟩

theorem renderString_ascii (text : String) : ∀ c ∈ renderString text, c.toNat < 0x80 := by
  have letters : ∀ escape ∈ letterEscapes, escape.2.toNat < 0x80 := by decide
  have escaped (c : Char) : ∀ d ∈ escapeChar c, d.toNat < 0x80 := by
    rcases escapeChar_cases c with ⟨letter, listed, written⟩ | ⟨-, -, ascii, written⟩ | written
    · rw [written, List.forall_mem_cons, List.forall_mem_singleton]
      exact ⟨by decide, letters _ listed⟩
    · rw [written, List.forall_mem_singleton]
      exact ascii
    · rw [written]
      exact codeEscape_ascii c
  intro c member
  simp only [renderString, List.cons_append, List.mem_cons, List.mem_append, List.mem_flatMap,
    List.not_mem_nil, or_false] at member
  rcases member with rfl | ⟨d, -, inEscape⟩ | rfl
  · decide
  · exact escaped d c inEscape
  · decide

def isNumeral (c : Char) : Bool :=
  c == '-' || c.isDigit

def EndsNumber (rest : List Char) : Prop :=
  ∀ c ∈ rest.head?, isNumeral c = false

theorem renderInt_eq (value : Int) : renderInt value =
    if 0 ≤ value then Nat.toDigits 10 value.toNat else '-' :: Nat.toDigits 10 (-value).toNat := by
  rw [renderInt, Int.toString_eq_repr, Int.repr_eq_if]
  split
  · rw [Nat.toList_repr]
  · rw [String.toList_append, Nat.toList_repr]
    rfl

theorem renderInt_injective : Function.Injective renderInt := by
  have digits : Function.Injective (Nat.toDigits 10) :=
    Function.LeftInverse.injective fun _ => Nat.ofDigitChars_ten_toDigits
  have unsigned (first second : Nat) : Nat.toDigits 10 first ≠ '-' :: Nat.toDigits 10 second := by
    intro same
    have sign : '-' ∈ Nat.toDigits 10 first := same ▸ List.mem_cons_self
    exact absurd (Nat.isDigit_of_mem_toDigits (by decide) (by decide) sign) (by decide)
  intro value other same
  rw [renderInt_eq, renderInt_eq] at same
  split at same
  · split at same
    · have magnitude := digits same
      omega
    · exact absurd same (unsigned _ _)
  · split at same
    · exact absurd same.symm (unsigned _ _)
    · have magnitude := digits (List.cons.inj same).2
      omega

theorem renderInt_cases (value : Int) : ∃ first digits, renderInt value = first :: digits ∧
    ∀ c ∈ first :: digits, isNumeral c = true := by
  have numerals (n : Nat) : ∀ c ∈ Nat.toDigits 10 n, isNumeral c = true := by
    intro c member
    have digit := Nat.isDigit_of_mem_toDigits (by decide) (by decide) member
    simp [isNumeral, digit]
  rw [renderInt_eq]
  split
  · have nonempty : Nat.toDigits 10 value.toNat ≠ [] := Nat.toDigits_ne_nil
    obtain ⟨first, digits, shown⟩ := List.exists_cons_of_ne_nil nonempty
    exact ⟨first, digits, shown, shown ▸ numerals _⟩
  · exact ⟨'-', _, rfl, List.forall_mem_cons.mpr ⟨by decide, numerals _⟩⟩

theorem renderInt_append_inj {value other : Int} {rest rest' : List Char}
    (ends : EndsNumber rest) (ends' : EndsNumber rest')
    (same : renderInt value ++ rest = renderInt other ++ rest') : value = other ∧ rest = rest' := by
  have taken (value : Int) {rest : List Char} (ends : EndsNumber rest) :
      (renderInt value ++ rest).takeWhile isNumeral = renderInt value := by
    obtain ⟨first, digits, shown, numerals⟩ := renderInt_cases value
    rw [shown, List.takeWhile_append_of_pos numerals]
    cases rest with
    | nil => simp
    | cons c rest => simp [ends c rfl]
  have texts : renderInt value = renderInt other := by
    rw [← taken value ends, same, taken other ends']
  exact ⟨renderInt_injective texts, List.append_cancel_left (texts ▸ same)⟩

theorem renderInt_ascii (value : Int) : ∀ c ∈ renderInt value, c.toNat < 0x80 := by
  obtain ⟨first, digits, shown, numerals⟩ := renderInt_cases value
  intro c member
  rw [shown] at member
  rcases Bool.or_eq_true_iff.mp (numerals c member) with minus | digit
  · rw [beq_iff_eq.mp minus]
    decide
  · have last : c.val ≤ '9'.val := of_decide_eq_true (Bool.and_eq_true_iff.mp digit).2
    exact Nat.lt_of_le_of_lt (UInt32.le_iff_toNat_le.mp last) (by decide)

end JsonValue
end MethodFlow
