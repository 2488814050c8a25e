import MethodFlow.MaskedLine
import MethodFlow.Proofs.Text.Word

/-!
Masking a line that is masked already changes nothing, and blanks around a line only come out as
blanks around its code and around its mask.
-/
namespace MethodFlow.MaskedLine

open Text

def IsPlain (c : Char) (rest : List Char) : Prop :=
  c = '/' → rest.head? ≠ some '/' ∧ rest.head? ≠ some '*'

namespace Mode

def after (c : Char) : Mode :=
  if isQuote c then .literal c else .code

def IsProper : Mode → Prop
  | .literal quote => isQuote quote = true
  | _ => True

/-- What code that was read in this mode is read in again: its comments are blank by then. -/
def uncommented : Mode → Mode
  | .comment => .code
  | mode => mode

theorem after_isProper (c : Char) : (after c).IsProper := by
  unfold after
  split
  · assumption
  · trivial

theorem after_uncommented (c : Char) : (after c).uncommented = after c := by
  unfold after
  split <;> rfl

end Mode

section Steps

variable {c quote : Char} {rest : List Char}

theorem isPlain_of_unlike (slash : ∀ tail, c = '/' → rest = '/' :: tail → False)
    (star : ∀ tail, c = '/' → rest = '*' :: tail → False) : IsPlain c rest := by
  intro first
  constructor
  · intro next
    obtain ⟨tail, more⟩ := List.head?_eq_some_iff.mp next
    exact slash tail first more
  · intro next
    obtain ⟨tail, more⟩ := List.head?_eq_some_iff.mp next
    exact star tail first more

theorem read_plain (plain : IsPlain c rest) :
    read .code (c :: rest) = (read (.after c) rest).push c c := by
  apply read.eq_8
  · rintro tail rfl rfl
    exact (plain rfl).1 rfl
  · rintro tail rfl rfl
    exact (plain rfl).2 rfl

theorem read_closing (quotes : isQuote quote = true) (rest : List Char) :
    read (.literal quote) (quote :: rest) = (read .code rest).push quote quote := by
  have unescaped : ∀ (next : Char) (tail : List Char), quote = '\\' → rest = next :: tail →
      False := by
    rintro next tail rfl
    cases quotes
  rw [read.eq_5 _ _ _ unescaped, if_pos rfl]

theorem read_inside (escape : c = '\\' → rest = []) (inside : c ≠ quote) :
    read (.literal quote) (c :: rest) = (read (.literal quote) rest).push c ' ' := by
  have unescaped : ∀ (next : Char) (tail : List Char), c = '\\' → rest = next :: tail →
      False := by
    intro next tail backslash more
    cases (escape backslash).symm.trans more
  rw [read.eq_5 _ _ _ unescaped, if_neg inside]

theorem ne_of_isBlank {other : Char} (blank : isBlank c = true) (solid : isBlank other = false) :
    c ≠ other := by
  rintro rfl
  rw [blank] at solid
  cases solid

theorem isBlank_of_isQuote (quotes : isQuote quote = true) : isBlank quote = false := by
  rcases Bool.or_eq_true_iff.mp quotes with double | single
  · obtain rfl := beq_iff_eq.mp double
    decide
  · obtain rfl := beq_iff_eq.mp single
    decide

theorem isPlain_of_isBlank (blank : isBlank c = true) (rest : List Char) : IsPlain c rest :=
  fun slash => absurd slash (ne_of_isBlank blank (by decide))

theorem read_blank (blank : isBlank c = true) (rest : List Char) :
    read .code (c :: rest) = (read .code rest).push c c := by
  have unquoted : isQuote c ≠ true := by
    intro quotes
    rw [isBlank_of_isQuote quotes] at blank
    cases blank
  rw [read_plain (isPlain_of_isBlank blank rest), Mode.after, if_neg unquoted]

theorem read_comment_blank (blank : isBlank c = true) (rest : List Char) :
    read .comment (c :: rest) = (read .comment rest).pushBlank :=
  read.eq_3 c rest fun _ star _ => ne_of_isBlank blank (by decide) star

theorem read_literal_blank (quotes : isQuote quote = true) (blank : isBlank c = true)
    (rest : List Char) :
    read (.literal quote) (c :: rest) = (read (.literal quote) rest).push c ' ' :=
  read_inside (fun backslash => absurd backslash (ne_of_isBlank blank (by decide)))
    (ne_of_isBlank blank (isBlank_of_isQuote quotes))

end Steps

section Rereading

theorem head?_read_code (text : List Char) :
    (read .code text).mask.head? = (read .code text).code.head? ∧
      ∀ c, (read .code text).code.head? = some c → c = ' ' ∨ text.head? = some c := by
  generalize entered : Mode.code = mode
  fun_cases read mode text with
  | case1 => simp
  | case7 tail => simp
  | case8 rest => simp [pushBlank, push]
  | case9 c rest => simp [push]
  | _ => cases entered

theorem IsPlain.masked {c : Char} {rest : List Char} (plain : IsPlain c rest) :
    IsPlain c (read (.after c) rest).code ∧ IsPlain c (read (.after c) rest).mask := by
  have same (slash : c = '/') :
      (read (.after c) rest).mask.head? = (read (.after c) rest).code.head? := by
    subst slash
    exact (head?_read_code rest).1
  have code : IsPlain c (read (.after c) rest).code := by
    rintro rfl
    obtain ⟨noSlash, noStar⟩ := plain rfl
    have first := (head?_read_code rest).2
    refine ⟨fun begins => ?_, fun begins => ?_⟩
    · exact (first _ begins).elim (by decide) noSlash
    · exact (first _ begins).elim (by decide) noStar
  refine ⟨code, fun slash => ?_⟩
  rw [same slash]
  exact code slash

/-- A text that is its own code, and its mask. -/
def Rereads (mode : Mode) (text mask : List Char) : Prop :=
  read mode text = ⟨text, mask, false⟩

namespace Rereads

variable {text mask : List Char} {c quote : Char}

theorem blank (same : Rereads .code text mask) : Rereads .code (' ' :: text) (' ' :: mask) := by
  rw [Rereads, read_blank (by decide), same, push]

theorem plain (same : Rereads (.after c) text mask) (plain : IsPlain c text) :
    Rereads .code (c :: text) (c :: mask) := by
  rw [Rereads, read_plain plain, same, push]

theorem closing (same : Rereads .code text mask) (quotes : isQuote quote = true) :
    Rereads (.literal quote) (quote :: text) (quote :: mask) := by
  rw [Rereads, read_closing quotes, same, push]

theorem inside (same : Rereads (.literal quote) text mask) (escape : c = '\\' → text = [])
    (inside : c ≠ quote) : Rereads (.literal quote) (c :: text) (' ' :: mask) := by
  rw [Rereads, read_inside escape inside, same, push]

theorem insideBlank (same : Rereads (.literal quote) text mask) (quotes : isQuote quote = true) :
    Rereads (.literal quote) (' ' :: text) (' ' :: mask) := by
  rw [Rereads, read_literal_blank quotes (by decide), same, push]

end Rereads

theorem read_rereads {mode : Mode} (proper : mode.IsProper) (line : List Char) :
    Rereads mode.uncommented (read mode line).code (read mode line).mask ∧
      Rereads mode.uncommented (read mode line).mask (read mode line).mask := by
  fun_induction read mode line with
  | case1 mode => cases mode <;> exact ⟨rfl, rfl⟩
  | case2 rest ih =>
      obtain ⟨code, mask⟩ := ih trivial
      exact ⟨code.blank.blank, mask.blank.blank⟩
  | case3 c rest _ ih =>
      obtain ⟨code, mask⟩ := ih trivial
      exact ⟨code.blank, mask.blank⟩
  | case4 quote c rest ih =>
      obtain ⟨code, mask⟩ := ih proper
      refine ⟨?_, (mask.insideBlank proper).insideBlank proper⟩
      simp only [Mode.uncommented, Rereads, push, read] at code ⊢
      rw [code]
  | case5 quote rest _ ih =>
      obtain ⟨code, mask⟩ := ih trivial
      exact ⟨code.closing proper, mask.closing proper⟩
  | case6 quote c rest escape inside ih =>
      obtain ⟨code, mask⟩ := ih proper
      refine ⟨code.inside (fun backslash => ?_) inside, mask.insideBlank proper⟩
      cases rest with
      | nil => rfl
      | cons next tail => exact (escape next tail backslash rfl).elim
  | case7 tail => exact ⟨rfl, rfl⟩
  | case8 rest ih =>
      obtain ⟨code, mask⟩ := ih trivial
      exact ⟨code.blank.blank, mask.blank.blank⟩
  | case9 c rest slash star ih =>
      obtain ⟨code, mask⟩ := ih (Mode.after_isProper c)
      rw [← Mode.after, Mode.after_uncommented] at code mask
      obtain ⟨plainCode, plainMask⟩ := (isPlain_of_unlike slash star).masked
      exact ⟨code.plain plainCode, mask.plain plainMask⟩

/-- Masking code that has no comments any more finds none, and masking a mask changes nothing. -/
theorem ofLine_rereads (inComment : Bool) (line : List Char) :
    let masked := ofLine inComment line
    ofLine false masked.code = ⟨masked.code, masked.mask, false⟩ ∧
      ofLine false masked.mask = ⟨masked.mask, masked.mask, false⟩ := by
  cases inComment with
  | false => exact @read_rereads .code trivial line
  | true => exact @read_rereads .comment trivial line

end Rereading

section Padding

def EndsBlank (line longer : MaskedLine) : Prop :=
  ∃ codeEnd maskEnd : List Char, (∀ c ∈ codeEnd, isBlank c = true) ∧
    (∀ c ∈ maskEnd, isBlank c = true) ∧
    longer = ⟨line.code ++ codeEnd, line.mask ++ maskEnd, line.inComment⟩

namespace EndsBlank

variable {line longer : MaskedLine}

theorem refl (line : MaskedLine) : EndsBlank line line :=
  ⟨[], [], by simp, by simp, by simp⟩

theorem push (ends : EndsBlank line longer) (c m : Char) :
    EndsBlank (line.push c m) (longer.push c m) := by
  obtain ⟨codeEnd, maskEnd, codeBlank, maskBlank, rfl⟩ := ends
  exact ⟨codeEnd, maskEnd, codeBlank, maskBlank, rfl⟩

theorem pushBlank (ends : EndsBlank line longer) : EndsBlank line.pushBlank longer.pushBlank :=
  ends.push ' ' ' '

theorem trimmed_eq (ends : EndsBlank line longer) : longer.trimmed = line.trimmed := by
  obtain ⟨codeEnd, maskEnd, codeBlank, maskBlank, rfl⟩ := ends
  simp only [trimmed, trim_append_blanks _ codeBlank, trim_append_blanks _ maskBlank]

end EndsBlank

variable {blanks : List Char} (blank : ∀ c ∈ blanks, isBlank c = true)

include blank

theorem read_blanks {mode : Mode} (proper : mode.IsProper) :
    EndsBlank (read mode []) (read mode blanks) := by
  induction blanks with
  | nil => exact .refl _
  | cons c rest ih =>
      obtain ⟨codeEnd, maskEnd, codeBlank, maskBlank, ends⟩ :=
        ih fun c member => blank c (List.mem_cons_of_mem _ member)
      have first := blank c List.mem_cons_self
      have space : isBlank ' ' = true := by decide
      cases mode with
      | code =>
          rw [read_blank first, ends]
          exact ⟨c :: codeEnd, c :: maskEnd, List.forall_mem_cons.mpr ⟨first, codeBlank⟩,
            List.forall_mem_cons.mpr ⟨first, maskBlank⟩, rfl⟩
      | comment =>
          rw [read_comment_blank first, ends]
          exact ⟨' ' :: codeEnd, ' ' :: maskEnd, List.forall_mem_cons.mpr ⟨space, codeBlank⟩,
            List.forall_mem_cons.mpr ⟨space, maskBlank⟩, rfl⟩
      | literal quote =>
          rw [read_literal_blank proper first, ends]
          exact ⟨c :: codeEnd, ' ' :: maskEnd, List.forall_mem_cons.mpr ⟨first, codeBlank⟩,
            List.forall_mem_cons.mpr ⟨space, maskBlank⟩, rfl⟩

theorem head?_append_blanks {rest : List Char} {c : Char} (solid : isBlank c = false)
    (first : (rest ++ blanks).head? = some c) : rest.head? = some c := by
  cases rest with
  | cons next tail => exact first
  | nil =>
      obtain ⟨tail, rfl⟩ := List.head?_eq_some_iff.mp first
      rw [blank c List.mem_cons_self] at solid
      cases solid

theorem IsPlain.append_blanks {c : Char} {rest : List Char} (plain : IsPlain c rest) :
    IsPlain c (rest ++ blanks) := by
  intro slash
  obtain ⟨noSlash, noStar⟩ := plain slash
  exact ⟨fun first => noSlash (head?_append_blanks blank (by decide) first),
    fun first => noStar (head?_append_blanks blank (by decide) first)⟩

/-- A backslash at the end of a line takes the first of the blanks with it, which changes the mask
by one more blank. -/
theorem read_escape_blanks {quote : Char} (quotes : isQuote quote = true) :
    EndsBlank ((read (.literal quote) []).push '\\' ' ')
      (read (.literal quote) ('\\' :: blanks)) := by
  have inside : '\\' ≠ quote := by
    rintro rfl
    cases quotes
  cases blanks with
  | nil =>
      rw [read_inside (fun _ => rfl) inside]
      exact .refl _
  | cons c rest =>
      obtain ⟨first, others⟩ := List.forall_mem_cons.mp blank
      obtain ⟨codeEnd, maskEnd, codeBlank, maskBlank, ends⟩ :=
        read_blanks others (show (Mode.literal quote).IsProper from quotes)
      rw [read.eq_4, ends]
      exact ⟨c :: codeEnd, ' ' :: maskEnd, List.forall_mem_cons.mpr ⟨first, codeBlank⟩,
        List.forall_mem_cons.mpr ⟨by decide, maskBlank⟩, rfl⟩

theorem read_append_blanks {mode : Mode} (proper : mode.IsProper) (line : List Char) :
    EndsBlank (read mode line) (read mode (line ++ blanks)) := by
  fun_induction read mode line with
  | case1 mode => exact read_blanks blank proper
  | case2 rest ih =>
      rw [List.cons_append, List.cons_append, read]
      exact (ih trivial).pushBlank.pushBlank
  | case3 c rest unlike ih =>
      rw [List.cons_append, read.eq_3]
      · exact (ih trivial).pushBlank
      · intro tail star more
        have next : rest.head? = some '/' :=
          head?_append_blanks blank (by decide) (by rw [more]; rfl)
        obtain ⟨others, rfl⟩ := List.head?_eq_some_iff.mp next
        exact unlike others star rfl
  | case4 quote c rest ih =>
      rw [List.cons_append, List.cons_append, read]
      exact ((ih proper).push c ' ').push '\\' ' '
  | case5 quote rest _ ih =>
      rw [List.cons_append, read_closing proper]
      exact (ih trivial).push quote quote
  | case6 quote c rest escape inside ih =>
      by_cases alone : c = '\\'
      · subst alone
        cases rest with
        | nil => exact read_escape_blanks blank proper
        | cons next tail => exact (escape next tail rfl rfl).elim
      · rw [List.cons_append, read_inside (fun backslash => absurd backslash alone) inside]
        exact (ih proper).push c ' '
  | case7 tail => exact .refl _
  | case8 rest ih =>
      rw [List.cons_append, List.cons_append, read]
      exact (ih trivial).pushBlank.pushBlank
  | case9 c rest slash star ih =>
      have plain := (isPlain_of_unlike slash star).append_blanks blank
      rw [List.cons_append, read_plain plain]
      exact (ih (Mode.after_isProper c)).push c c

theorem trimmed_blanks_append (inComment : Bool) (line : List Char) :
    (ofLine inComment (blanks ++ line)).trimmed = (ofLine inComment line).trimmed := by
  have pushed {c m : Char} (front : isBlank c = true ∧ isBlank m = true) (line : MaskedLine) :
      (line.push c m).trimmed = line.trimmed := by
    simp [trimmed, push, trim, trimLeft, front]
  induction blanks with
  | nil => rfl
  | cons c blanks ih =>
      obtain ⟨first, others⟩ := List.forall_mem_cons.mp blank
      rw [← ih others, List.cons_append]
      cases inComment with
      | false =>
          rw [ofLine, if_neg Bool.false_ne_true, read_blank first, pushed ⟨first, first⟩]
          rfl
      | true =>
          rw [ofLine, if_pos rfl, read_comment_blank first, pushBlank, pushed (by decide)]
          rfl

theorem trimmed_padded {after : List Char} (blankAfter : ∀ c ∈ after, isBlank c = true)
    (inComment : Bool) (line : List Char) :
    (ofLine inComment (blanks ++ line ++ after)).trimmed = (ofLine inComment line).trimmed := by
  rw [List.append_assoc, trimmed_blanks_append blank]
  cases inComment with
  | false => exact (@read_append_blanks _ blankAfter .code trivial line).trimmed_eq
  | true => exact (@read_append_blanks _ blankAfter .comment trivial line).trimmed_eq

end Padding
end MethodFlow.MaskedLine
