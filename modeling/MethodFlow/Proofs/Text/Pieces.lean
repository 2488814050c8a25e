import MethodFlow.Proofs.Text.Columns
import Mathlib.Data.List.Induction

/-!
Lines that are broken at single spaces outside of literals. If the line has no comments, then its
code and its mask, trimmed, are those of the pieces with a space between them.
-/
namespace MethodFlow

open Text

theorem Text.unwords_cons {piece : List Char} {pieces : List (List Char)} (more : pieces ≠ []) :
    unwords (piece :: pieces) = piece ++ ' ' :: unwords pieces := by
  cases pieces with
  | nil => exact absurd rfl more
  | cons next pieces => simp [unwords, List.intercalate_cons_cons]

theorem Text.unwords_append {front back : List (List Char)} (nonempty : front ≠ [])
    (more : back ≠ []) : unwords (front ++ back) = unwords front ++ ' ' :: unwords back := by
  induction front with
  | nil => exact absurd rfl nonempty
  | cons piece front ih =>
      cases front with
      | nil =>
          rw [List.singleton_append, unwords_cons more]
          simp [unwords]
      | cons next front =>
          have further := ih (List.cons_ne_nil next front)
          calc unwords (piece :: (next :: front ++ back))
            _ = piece ++ ' ' :: unwords (next :: front ++ back) := unwords_cons (by simp)
            _ = piece ++ ' ' :: (unwords (next :: front) ++ ' ' :: unwords back) := by rw [further]
            _ = unwords (piece :: next :: front) ++ ' ' :: unwords back := by
              rw [unwords_cons (List.cons_ne_nil next front), List.append_assoc, List.cons_append]

namespace MaskedLine

section Ends

theorem getLast?_cons_eq {m c : Char} {mask text : List Char} (same : mask.getLast? = text.getLast?)
    (single : text = [] → m = c) : (m :: mask).getLast? = (c :: text).getLast? := by
  rw [List.getLast?_cons, List.getLast?_cons, same]
  cases last : text.getLast? with
  | none => rw [single (List.getLast?_eq_none_iff.mp last)]
  | some d => rfl

theorem getLast?_read {mode : Mode} (proper : mode.IsProper) {text : List Char}
    (leads : modeAfter mode text = some .code) (uncommented : (read mode text).code = text) :
    (read mode text).mask.getLast? = text.getLast? := by
  -- Only literals are masked, and a literal is closed again before the end.
  fun_induction modeAfter mode text with
  | case1 mode => rfl
  | case2 rest ih =>
      rw [read] at uncommented
      cases (List.cons.inj uncommented).1
  | case3 c rest unlike ih =>
      rw [read.eq_3 _ _ unlike] at uncommented ⊢
      obtain ⟨space, further⟩ := List.cons.inj uncommented
      exact getLast?_cons_eq (ih trivial leads further) fun _ => space
  | case4 quote c rest ih =>
      rw [read] at uncommented ⊢
      obtain ⟨-, next⟩ := List.cons.inj uncommented
      obtain ⟨-, further⟩ := List.cons.inj next
      have nonempty : rest ≠ [] := by
        rintro rfl
        cases leads
      exact getLast?_cons_eq (getLast?_cons_eq (ih proper leads further) fun empty =>
        absurd empty nonempty) fun empty => absurd empty (List.cons_ne_nil c rest)
  | case5 quote c rest escape ih =>
      by_cases closing : c = quote
      · subst closing
        rw [if_pos rfl] at leads ih
        rw [read_closing proper] at uncommented ⊢
        exact getLast?_cons_eq (ih trivial leads (List.cons.inj uncommented).2) fun _ => rfl
      · rw [if_neg closing] at leads ih
        rw [read_inside (unescaped escape) closing] at uncommented ⊢
        have nonempty : rest ≠ [] := by
          rintro rfl
          rw [modeAfter_nil] at leads
          cases leads
        exact getLast?_cons_eq (ih proper leads (List.cons.inj uncommented).2) fun empty =>
          absurd empty nonempty
  | case6 tail => cases leads
  | case7 rest ih =>
      rw [read] at uncommented
      cases (List.cons.inj uncommented).1
  | case8 c rest slash star ih =>
      rw [read_plain (isPlain_of_unlike slash star)] at uncommented ⊢
      exact getLast?_cons_eq (ih (Mode.after_isProper c) leads (List.cons.inj uncommented).2)
        fun _ => rfl

end Ends

/-- A line may be broken at one space between these two parts. -/
structure IsBreak (left right : List Char) : Prop where
  outside : modeAfter .code left = some .code
  before : ∃ c, left.getLast? = some c ∧ isBlank c = false
  after : ∃ c, right.head? = some c ∧ isBlank c = false

instance (left right : List Char) : Decidable (IsBreak left right) :=
  decidable_of_iff (modeAfter .code left = some .code ∧
      left.getLast?.any (!isBlank ·) = true ∧ right.head?.any (!isBlank ·) = true) <| by
    simp only [Option.any_eq_true, Bool.not_eq_true']
    exact ⟨fun ⟨outside, before, after⟩ => ⟨outside, before, after⟩,
      fun ⟨outside, before, after⟩ => ⟨outside, before, after⟩⟩

theorem IsBreak.of_append {left right more : List Char}
    (broken : IsBreak left (right ++ ' ' :: more)) : IsBreak left right where
  outside := broken.outside
  before := broken.before
  after := by
    obtain ⟨c, first, solid⟩ := broken.after
    cases right with
    | nil =>
        obtain rfl : ' ' = c := Option.some.inj first
        cases solid
    | cons d rest => exact ⟨c, first, solid⟩

namespace IsBreak

variable {left right : List Char} (broken : IsBreak left right)

include broken

theorem ofLine_eq : ofLine false (left ++ ' ' :: right) =
    (ofLine false left).append ((ofLine false right).push ' ' ' ') := by
  have plain : StartsPlain (' ' :: right) := by
    intro c first
    obtain rfl := Option.some.inj first
    decide
  have parted := @read_append .code trivial left (' ' :: right) broken.outside plain
  rw [read_single (by decide) (by decide)] at parted
  exact parted

variable (uncommented : (ofLine false (left ++ ' ' :: right)).code = left ++ ' ' :: right)

include uncommented

theorem uncommented_parts :
    (ofLine false left).code = left ∧ (ofLine false right).code = right := by
  have bound : (ofLine false left).code.length ≤ left.length := (read_shows .code left).code.1
  have boundRight : (ofLine false right).code.length ≤ right.length :=
    (read_shows .code right).code.1
  rw [broken.ofLine_eq] at uncommented
  have lengths := congrArg List.length uncommented
  simp only [append, push, List.length_append, List.length_cons] at lengths
  obtain ⟨front, back⟩ := List.append_inj uncommented (by omega)
  exact ⟨front, (List.cons.inj back).2⟩

theorem getLast?_mask : (ofLine false left).mask.getLast? = left.getLast? :=
  @getLast?_read .code trivial left broken.outside (broken.uncommented_parts uncommented).1

theorem head?_mask : (ofLine false right).mask.head? = right.head? := by
  have same : (ofLine false right).mask.head? = (ofLine false right).code.head? :=
    (head?_read_code right).1
  rw [same, (broken.uncommented_parts uncommented).2]

end IsBreak

theorem trim_spaced {left right : List Char}
    (before : ∃ c, left.getLast? = some c ∧ isBlank c = false)
    (after : ∃ c, right.head? = some c ∧ isBlank c = false) :
    trim (left ++ ' ' :: right) = trim left ++ ' ' :: trim right := by
  obtain ⟨c, last, solid⟩ := before
  obtain ⟨d, first, solidRight⟩ := after
  obtain ⟨front, rfl⟩ := List.getLast?_eq_some_iff.mp last
  obtain ⟨back, rfl⟩ := List.head?_eq_some_iff.mp first
  have between := trimRight_append_cons solidRight [' '] back
  have ending := trim_append_cons solid front []
  have beginning := trim_append_cons solidRight [] back
  rw [List.append_assoc, List.singleton_append, trim_append_cons solid, ending,
    show ' ' :: d :: back = [' '] ++ d :: back from rfl, between,
    show d :: back = [] ++ d :: back from rfl, beginning]
  simp [trimRight, trimLeft]

theorem IsBreak.trimmed_eq {left right : List Char} (broken : IsBreak left right)
    (uncommented : (ofLine false (left ++ ' ' :: right)).code = left ++ ' ' :: right) :
    (ofLine false (left ++ ' ' :: right)).trimmed =
      (ofLine false left).trimmed.append ((ofLine false right).trimmed.push ' ' ' ') := by
  obtain ⟨code, codeRight⟩ := broken.uncommented_parts uncommented
  have last := broken.getLast?_mask uncommented
  have first := broken.head?_mask uncommented
  rw [broken.ofLine_eq]
  simp only [trimmed, append, push, code, codeRight, mk.injEq]
  exact ⟨trim_spaced broken.before broken.after,
    trim_spaced (last ▸ broken.before) (first ▸ broken.after), trivial⟩

theorem trim_of_ends {text : List Char} (first : ∃ c, text.head? = some c ∧ isBlank c = false)
    (last : ∃ c, text.getLast? = some c ∧ isBlank c = false) : trim text = text := by
  obtain ⟨c, begins, solid⟩ := first
  obtain ⟨d, ends, solidLast⟩ := last
  obtain ⟨back, rfl⟩ := List.head?_eq_some_iff.mp begins
  obtain ⟨front, same⟩ := List.getLast?_eq_some_iff.mp ends
  rw [trim, trimLeft, List.dropWhile_cons_of_neg (by simp [solid]), same,
    trimRight_append_cons solidLast]
  rfl

theorem head?_of_trimmed {text : List Char} (stripped : trim text = text) (nonempty : text ≠ []) :
    ∃ c, text.head? = some c ∧ isBlank c = false := by
  obtain ⟨c, rest, rfl⟩ := List.exists_cons_of_ne_nil nonempty
  refine ⟨c, rfl, Bool.eq_false_iff.mpr fun blank => ?_⟩
  have shorter : (trim (c :: rest)).length ≤ rest.length := by
    rw [trim, trimLeft, List.dropWhile_cons_of_pos blank]
    exact (trimRight_isPrefix _).length_le.trans (List.dropWhile_suffix isBlank).length_le
  rw [stripped, List.length_cons] at shorter
  omega

namespace IsBreak

variable {left right : List Char} (broken : IsBreak left right)
  (uncommented : (ofLine false (left ++ ' ' :: right)).code = left ++ ' ' :: right)

include broken

theorem inComment_left : (ofLine false left).inComment = false := by
  have parted := @read_append .code trivial left [] broken.outside (by simp [StartsPlain])
  rw [List.append_nil] at parted
  exact congrArg inComment parted

include uncommented

theorem head?_trimmed : (ofLine false right).trimmed.mask.head? = right.head? := by
  obtain ⟨c, first, solid⟩ := broken.after
  have begins := broken.head?_mask uncommented
  rw [first] at begins
  obtain ⟨rest, shown⟩ := List.head?_eq_some_iff.mp begins
  change (trim (ofLine false right).mask).head? = _
  rw [first, shown]
  exact congrArg List.head? (trim_append_cons solid [] rest)

theorem trimmed_left (first : ∃ c, left.head? = some c ∧ isBlank c = false) :
    (ofLine false left).trimmed.code = left ∧
      (ofLine false left).trimmed.mask.length = left.length ∧
      (ofLine false left).trimmed.mask.getLast? = left.getLast? := by
  have code := (broken.uncommented_parts uncommented).1
  have last := broken.getLast?_mask uncommented
  have begins : (ofLine false left).mask.head? = left.head? := by
    rw [← congrArg List.head? code]
    exact (head?_read_code left).1
  have length : (ofLine false left).mask.length = (ofLine false left).code.length :=
    (read_shows .code left).length
  have whole : trim (ofLine false left).mask = (ofLine false left).mask :=
    trim_of_ends (begins ▸ first) (last ▸ broken.before)
  refine ⟨?_, ?_, ?_⟩
  · rw [trimmed, code]
    exact trim_of_ends first broken.before
  · rw [trimmed, whole, length, code]
  · rw [trimmed, whole, last]

end IsBreak

def Breaks (pieces : List (List Char)) : Prop :=
  ∀ count < pieces.length, 0 < count →
    IsBreak (unwords (pieces.take count)) (unwords (pieces.drop count))

instance (pieces : List (List Char)) : Decidable (Breaks pieces) :=
  inferInstanceAs (Decidable (∀ count < pieces.length, 0 < count → IsBreak _ _))

theorem Breaks.between {front back : List (List Char)} (breaks : Breaks (front ++ back))
    (nonempty : front ≠ []) (more : back ≠ []) : IsBreak (unwords front) (unwords back) := by
  have broken := breaks front.length (by simp [List.length_pos_iff.mpr more])
    (List.length_pos_iff.mpr nonempty)
  rwa [List.take_left, List.drop_left] at broken

theorem Breaks.front {front back : List (List Char)} (breaks : Breaks (front ++ back)) :
    Breaks front := by
  intro count below above
  have broken := breaks count (by rw [List.length_append]; omega) above
  rw [List.take_append_of_le_length (by omega), List.drop_append_of_le_length (by omega)] at broken
  by_cases more : back = []
  · rwa [more, List.append_nil] at broken
  · rw [unwords_append (by simpa using below) more] at broken
    exact broken.of_append

theorem Breaks.last {front : List (List Char)} {piece : List Char}
    (breaks : Breaks (front ++ [piece])) (nonempty : front ≠ []) :
    IsBreak (unwords front) piece := by
  simpa [unwords] using breaks.between nonempty (List.cons_ne_nil piece [])

def masks (lines : List (List Char)) : List (List Char) :=
  lines.map fun line => (ofLine false line).trimmed.mask

theorem Breaks.unwords_masks {pieces : List (List Char)} (breaks : Breaks pieces)
    (uncommented : (ofLine false (unwords pieces)).code = unwords pieces) :
    unwords (masks pieces) = (ofLine false (unwords pieces)).trimmed.mask := by
  induction pieces using List.reverseRecOn with
  | nil => rfl
  | append_singleton front piece ih =>
      by_cases nonempty : front = []
      · subst nonempty
        simp [masks, unwords]
      · have broken := breaks.last nonempty
        have joined : unwords (front ++ [piece]) = unwords front ++ ' ' :: piece := by
          rw [unwords_append nonempty (by simp)]
          simp [unwords]
        rw [joined] at uncommented ⊢
        have before := ih breaks.front (broken.uncommented_parts uncommented).1
        rw [masks, List.map_append, unwords_append (by simpa using nonempty) (by simp),
          ← masks, before, broken.trimmed_eq uncommented]
        simp [unwords, append, push]

end MaskedLine
end MethodFlow
