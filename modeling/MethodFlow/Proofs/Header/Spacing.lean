import MethodFlow.Proofs.Header.Fronts
import MethodFlow.Proofs.Text.Words

/-!
Texts whose blanks are single spaces, each behind one of some marks. Such a text is put together
again from its words (`IsSpaced.collapse_eq`), and no word that is not a mark stands between two
blanks of it, so a keyword is not found there unless it is the last word
(`IsSpaced.keyword_inside`).
-/
namespace MethodFlow.Header

open Text

/-- Every blank of the text is a space, and what stands before it ends in a mark. -/
def IsSpaced (marks : List Char → Prop) (text : List Char) : Prop :=
  ∀ front c back, text = front ++ c :: back → isBlank c = true →
    c = ' ' ∧ ∃ mark, marks mark ∧ mark <:+ front

namespace IsSpaced

variable {marks : List Char → Prop}

section Building

variable {text left right : List Char}

theorem of_solid (solid : ∀ c ∈ text, isBlank c = false) : IsSpaced marks text := by
  rintro front c back rfl blank
  rw [solid c (by simp)] at blank
  cases blank

theorem append (first : IsSpaced marks left) (second : IsSpaced marks right) :
    IsSpaced marks (left ++ right) := by
  intro front c back split blank
  rcases List.append_eq_append_iff.mp split with ⟨more, rfl, inRight⟩ | ⟨more, inLeft, rest⟩
  · obtain ⟨space, mark, marked, ends⟩ := second more c back inRight blank
    exact ⟨space, mark, marked, ends.trans (List.suffix_append left more)⟩
  · rcases List.cons_eq_append_iff.mp rest with ⟨rfl, inRight⟩ | ⟨inside, rfl, -⟩
    · obtain ⟨space, mark, marked, ends⟩ := second [] c back inRight blank
      exact ⟨space, mark, marked, (List.suffix_nil.mp ends) ▸ List.nil_suffix⟩
    · exact first front c inside inLeft blank

theorem space (spaced : IsSpaced marks text) {mark : List Char} (ends : mark <:+ text)
    (marked : marks mark) : IsSpaced marks (text ++ [' ']) := by
  intro front c back split blank
  rcases List.append_eq_append_iff.mp split with ⟨more, rfl, last⟩ | ⟨more, inText, rest⟩
  · rcases List.cons_eq_append_iff.mp last with ⟨rfl, same⟩ | ⟨inside, rfl, none⟩
    · rw [List.append_nil]
      exact ⟨(List.cons.inj same).1, mark, marked, ends⟩
    · simp at none
  · rcases List.cons_eq_append_iff.mp rest with ⟨rfl, same⟩ | ⟨inside, rfl, -⟩
    · rw [List.append_nil] at inText
      exact ⟨(List.cons.inj same).1.symm, mark, marked, inText ▸ ends⟩
    · exact spaced front c inside inText blank

theorem imp {others : List Char → Prop} (spaced : IsSpaced marks text)
    (weaker : ∀ mark, marks mark → ∃ other, others other ∧ other <:+ mark) :
    IsSpaced others text := by
  intro front c back split blank
  obtain ⟨space, mark, marked, ends⟩ := spaced front c back split blank
  obtain ⟨other, listed, shorter⟩ := weaker mark marked
  exact ⟨space, other, listed, shorter.trans ends⟩

end Building

end IsSpaced

def IsSolidMark (mark : List Char) : Prop :=
  ∃ c, mark = [c] ∧ isBlank c = false

theorem IsSpaced.collapse_eq {text : List Char} (spaced : IsSpaced IsSolidMark text)
    (last : ∃ c, text.getLast? = some c ∧ isBlank c = false) : collapse text = text := by
  induction length : text.length using Nat.strong_induction_on generalizing text with
  | _ length ih =>
      subst length
      cases later : text.dropWhile fun c => !isBlank c with
      | nil =>
          have word : IsSolid text := by
            refine ⟨?_, by simpa using later⟩
            rintro rfl
            simp at last
          rw [collapse, word.words_eq, unwords_singleton]
      | cons c rest =>
          have split : text = text.takeWhile (fun c => !isBlank c) ++ c :: rest := by
            rw [← later, List.takeWhile_append_dropWhile]
          have blank : isBlank c = true := by
            have first := List.head?_dropWhile_not (fun c => !isBlank c) text
            simpa [later] using first
          have solid : ∀ d ∈ text.takeWhile (fun c => !isBlank c), isBlank d = false := by
            intro d member
            simpa using List.mem_takeWhile_imp member
          generalize text.takeWhile (fun c => !isBlank c) = word at split solid
          obtain ⟨rfl, -, ⟨d, rfl, -⟩, ends⟩ := spaced word c rest split blank
          subst split
          have first : IsSolid word := ⟨fun none => by simp [none] at ends, solid⟩
          have lastAfter : ∃ c, rest.getLast? = some c ∧ isBlank c = false := by
            obtain ⟨c, same, isSolid⟩ := last
            rw [List.getLast?_append_of_ne_nil _ (List.cons_ne_nil _ _), List.getLast?_cons] at same
            cases ended : rest.getLast? with
            | none =>
                obtain rfl : ' ' = c := by simpa [ended] using same
                cases isSolid
            | some e => exact ⟨c, by simpa [ended] using same, isSolid⟩
          have spacedAfter : IsSpaced IsSolidMark rest := by
            rintro front e back rfl isBlank
            obtain ⟨space, -, ⟨sign, rfl, isSolid⟩, closes⟩ :=
              spaced (word ++ ' ' :: front) e back (by simp) isBlank
            have near : [sign] <:+ ' ' :: front :=
              List.suffix_of_suffix_length_le closes (List.suffix_append _ _) (by simp)
            refine ⟨space, [sign], ⟨sign, rfl, isSolid⟩, ?_⟩
            rcases List.suffix_cons_iff.mp near with same | further
            · rw [(List.cons.inj same).1] at isSolid
              cases isSolid
            · exact further
          have shown : words rest ≠ [] := by
            intro none
            obtain ⟨e, same, isSolid⟩ := lastAfter
            rw [blank_of_words_eq_nil none e (List.mem_of_getLast? same)] at isSolid
            cases isSolid
          have alone : collapse word = word := by rw [collapse, first.words_eq, unwords_singleton]
          have shorter : rest.length < (word ++ ' ' :: rest).length := by
            rw [List.length_append, List.length_cons]
            omega
          rw [collapse_append_cons blank (by simp [first.words_eq]) shown, alone,
            ih rest.length shorter spacedAfter lastAfter rfl]

/-- A keyword inside of a text, or at its end, has more of a word behind it, unless it is a mark or
the last word. -/
theorem IsSpaced.keyword_inside {marks : List Char → Prop} {front back rest : List Char}
    (spaced : IsSpaced marks (front ++ back))
    (last : ∃ c, back.getLast? = some c ∧ isBlank c = false)
    (blank : ∀ c, rest.head? = some c → isBlank c = true) {keyword : List Char}
    (word : IsSolid keyword)
    (other : ∀ mark, marks mark → ∀ before, ¬mark <:+ before ++ ' ' :: keyword)
    {left after : List Char} (opens : blanks? (back ++ rest) = some left)
    (found : after? keyword left = some after) :
    (∃ c, after.head? = some c ∧ isBlank c = false) ∨
      after = rest ∧ ∃ before, front ++ back = before ++ ' ' :: keyword := by
  obtain ⟨d, ends, solid⟩ := last
  obtain ⟨init, rfl⟩ := List.getLast?_eq_some_iff.mp ends
  obtain ⟨trimmed, first⟩ := blanks?_eq_some opens
  -- The blanks before the keyword end in a space of the text.
  obtain ⟨before, same⟩ : ∃ before, front ++ (init ++ [d]) =
      before ++ ' ' :: (trimLeft init ++ [d]) := by
    have blanks : init.takeWhile isBlank ≠ [] := by
      obtain ⟨c, first, isBlank⟩ := first
      cases init with
      | nil =>
          obtain rfl : d = c := by simpa using first
          rw [isBlank] at solid
          cases solid
      | cons e init =>
          obtain rfl : e = c := by simpa using first
          rw [List.takeWhile_cons_of_pos isBlank]
          exact List.cons_ne_nil _ _
    obtain ⟨indent, e, run⟩ := (List.eq_nil_or_concat _).resolve_left blanks
    rw [List.concat_eq_append] at run
    have split : front ++ (init ++ [d]) = (front ++ indent) ++ e :: (trimLeft init ++ [d]) := by
      have parts : init = indent ++ [e] ++ trimLeft init := by
        rw [← run, trimLeft, List.takeWhile_append_dropWhile]
      calc front ++ (init ++ [d])
        _ = front ++ (indent ++ [e] ++ trimLeft init ++ [d]) := by rw [← parts]
        _ = _ := by simp
    have isBlank : isBlank e = true :=
      List.mem_takeWhile_imp (by rw [run]; exact List.mem_append_right _ List.mem_cons_self)
    obtain ⟨rfl, -⟩ := spaced _ e _ split isBlank
    exact ⟨front ++ indent, split⟩
  rw [List.append_assoc, List.singleton_append, trimLeft_append_cons solid, List.append_cons]
    at trimmed
  rw [← trimmed, after?_eq_some_iff] at found
  rw [same] at spaced ⊢
  generalize trimLeft init ++ [d] = inside at spaced found
  have blankAfter {sign : Char} {more : List Char} (longer : inside = keyword ++ sign :: more) :
      isBlank sign = false := by
    rw [Bool.eq_false_iff]
    intro isBlank
    have split : before ++ ' ' :: inside = (before ++ ' ' :: keyword) ++ sign :: more := by
      simp [longer]
    obtain ⟨-, mark, marked, closes⟩ := spaced _ sign more split isBlank
    exact other mark marked before closes
  rcases List.append_eq_append_iff.mp found with ⟨more, longer, rfl⟩ | ⟨more, longer, rfl⟩
  · cases more with
    | nil =>
        rw [List.append_nil] at longer
        exact .inr ⟨rfl, before, by rw [longer]⟩
    | cons sign more =>
        have inWord := word.solid sign (by simp [longer])
        rw [blank sign rfl] at inWord
        cases inWord
  · cases more with
    | nil =>
        rw [List.append_nil] at longer
        exact .inr ⟨rfl, before, by rw [longer]⟩
    | cons sign more => exact .inl ⟨sign, rfl, blankAfter longer⟩

end MethodFlow.Header
