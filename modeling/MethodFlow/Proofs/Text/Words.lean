import MethodFlow.Proofs.Text.Pieces
import Mathlib.Data.List.Flatten

/-!
Words of a text, the runs between its blanks. A text that is cut at a blank has the words of its two
parts, and words with spaces between them are read as themselves.
-/
namespace MethodFlow.Text

theorem pieces_eq_splitOnP (separator : Char → Bool) (text : List Char) :
    pieces separator text = text.splitOnP separator := by
  induction text with
  | nil => rfl
  | cons c text ih =>
      rw [pieces, List.splitOnP_cons_eq_if_modifyHead, ih]
      split
      · rfl
      · cases parts : text.splitOnP separator with
        | nil => exact absurd parts (List.splitOnP_ne_nil separator text)
        | cons piece rest => rfl

theorem isBlank_eq_false_of_all {text : List Char} (checked : text.all (!isBlank ·) = true) :
    ∀ c ∈ text, isBlank c = false := by
  simpa using checked

/-- A word as it stands between blanks. -/
structure IsSolid (word : List Char) : Prop where
  nonempty : word ≠ []
  solid : ∀ c ∈ word, isBlank c = false

theorem IsSolid.head? {word : List Char} (solid : IsSolid word) :
    ∃ c, word.head? = some c ∧ isBlank c = false := by
  obtain ⟨c, rest, rfl⟩ := List.exists_cons_of_ne_nil solid.nonempty
  exact ⟨c, rfl, solid.solid c List.mem_cons_self⟩

theorem IsSolid.getLast? {word : List Char} (solid : IsSolid word) :
    ∃ c, word.getLast? = some c ∧ isBlank c = false := by
  have last := List.getLast?_eq_some_getLast solid.nonempty
  exact ⟨_, last, solid.solid _ (List.getLast_mem solid.nonempty)⟩

theorem words_append_cons {c : Char} (blank : isBlank c = true) (left right : List Char) :
    words (left ++ c :: right) = words left ++ words right := by
  simp only [words, pieces_eq_splitOnP, List.splitOnP_append_cons left right blank,
    List.filter_append]

theorem words_blanks_append {blanks : List Char} (blank : ∀ c ∈ blanks, isBlank c = true)
    (text : List Char) : words (blanks ++ text) = words text := by
  induction blanks with
  | nil => rfl
  | cons c blanks ih =>
      have first : words ([] ++ c :: (blanks ++ text)) = words [] ++ words (blanks ++ text) :=
        words_append_cons (blank c List.mem_cons_self) [] (blanks ++ text)
      rw [ih fun d member => blank d (List.mem_cons_of_mem c member)] at first
      exact first

theorem words_append_blanks {blanks : List Char} (nonempty : blanks ≠ [])
    (blank : ∀ c ∈ blanks, isBlank c = true) (left right : List Char) :
    words (left ++ blanks ++ right) = words left ++ words right := by
  obtain ⟨c, rest, rfl⟩ := List.exists_cons_of_ne_nil nonempty
  have apart := words_append_cons (blank c List.mem_cons_self) left (rest ++ right)
  rw [words_blanks_append fun d member => blank d (List.mem_cons_of_mem c member)] at apart
  simpa using apart

theorem words_trimRight (text : List Char) : words (trimRight text) = words text := by
  obtain ⟨blanks, blank, parts⟩ := exists_trimRight_append text
  by_cases none : blanks = []
  · rw [none, List.append_nil] at parts
    rw [← parts]
  · have apart := words_append_blanks none blank (trimRight text) []
    rw [List.append_nil, ← parts] at apart
    exact (List.append_nil _).symm.trans apart.symm

theorem words_trim (text : List Char) : words (trim text) = words text := by
  rw [trim, words_trimRight]
  have parts := text.takeWhile_append_dropWhile (p := isBlank)
  have blank : ∀ c ∈ text.takeWhile isBlank, isBlank c = true :=
    fun c member => List.mem_takeWhile_imp member
  calc words (trimLeft text)
    _ = words (text.takeWhile isBlank ++ text.dropWhile isBlank) :=
      (words_blanks_append blank _).symm
    _ = words text := by rw [parts]

theorem IsSolid.words_eq {word : List Char} (solid : IsSolid word) : words word = [word] := by
  rw [words, pieces_eq_splitOnP, List.splitOnP_eq_singleton solid.solid]
  simp [solid.nonempty]

theorem solid_of_mem_pieces {separator : Char → Bool} {text piece : List Char}
    (member : piece ∈ pieces separator text) : ∀ c ∈ piece, separator c = false := by
  induction text generalizing piece with
  | nil =>
      obtain rfl := List.mem_singleton.mp member
      simp
  | cons c text ih =>
      rw [pieces] at member
      split at member
      · rcases List.mem_cons.mp member with rfl | later
        · simp
        · exact ih later
      · rename_i inside
        cases parts : pieces separator text with
        | nil =>
            rw [parts] at member
            obtain rfl := List.mem_singleton.mp member
            simpa using inside
        | cons first rest =>
            rw [parts] at ih member
            rcases List.mem_cons.mp member with rfl | later
            · intro d
              rw [List.mem_cons]
              rintro (rfl | further)
              · simpa using inside
              · exact ih List.mem_cons_self d further
            · exact ih (List.mem_cons_of_mem first later)

theorem isSolid_of_mem {text word : List Char} (member : word ∈ words text) : IsSolid word := by
  obtain ⟨piece, shown⟩ := List.mem_filter.mp member
  exact ⟨by simpa using shown, solid_of_mem_pieces piece⟩

@[simp] theorem unwords_singleton (word : List Char) : unwords [word] = word := by
  simp [unwords]

theorem words_unwords (list : List (List Char)) : words (unwords list) = list.flatMap words := by
  induction list with
  | nil => rfl
  | cons text list ih =>
      by_cases single : list = []
      · rw [single, unwords_singleton, List.flatMap_singleton]
      · rw [unwords_cons single, words_append_cons (by decide), ih, List.flatMap_cons]

theorem flatMap_words {list : List (List Char)} (solid : ∀ word ∈ list, IsSolid word) :
    list.flatMap words = list := by
  induction list with
  | nil => rfl
  | cons word list ih =>
      rw [List.flatMap_cons, (solid word List.mem_cons_self).words_eq,
        ih fun other member => solid other (List.mem_cons_of_mem word member)]
      rfl

theorem blank_of_words_eq_nil {text : List Char} (none : words text = []) :
    ∀ c ∈ text, isBlank c = true := by
  induction text with
  | nil => simp
  | cons c text ih =>
      cases blank : isBlank c with
      | true =>
          have later : words text = [] := (words_append_cons blank [] text).symm.trans none
          exact List.forall_mem_cons.mpr ⟨blank, ih later⟩
      | false =>
          rw [words, pieces, blank] at none
          cases parts : pieces isBlank text with
          | nil => simp [parts] at none
          | cons piece rest => simp [parts] at none

section Collapsing

theorem collapse_eq_nil_iff (text : List Char) :
    collapse text = [] ↔ ∀ c ∈ text, isBlank c = true := by
  constructor
  · intro nothing
    apply blank_of_words_eq_nil
    cases shown : words text with
    | nil => rfl
    | cons word rest =>
        have solid : IsSolid word := isSolid_of_mem (shown ▸ List.mem_cons_self)
        rw [collapse, shown] at nothing
        by_cases single : rest = []
        · rw [single, unwords_singleton] at nothing
          exact absurd nothing solid.nonempty
        · rw [unwords_cons single, List.append_eq_nil_iff] at nothing
          exact absurd nothing.1 solid.nonempty
  · intro blank
    have none := words_blanks_append blank []
    rw [List.append_nil] at none
    rw [collapse, none]
    rfl

theorem collapse_append_cons {c : Char} (blank : isBlank c = true) {left right : List Char}
    (before : words left ≠ []) (after : words right ≠ []) :
    collapse (left ++ c :: right) = collapse left ++ ' ' :: collapse right := by
  rw [collapse, words_append_cons blank, unwords_append before after]
  rfl

theorem length_unwords (list : List (List Char)) :
    (unwords list).length = list.flatten.length + (list.length - 1) := by
  induction list with
  | nil => rfl
  | cons word list ih =>
      by_cases single : list = []
      · simp [single]
      · have some : 0 < list.length := List.length_pos_iff.mpr single
        rw [unwords_cons single, List.length_append, List.length_cons, ih, List.flatten_cons,
          List.length_append, List.length_cons]
        omega

theorem length_pieces (separator : Char → Bool) (text : List Char) :
    (pieces separator text).flatten.length + (pieces separator text).length = text.length + 1 := by
  induction text with
  | nil => rfl
  | cons c text ih =>
      rw [pieces]
      split
      · rw [List.flatten_cons, List.nil_append, List.length_cons, List.length_cons]
        omega
      · cases parts : pieces separator text with
        | nil => simp [parts] at ih
        | cons first rest =>
            rw [parts] at ih
            simp only [List.flatten_cons, List.length_append, List.length_cons] at ih ⊢
            omega

theorem length_collapse_le (text : List Char) : (collapse text).length ≤ text.length := by
  have total := length_pieces isBlank text
  have sublist : (words text).Sublist (pieces isBlank text) := List.filter_sublist
  have count := sublist.length_le
  have some : 0 < (pieces isBlank text).length := by
    rw [List.length_pos_iff, pieces_eq_splitOnP]
    exact List.splitOnP_ne_nil isBlank text
  have size := sublist.flatten.length_le
  rw [collapse, length_unwords]
  omega

/-- A text with only single spaces between its words is put together from such texts. -/
theorem collapsed_parts {left right : List Char} (before : words left ≠ [])
    (after : words right ≠ []) (whole : collapse (left ++ ' ' :: right) = left ++ ' ' :: right) :
    collapse left = left ∧ collapse right = right := by
  rw [collapse_append_cons (by decide) before after] at whole
  have front := length_collapse_le left
  have back := length_collapse_le right
  have lengths := congrArg List.length whole
  simp only [List.length_append, List.length_cons] at lengths
  obtain ⟨same, rest⟩ := List.append_inj whole (by omega)
  exact ⟨same, (List.cons.inj rest).2⟩

theorem collapse_unwords_iff {list : List (List Char)}
    (visible : ∀ text ∈ list, words text ≠ []) :
    collapse (unwords list) = unwords list ↔ ∀ text ∈ list, collapse text = text := by
  induction list with
  | nil => simp [unwords, collapse, words, pieces]
  | cons text list ih =>
      have first := visible text List.mem_cons_self
      have others := ih fun other member => visible other (List.mem_cons_of_mem text member)
      by_cases single : list = []
      · simp [single]
      · have after : words (unwords list) ≠ [] := by
          obtain ⟨next, rest, rfl⟩ := List.exists_cons_of_ne_nil single
          have shown := visible next (List.mem_cons_of_mem text List.mem_cons_self)
          simp [words_unwords, shown]
        rw [unwords_cons single, List.forall_mem_cons, ← others]
        constructor
        · exact collapsed_parts first after
        · intro parts
          rw [collapse_append_cons (by decide) first after, parts.1, parts.2]

end Collapsing

end MethodFlow.Text
