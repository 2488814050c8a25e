import MethodFlow.Proofs.Text.Pieces

/-!
Lines in which nothing is quoted and no comment begins. Such a line is shown as it stands, or, if it
starts inside of a comment, from the end of that comment on.
-/
namespace MethodFlow.MaskedLine

open Text

/-- A line without quotes, in which no comment begins. -/
structure IsUnmarked (line : List Char) : Prop where
  unquoted : ∀ c ∈ line, isQuote c = false
  uncommented : (read .code line).code = line

theorem isUnmarked_of_slashless {line : List Char} (unquoted : ∀ c ∈ line, isQuote c = false)
    (slashless : '/' ∉ line) : IsUnmarked line := by
  refine ⟨unquoted, ?_⟩
  induction line with
  | nil => rfl
  | cons c rest ih =>
      obtain ⟨first, others⟩ := List.forall_mem_cons.mp unquoted
      rw [List.mem_cons, not_or] at slashless
      have plain : IsPlain c rest := fun slash => absurd slash.symm slashless.1
      have code : Mode.after c = .code := by simp [Mode.after, first]
      rw [read_plain plain, code]
      exact congrArg (c :: ·) (ih others slashless.2)

theorem IsUnmarked.tail {c : Char} {rest : List Char} (unmarked : IsUnmarked (c :: rest)) :
    IsPlain c rest ∧ IsUnmarked rest := by
  have uncommented := unmarked.uncommented
  have plain : IsPlain c rest := by
    rintro rfl
    constructor
    · intro slash
      obtain ⟨tail, rfl⟩ := List.head?_eq_some_iff.mp slash
      rw [read] at uncommented
      cases uncommented
    · intro star
      obtain ⟨tail, rfl⟩ := List.head?_eq_some_iff.mp star
      rw [read] at uncommented
      cases (List.cons.inj uncommented).1
  refine ⟨plain, fun d member => unmarked.unquoted d (List.mem_cons_of_mem c member), ?_⟩
  have code : Mode.after c = .code := by simp [Mode.after, unmarked.unquoted c List.mem_cons_self]
  rw [read_plain plain, code] at uncommented
  exact (List.cons.inj uncommented).2

structure ShowsEnd (mode : Mode) (line text : List Char) : Prop where
  read : read mode line = ⟨text, text, false⟩
  leads : modeAfter mode line = some .code
  last : text.getLast? = line.getLast?

theorem IsUnmarked.showsEnd {line : List Char} (unmarked : IsUnmarked line) :
    ShowsEnd .code line line := by
  induction line with
  | nil => exact ⟨read_nil .code, modeAfter_nil .code, rfl⟩
  | cons c rest ih =>
      obtain ⟨plain, further⟩ := unmarked.tail
      have code : Mode.after c = .code := by
        simp [Mode.after, unmarked.unquoted c List.mem_cons_self]
      refine ⟨?_, ?_, rfl⟩
      · rw [read_plain plain, code, (ih further).read]
        rfl
      · rw [modeAfter_plain plain, code, (ih further).leads]

theorem ShowsEnd.pushBlank {mode next : Mode} {c : Char} {rest text : List Char}
    (shows : ShowsEnd next rest text) (nonempty : rest ≠ [])
    (reads : MaskedLine.read mode (c :: rest) = (MaskedLine.read next rest).pushBlank)
    (moves : modeAfter mode (c :: rest) = modeAfter next rest) :
    ShowsEnd mode (c :: rest) (' ' :: text) where
  read := by
    rw [reads, shows.read]
    rfl
  leads := moves.trans shows.leads
  last := getLast?_cons_eq shows.last fun empty => absurd empty nonempty

/-- Inside of a comment nothing is shown of a line but what stands after the end of the comment. -/
theorem IsUnmarked.showsEnd_comment {line : List Char} (unmarked : IsUnmarked line) :
    (∃ text, ShowsEnd .comment line text) ∨
      ∀ c ∈ (read .comment line).mask, isBlank c = true := by
  have space : isBlank ' ' = true := by decide
  induction line with
  | nil => exact .inr (by simp)
  | cons c rest ih =>
      by_cases closing : c = '*' ∧ rest.head? = some '/'
      · obtain ⟨rfl, slash⟩ := closing
        obtain ⟨tail, rfl⟩ := List.head?_eq_some_iff.mp slash
        have further : IsUnmarked tail := unmarked.tail.2.tail.2
        have reads : read .comment ('*' :: '/' :: tail) = (read .code tail).pushBlank.pushBlank := by
          rw [read]
        by_cases empty : tail = []
        · subst empty
          exact .inr (by simp [reads, MaskedLine.pushBlank, push, space])
        · refine .inl ⟨' ' :: ' ' :: tail, ?_, ?_, ?_⟩
          · rw [reads, further.showsEnd.read]
            rfl
          · rw [modeAfter]
            exact further.showsEnd.leads
          · exact getLast?_cons_eq (getLast?_cons_eq rfl fun nil => absurd nil empty) fun nil =>
              absurd nil (List.cons_ne_nil '/' tail)
      · have unlike (tail : List Char) (star : c = '*') (slash : rest = '/' :: tail) : False :=
          closing ⟨star, by rw [slash]; rfl⟩
        have reads : read .comment (c :: rest) = (read .comment rest).pushBlank :=
          read.eq_3 c rest unlike
        have moves : modeAfter .comment (c :: rest) = modeAfter .comment rest :=
          modeAfter.eq_3 c rest unlike
        rcases ih unmarked.tail.2 with ⟨text, shows⟩ | blank
        · have nonempty : rest ≠ [] := by
            rintro rfl
            have leads := shows.leads
            rw [modeAfter_nil] at leads
            cases leads
          exact .inl ⟨_, shows.pushBlank nonempty reads moves⟩
        · refine .inr ?_
          rw [reads]
          simpa [MaskedLine.pushBlank, push, space] using blank

end MethodFlow.MaskedLine
