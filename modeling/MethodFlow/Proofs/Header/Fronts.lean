import MethodFlow.Header.ClassHeader
import MethodFlow.Header.MethodHeader
import MethodFlow.Proofs.Text.Search
import MethodFlow.Proofs.Text.Word
import Mathlib.Data.List.Infix
import Mathlib.Data.Option.Basic

/-!
Readers on the front of a text. A text that is cut before a blank is read as far as the cut like the
whole, unless what is read off the whole goes past the cut (`Follows`). This holds of the readers
that headers are read with, and of what is made of them.
-/
namespace MethodFlow.Header

open Text

class HasRest (β : Type) where
  rest : β → List Char
  extend : β → List Char → β

open HasRest

instance : HasRest (List Char) :=
  ⟨id, (· ++ ·)⟩

instance {α : Type} : HasRest (α × List Char) :=
  ⟨Prod.snd, fun (value, rest) more => (value, rest ++ more)⟩

instance : HasRest (List Char × List Char × List Char) :=
  ⟨fun (_, _, inside) => inside,
    fun (type, name, inside) more => (type ++ more, name, inside ++ more)⟩

instance : HasRest MethodHead :=
  ⟨MethodHead.rest, fun head more => { head with rest := head.rest ++ more }⟩

/-- Whether a text may be cut between these two parts. -/
structure IsGap (text more : List Char) : Prop where
  solid : ∀ c, text.getLast? = some c → isBlank c = false
  blank : more.head? = some ' '

theorem IsGap.of_suffix {text part more : List Char} (gap : IsGap text more)
    (suffix : part <:+ text) : IsGap part more where
  solid c last := by
    obtain ⟨front, rfl⟩ := suffix
    exact gap.solid c (by rw [List.getLast?_append, last]; rfl)
  blank := gap.blank

/-- What is read off a text is what is read off its front, or it goes past the front. -/
def ReadsOn {β : Type} [HasRest β] (front whole : Option β) (more : List Char) : Prop :=
  whole = front.map (extend · more) ∨
    ∃ value, whole = some value ∧ (rest value).length < more.length

theorem ReadsOn.orElse {β : Type} [HasRest β] {front whole other otherWhole : Option β}
    {more : List Char} (first : ReadsOn front whole more)
    (second : ReadsOn other otherWhole more) :
    ReadsOn (front <|> other) (whole <|> otherWhole) more := by
  rcases first with rfl | ⟨value, rfl, short⟩
  · cases front with
    | some value => exact .inl rfl
    | none => simpa using second
  · exact .inr ⟨value, rfl, short⟩

/-- A reader that reads off a text what it reads off the front of it, or goes on past the front. A
strict reader goes past the front only if it cannot read the front alone. -/
structure Follows {σ β : Type} [HasRest σ] [HasRest β] (strict : Prop) (read? : σ → Option β) :
    Prop where
  suffix {text : σ} {value : β} : read? text = some value → rest value <:+ rest text
  follows {text : σ} {more : List Char} : IsGap (rest text) more →
    ReadsOn (read? text) (read? (extend text more)) more
  keeps {text : σ} {more : List Char} {value : β} : strict → IsGap (rest text) more →
    read? text = some value → read? (extend text more) = some (extend value more)

section Combinators

variable {σ β γ : Type} [HasRest σ] [HasRest β] [HasRest γ] {strict : Prop}

theorem Follows.bind {read? : σ → Option β} {next? : β → Option γ} (first : Follows True read?)
    (second : Follows strict next?) : Follows strict fun text => (read? text).bind next? where
  suffix found := by
    obtain ⟨middle, read, next⟩ := Option.bind_eq_some_iff.mp found
    exact (second.suffix next).trans (first.suffix read)
  follows {text more} gap := by
    cases read : read? text with
    | some middle =>
        rw [first.keeps trivial gap read]
        exact second.follows (gap.of_suffix (first.suffix read))
    | none =>
        rcases first.follows gap with same | ⟨value, past, short⟩
        · left
          simp [same, read]
        · rw [past]
          cases next : next? value with
          | none =>
              left
              simp [next]
          | some result =>
              right
              exact ⟨result, next, (second.suffix next).length_le.trans_lt short⟩
  keeps {text more value} holds gap found := by
    obtain ⟨middle, read, next⟩ := Option.bind_eq_some_iff.mp found
    rw [first.keeps trivial gap read]
    exact second.keeps holds (gap.of_suffix (first.suffix read)) next

theorem Follows.orElse {first? second? : σ → Option β} (first : Follows strict first?)
    (second : Follows strict second?)
    (apart : strict → ∀ text value, second? text = some value → first? text = none) :
    Follows strict fun text => first? text <|> second? text where
  suffix found := by
    rcases (Option.orElse_eq_some _ _ _).mp found with read | ⟨-, read⟩
    · exact first.suffix read
    · exact second.suffix read
  follows gap := (first.follows gap).orElse (second.follows gap)
  keeps {text more value} holds gap found := by
    rcases (Option.orElse_eq_some _ _ _).mp found with read | ⟨-, read⟩
    · simp [first.keeps holds gap read]
    · have kept := second.keeps holds gap read
      simp [apart holds _ _ kept, kept]

theorem Follows.map {read? : σ → Option β} (reads : Follows strict read?) (view : σ → β → γ)
    (rest_view : ∀ text value, rest (view text value) = rest value)
    (view_extend : ∀ text value more,
      view (extend text more) (extend value more) = extend (view text value) more) :
    Follows strict fun text => (read? text).map (view text) where
  suffix found := by
    obtain ⟨value, read, rfl⟩ := Option.map_eq_some_iff.mp found
    rw [rest_view]
    exact reads.suffix read
  follows {text more} gap := by
    rcases reads.follows gap with same | ⟨value, past, short⟩
    · left
      rw [same]
      cases read? text with
      | none => rfl
      | some value => exact congrArg some (view_extend text value more)
    · right
      exact ⟨_, congrArg _ past, by rwa [rest_view]⟩
  keeps {text more value} holds gap found := by
    obtain ⟨value, read, rfl⟩ := Option.map_eq_some_iff.mp found
    rw [reads.keeps holds gap read]
    exact congrArg some (view_extend text value more)

theorem Follows.never : Follows strict fun _ : σ => (none : Option β) where
  suffix found := by cases found
  follows _ := .inl rfl
  keeps _ _ found := by cases found

theorem Follows.ite {read? other? : σ → Option β} (condition : Prop) [Decidable condition]
    (reads : Follows strict read?) (others : Follows strict other?) :
    Follows strict fun text => if condition then read? text else other? text := by
  by_cases holds : condition
  · simpa only [if_pos holds] using reads
  · simpa only [if_neg holds] using others

theorem Follows.curry {α : Type} {read? : α → List Char → Option β}
    (reads : ∀ value, Follows strict (read? value)) :
    Follows strict fun pair : α × List Char => read? pair.1 pair.2 where
  suffix {pair _} found := (reads pair.1).suffix found
  follows {pair _} gap := (reads pair.1).follows gap
  keeps {pair _ _} holds gap found := (reads pair.1).keeps holds gap found

theorem Follows.leaving {α : Type} (value : α) :
    Follows strict fun text : List Char => some (value, text) where
  suffix found := by
    cases found
    exact List.suffix_rfl
  follows _ := .inl rfl
  keeps _ _ found := by
    cases found
    rfl

end Combinators

section Texts

variable {text more : List Char}

theorem span_gap {part : Char → Bool} (stops : part ' ' = false) (blank : more.head? = some ' ') :
    (text ++ more).takeWhile part = text.takeWhile part ∧
      (text ++ more).dropWhile part = text.dropWhile part ++ more := by
  obtain ⟨tail, rfl⟩ := List.head?_eq_some_iff.mp blank
  induction text with
  | nil => simp [stops]
  | cons c text ih =>
      by_cases inside : part c = true
      · simp [inside, ih]
      · simp [inside]

theorem trimLeft_gap (gap : IsGap text more) (nonempty : text ≠ []) :
    trimLeft (text ++ more) = trimLeft text ++ more ∧ trimLeft text ≠ [] := by
  obtain ⟨front, last, rfl⟩ := (List.eq_nil_or_concat text).resolve_left nonempty
  rw [List.concat_eq_append] at gap ⊢
  have solid := gap.solid last List.getLast?_concat
  rw [List.append_assoc, List.singleton_append, trimLeft_append_cons solid,
    trimLeft_append_cons solid]
  simp

theorem trimLeft_length_lt (blank : more.head? = some ' ') :
    (trimLeft more).length < more.length := by
  obtain ⟨tail, rfl⟩ := List.head?_eq_some_iff.mp blank
  have first : isBlank ' ' = true := by decide
  rw [trimLeft, List.dropWhile_cons_of_pos first]
  exact Nat.lt_succ_of_le (List.dropWhile_suffix isBlank).length_le

end Texts

section Readers

variable {β : Type} [HasRest β] {strict : Prop}

theorem Follows.afterRun {part : Char → Bool} (stops : part ' ' = false)
    {next? : List Char → List Char → Option β} (next : ∀ run, Follows strict (next? run)) :
    Follows strict fun text : List Char => next? (text.takeWhile part) (text.dropWhile part) where
  suffix found := ((next _).suffix found).trans (List.dropWhile_suffix part)
  follows {text more} gap := by
    obtain ⟨run, left⟩ := @span_gap text more part stops gap.blank
    change ReadsOn _ (next? ((text ++ more).takeWhile part) ((text ++ more).dropWhile part)) more
    rw [run, left]
    exact (next _).follows (gap.of_suffix (List.dropWhile_suffix part))
  keeps {text more value} holds gap found := by
    obtain ⟨run, left⟩ := @span_gap text more part stops gap.blank
    change next? ((text ++ more).takeWhile part) ((text ++ more).dropWhile part) = _
    rw [run, left]
    exact (next _).keeps holds (gap.of_suffix (List.dropWhile_suffix part)) found

theorem Follows.trimmed {read? : List Char → Option β} (reads : Follows strict read?)
    (nil : read? [] = none) : Follows strict fun text => read? (trimLeft text) where
  suffix found := (reads.suffix found).trans (List.dropWhile_suffix isBlank)
  follows {text more} gap := by
    by_cases empty : text = []
    · subst empty
      change ReadsOn (read? []) (read? (trimLeft more)) more
      cases found : read? (trimLeft more) with
      | none => exact .inl (by rw [nil]; rfl)
      | some value =>
          right
          exact ⟨value, rfl, (reads.suffix found).length_le.trans_lt (trimLeft_length_lt gap.blank)⟩
    · have same : trimLeft (text ++ more) = trimLeft text ++ more := (trimLeft_gap gap empty).1
      change ReadsOn _ (read? (trimLeft (text ++ more))) more
      rw [same]
      exact reads.follows (gap.of_suffix (List.dropWhile_suffix isBlank))
  keeps {text more value} holds gap found := by
    have nonempty : text ≠ [] := by
      rintro rfl
      rw [show trimLeft [] = [] from rfl, nil] at found
      cases found
    have same : trimLeft (text ++ more) = trimLeft text ++ more := (trimLeft_gap gap nonempty).1
    change read? (trimLeft (text ++ more)) = _
    rw [same]
    exact reads.keeps holds (gap.of_suffix (List.dropWhile_suffix isBlank)) found

theorem after?_append {word text more : List Char} (solid : ' ' ∉ word)
    (blank : more.head? = some ' ') :
    after? word (text ++ more) = (after? word text).map (· ++ more) := by
  induction word generalizing text with
  | nil => simp [after?]
  | cons w word ih =>
      rw [List.mem_cons, not_or] at solid
      cases text with
      | nil =>
          obtain ⟨tail, rfl⟩ := List.head?_eq_some_iff.mp blank
          simp [after?, Ne.symm solid.1]
      | cons c text =>
          rw [List.cons_append, after?, after?, ih solid.2]
          split <;> rfl

theorem after?_follows {word : List Char} (solid : ' ' ∉ word) : Follows strict (after? word) where
  suffix found := ⟨word, (after?_eq_some_iff.mp found).symm⟩
  follows gap := .inl (after?_append solid gap.blank)
  keeps {text more value} _ gap found := by
    change after? word (text ++ more) = _
    rw [after?_append solid gap.blank, found]
    rfl

theorem blanks?_append {text more : List Char} (gap : IsGap text more) (nonempty : text ≠ []) :
    blanks? (text ++ more) = (blanks? text).map (· ++ more) := by
  cases text with
  | nil => exact absurd rfl nonempty
  | cons c text =>
      rw [List.cons_append, blanks?, blanks?]
      split
      · rename_i blank
        have later : text ≠ [] := by
          rintro rfl
          have solid := gap.solid c rfl
          rw [blank] at solid
          cases solid
        rw [(trimLeft_gap (gap.of_suffix (List.suffix_cons c text)) later).1]
        rfl
      · rfl

theorem blanks?_follows : Follows strict blanks? where
  suffix {text value} found := by
    cases text with
    | nil => cases found
    | cons c text =>
        rw [blanks?, Option.ite_none_right_eq_some] at found
        obtain rfl := Option.some.inj found.2
        exact (List.dropWhile_suffix isBlank).trans (List.suffix_cons c text)
  follows {text more} gap := by
    cases text with
    | cons c text => exact .inl (blanks?_append gap (List.cons_ne_nil c text))
    | nil =>
        right
        obtain ⟨tail, rfl⟩ := List.head?_eq_some_iff.mp gap.blank
        exact ⟨trimLeft tail, rfl, Nat.lt_succ_of_le (List.dropWhile_suffix isBlank).length_le⟩
  keeps {text more value} _ gap found := by
    have nonempty : text ≠ [] := by
      rintro rfl
      cases found
    exact (blanks?_append gap nonempty).trans (congrArg _ found)

theorem bracketed?_eq_some {opening closing : Char} {text inside left : List Char} :
    bracketed? opening closing text = some (inside, left) ↔
      closing ∉ inside ∧ text = opening :: (inside ++ closing :: left) := by
  constructor
  · intro found
    cases text with
    | nil => cases found
    | cons c text =>
        rw [bracketed?, Option.ite_none_right_eq_some] at found
        obtain ⟨rfl, found⟩ := found
        split at found
        · rename_i d back ends
          obtain ⟨rfl, rfl⟩ := Prod.mk.inj (Option.some.inj found)
          have last : d = closing := by
            have first := List.head?_dropWhile_not (· != closing) text
            simpa [ends] using first
          rw [last] at ends
          refine ⟨fun member => ?_, ?_⟩
          · simpa using List.mem_takeWhile_imp member
          · rw [← ends, List.takeWhile_append_dropWhile]
        · cases found
  · rintro ⟨apart, rfl⟩
    have before : ∀ c ∈ inside, (c != closing) = true := by
      intro c member
      rw [bne_iff_ne]
      rintro rfl
      exact apart member
    have ends : ∀ c, (closing :: left).head? = some c → (c != closing) = false := by simp
    obtain ⟨taken, back⟩ := span_append before ends
    rw [bracketed?, if_pos rfl, back, taken]

theorem bracketed?_follows (opening closing : Char) :
    Follows strict (bracketed? opening closing) := by
  have kept {text more inside left : List Char}
      (found : bracketed? opening closing text = some (inside, left)) :
      bracketed? opening closing (text ++ more) = some (inside, left ++ more) := by
    obtain ⟨apart, rfl⟩ := bracketed?_eq_some.mp found
    exact bracketed?_eq_some.mpr ⟨apart, by simp⟩
  refine ⟨fun {text value} found => ?_, fun {text more} gap => ?_, fun _ _ found => kept found⟩
  · obtain ⟨-, rfl⟩ := bracketed?_eq_some.mp found
    exact ⟨opening :: (value.1 ++ [closing]), by simp [rest]⟩
  · cases front : bracketed? opening closing text with
    | some value => exact .inl (kept front)
    | none =>
        cases whole : bracketed? opening closing (text ++ more) with
        | none => exact .inl rfl
        | some value =>
            refine .inr ⟨value, rfl, Nat.lt_of_not_le fun short => ?_⟩
            obtain ⟨apart, same⟩ := bracketed?_eq_some.mp whole
            -- Nothing past the front was read, so the bracket closes in it.
            have ends : value.2 <:+ text ++ more := by
              rw [same]
              exact ⟨opening :: (value.1 ++ [closing]), by simp⟩
            obtain ⟨back, behind⟩ := List.suffix_of_suffix_length_le
              (List.suffix_append text more) ends short
            have inFront : text = opening :: (value.1 ++ closing :: back) := by
              apply (List.append_left_inj more).mp
              rw [same, ← behind]
              simp
            rw [bracketed?_eq_some.mpr ⟨apart, inFront⟩] at front
            cases front

def symbol? (symbol : Char) (text : List Char) : Option (List Char) :=
  after? [symbol] (trimLeft text)

theorem symbol?_follows {symbol : Char} (solid : symbol ≠ ' ') : Follows strict (symbol? symbol) :=
  (after?_follows (by simpa using solid.symm)).trimmed rfl

theorem eq_symbol?_bind {α : Type} {symbol : Char} {next? : List Char → Option α}
    {read : Option α} {text : List Char}
    (opened : ∀ left, trimLeft text = symbol :: left → read = next? left)
    (closed : (∀ left, trimLeft text ≠ symbol :: left) → read = none) :
    read = (symbol? symbol text).bind next? := by
  unfold symbol?
  cases found : trimLeft text with
  | nil => simpa [after?] using closed (by simp [found])
  | cons c left =>
      rw [after?, after?]
      by_cases same : symbol = c
      · rw [if_pos same, opened left (same ▸ found)]
        rfl
      · rw [if_neg same, closed fun other opens => same ?_]
        · rfl
        · rw [found] at opens
          exact (List.cons.inj opens).1.symm

theorem parenthesis?_eq : parenthesis? = symbol? '(' := by
  funext text
  rw [← Option.bind_fun_some (symbol? '(' text)]
  apply eq_symbol?_bind
  · intro left opens
    rw [parenthesis?, opens]
    rfl
  · intro closed
    unfold parenthesis?
    split
    · rename_i left opens
      exact absurd opens (closed left)
    · rfl

theorem parenthesis?_follows : Follows strict parenthesis? := by
  rw [parenthesis?_eq]
  exact symbol?_follows (by decide)

theorem arrayBrackets?_eq (text : List Char) :
    arrayBrackets? text = (symbol? '[' text).bind (symbol? ']') := by
  apply eq_symbol?_bind
  · intro left opens
    simp only [arrayBrackets?, opens]
    rw [← Option.bind_fun_some (symbol? ']' left)]
    apply eq_symbol?_bind
    · intro more closes
      rw [closes]
      rfl
    · intro closed
      split
      · rename_i more closes
        exact absurd closes (closed more)
      · rfl
  · intro closed
    unfold arrayBrackets?
    split
    · rename_i left opens
      exact absurd opens (closed left)
    · rfl

theorem word?_eq (text : List Char) :
    word? text = if (text.takeWhile isWord).isEmpty then none
      else some (text.takeWhile isWord, text.dropWhile isWord) := by
  unfold word?
  cases text.takeWhile isWord <;> rfl

theorem word?_follows : Follows strict word? := by
  have leaves (run : List Char) : Follows strict fun left : List Char =>
      if run.isEmpty then none else some (run, left) :=
    Follows.ite _ Follows.never (Follows.leaving run)
  rw [funext word?_eq]
  exact Follows.afterRun (by decide) leaves

end Readers

section Repetition

variable {β : Type} [HasRest β] {strict : Prop}

theorem skipItems_suffix {item? : List Char → Option (List Char)} (items : Follows True item?)
    (fuel : Nat) (text : List Char) : skipItems item? fuel text <:+ text := by
  induction fuel generalizing text with
  | zero => exact List.suffix_rfl
  | succ fuel ih =>
      rw [skipItems]
      split
      · rename_i left found
        exact (ih left).trans (items.suffix found)
      · exact List.suffix_rfl

/-- Items before what is read next, if nothing is read next where an item ends past the front. -/
theorem Follows.afterItems {item? : List Char → Option (List Char)} {next? : List Char → Option β}
    (items : Follows True item?) (next : Follows strict next?)
    (stops : ∀ {text more : List Char}, IsGap text more → item? text = none →
      (item? (text ++ more)).isSome = true → next? text = none) (fuel : Nat) :
    Follows strict fun text => next? (skipItems item? fuel text) where
  suffix found := (next.suffix found).trans (skipItems_suffix items fuel _)
  follows {text more} gap := by
    induction fuel generalizing text with
    | zero => exact next.follows gap
    | succ fuel ih =>
        change ReadsOn _ (next? (skipItems item? (fuel + 1) (text ++ more))) more
        rw [skipItems, skipItems]
        cases front : item? text with
        | some left =>
            rw [show item? (text ++ more) = some (left ++ more) from items.keeps trivial gap front]
            exact ih (gap.of_suffix (items.suffix front))
        | none =>
            rcases items.follows gap with same | ⟨left, past, short⟩
            · rw [front] at same
              rw [show item? (text ++ more) = none from same]
              exact next.follows gap
            · replace past : item? (text ++ more) = some left := past
              have ended : next? text = none := stops gap front (by rw [past]; rfl)
              rw [past, ended]
              dsimp only
              cases found : next? (skipItems item? fuel left) with
              | none => exact .inl rfl
              | some value =>
                  have length := ((next.suffix found).trans
                    (skipItems_suffix items fuel left)).length_le
                  exact .inr ⟨value, rfl, length.trans_lt short⟩
  keeps {text more value} holds gap found := by
    induction fuel generalizing text with
    | zero => exact next.keeps holds gap found
    | succ fuel ih =>
        change next? (skipItems item? (fuel + 1) (text ++ more)) = _
        rw [skipItems] at found ⊢
        cases front : item? text with
        | some left =>
            rw [front] at found
            rw [show item? (text ++ more) = some (left ++ more) from items.keeps trivial gap front]
            exact ih (gap.of_suffix (items.suffix front)) found
        | none =>
            rw [front] at found
            cases whole : item? (text ++ more) with
            | none => exact next.keeps holds gap found
            | some left =>
                have ended : next? text = none := stops gap front (whole ▸ rfl)
                rw [ended] at found
                cases found

theorem Follows.skipTo {next? : List Char → Option β} (next : Follows False next?)
    (part : Char → Bool) (closing : Char) : Follows False (skipTo part closing next?) := by
  have suffix {text : List Char} {value : β} (found : Header.skipTo part closing next? text =
      some value) : rest value <:+ text.tail := by
    induction text with
    | nil => cases found
    | cons c text ih =>
        rcases (Option.orElse_eq_some _ _ _).mp found with here | ⟨-, later⟩
        · rw [Option.ite_none_right_eq_some] at here
          exact next.suffix here.2
        · rw [Option.ite_none_right_eq_some] at later
          exact (ih later.2).trans (List.tail_suffix text)
  refine ⟨fun found => (suffix found).trans (List.tail_suffix _), fun {text more} gap => ?_,
    fun impossible => impossible.elim⟩
  induction text with
  | nil =>
      change ReadsOn none (Header.skipTo part closing next? more) more
      cases found : Header.skipTo part closing next? more with
      | none => exact .inl rfl
      | some value =>
          obtain ⟨tail, rfl⟩ := List.head?_eq_some_iff.mp gap.blank
          exact .inr ⟨value, rfl, Nat.lt_succ_of_le (suffix found).length_le⟩
  | cons c text ih =>
      have later : IsGap text more := gap.of_suffix (List.suffix_cons c text)
      apply ReadsOn.orElse
      · by_cases closes : c = closing
        · simp only [if_pos closes]
          exact next.follows later
        · simp only [if_neg closes]
          exact .inl rfl
      · by_cases inside : part c = true
        · simp only [if_pos inside]
          exact ih later
        · simp only [if_neg inside]
          exact .inl rfl

/-- A reader with fuel, if the length of the text is enough of it. -/
theorem Follows.of_fuel {read? : Nat → List Char → Option β}
    (fixed : ∀ fuel, Follows strict (read? fuel))
    (enough : ∀ {fuel text}, text.length ≤ fuel → read? fuel text = read? text.length text) :
    Follows strict fun text => read? text.length text where
  suffix {text _} found := (fixed text.length).suffix found
  follows {text more} gap := by
    have length : text.length ≤ (text ++ more).length := by simp
    change ReadsOn (read? text.length text) _ more
    rw [← enough length]
    exact (fixed _).follows gap
  keeps {text more value} holds gap found := by
    have length : text.length ≤ (text ++ more).length := by simp
    rw [← enough length] at found
    exact (fixed _).keeps holds gap found

theorem skipItems_fuel {item? : List Char → Option (List Char)}
    (shorter : ∀ {text left}, item? text = some left → left.length < text.length)
    {fuel other : Nat} {text : List Char} (enough : text.length ≤ fuel)
    (enoughToo : text.length ≤ other) :
    skipItems item? fuel text = skipItems item? other text := by
  induction fuel generalizing other text with
  | zero =>
      have empty : text.length = 0 := Nat.le_zero.mp enough
      cases other with
      | zero => rfl
      | succ other =>
          rw [skipItems, skipItems]
          split
          · rename_i left found
            have length := shorter found
            omega
          · rfl
  | succ fuel ih =>
      rw [skipItems]
      split
      · rename_i left found
        have length := shorter found
        cases other with
        | zero => omega
        | succ other =>
            rw [skipItems, found]
            exact ih (by omega) (by omega)
      · rename_i found
        cases other with
        | zero => rfl
        | succ other => rw [skipItems, found]

end Repetition

section Words

variable {strict : Prop}

def ArePlain (words : List String) : Prop :=
  ∀ word ∈ words, ∀ c ∈ word.toList, isBlank c = false ∧ c ≠ '@' ∧ c ≠ '('

theorem after?_bind_blanks? {word : List Char} (solid : ∀ c ∈ word, isBlank c = false)
    (text : List Char) :
    (after? word text).bind blanks? =
      if text.takeWhile (fun c => !isBlank c) = word then
        blanks? (text.dropWhile fun c => !isBlank c)
      else none := by
  split
  · rename_i same
    have split : text = word ++ text.dropWhile fun c => !isBlank c := by
      rw [← same, List.takeWhile_append_dropWhile]
    rw [after?_eq_some_iff.mpr split]
    rfl
  · rename_i differ
    rw [Option.bind_eq_none_iff]
    intro left found
    obtain rfl := after?_eq_some_iff.mp found
    cases left with
    | nil => rfl
    | cons c left =>
        rw [blanks?, if_neg]
        intro blank
        apply differ
        exact (span_append (fun d member => by simp [solid d member]) (by simp [blank])).1

theorem keyword?_eq {keywords : List String} (plain : ArePlain keywords) (text : List Char) :
    keyword? keywords text =
      if String.ofList (text.takeWhile fun c => !isBlank c) ∈ keywords then
        (blanks? (text.dropWhile fun c => !isBlank c)).map fun left =>
          (String.ofList (text.takeWhile fun c => !isBlank c), left)
      else none := by
  induction keywords with
  | nil => rfl
  | cons word keywords ih =>
      have later := ih fun other member => plain other (List.mem_cons_of_mem _ member)
      rw [keyword?] at later
      rw [keyword?, List.findSome?_cons, later,
        after?_bind_blanks? fun c member => (plain word List.mem_cons_self c member).1]
      by_cases same : text.takeWhile (fun c => !isBlank c) = word.toList
      · have known : String.ofList (text.takeWhile fun c => !isBlank c) = word := by
          rw [same, String.ofList_toList]
        rw [if_pos same, known]
        cases blanks? (text.dropWhile fun c => !isBlank c) with
        | none => simp
        | some left => simp
      · have other : String.ofList (text.takeWhile fun c => !isBlank c) ≠ word := by
          rintro rfl
          simp at same
        rw [if_neg same]
        simp [other]

theorem keyword?_follows {keywords : List String} (plain : ArePlain keywords) :
    Follows strict (keyword? keywords) := by
  have next (run : List Char) : Follows strict fun left : List Char =>
      if String.ofList run ∈ keywords then (blanks? left).map fun left => (String.ofList run, left)
      else none :=
    Follows.ite _ (blanks?_follows.map (fun _ left => (String.ofList run, left)) (fun _ _ => rfl)
      (fun _ _ _ => rfl)) Follows.never
  rw [funext (keyword?_eq plain)]
  exact Follows.afterRun (by decide) next

theorem keyword?_of_sign {keywords : List String} (plain : ArePlain keywords) {c : Char}
    (sign : c = '@' ∨ c = '(') (text : List Char) : keyword? keywords (c :: text) = none := by
  have solid : (!isBlank c) = true := by rcases sign with rfl | rfl <;> decide
  rw [keyword?_eq plain, if_neg]
  intro member
  have first : c ∈ (c :: text).takeWhile fun c => !isBlank c := by
    rw [List.takeWhile_cons, if_pos solid]
    exact List.mem_cons_self
  have apart := plain _ member c (by rwa [String.toList_ofList])
  exact sign.elim apart.2.1 apart.2.2

theorem blanks?_eq_some {text left : List Char} (found : blanks? text = some left) :
    trimLeft text = left ∧ ∃ c, text.head? = some c ∧ isBlank c = true := by
  cases text with
  | nil => cases found
  | cons c text =>
      rw [blanks?, Option.ite_none_right_eq_some] at found
      obtain ⟨blank, same⟩ := found
      obtain rfl := Option.some.inj same
      exact ⟨List.dropWhile_cons_of_pos blank, c, rfl, blank⟩

theorem blanks?_shorter {text left : List Char} (found : blanks? text = some left) :
    left.length < text.length := by
  cases text with
  | nil => cases found
  | cons c text =>
      rw [blanks?, Option.ite_none_right_eq_some] at found
      obtain rfl := Option.some.inj found.2
      exact Nat.lt_succ_of_le (List.dropWhile_suffix isBlank).length_le

theorem keyword?_shorter {keywords : List String} (plain : ArePlain keywords) {text : List Char}
    {pair : String × List Char} (found : keyword? keywords text = some pair) :
    pair.2.length < text.length := by
  rw [keyword?_eq plain, Option.ite_none_right_eq_some] at found
  obtain ⟨left, blank, rfl⟩ := Option.map_eq_some_iff.mp found.2
  exact (blanks?_shorter blank).trans_le (List.dropWhile_suffix _).length_le

end Words

end MethodFlow.Header
