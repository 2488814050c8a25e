import MethodFlow.Header.Continuation
import MethodFlow.Proofs.Header.Bodies

/-!
Headers of methods with the brace of the body behind them. A header that reads is read with the
brace as the same method, and the brace stands at the end of its tail (`method?_braced`).
-/
namespace MethodFlow.Header

open Text HasRest

section Tails

def withBrace (body : List Char) : List Char :=
  if body = [] then ['{'] else body ++ bodyBrace

theorem withBrace_suffix {body text : List Char} (suffix : body <:+ text) :
    withBrace body <:+ text ++ bodyBrace := by
  unfold withBrace
  split
  · exact (List.suffix_cons ' ' ['{']).trans (List.suffix_append text bodyBrace)
  · obtain ⟨front, rfl⟩ := suffix
    exact ⟨front, (List.append_assoc front body bodyBrace).symm⟩

theorem isOneLine_gap {c : Char} {body : List Char} (gap : IsGap (c :: body) bodyBrace) :
    isOneLine (body ++ bodyBrace) = isOneLine body := by
  have whole : (body ++ bodyBrace).dropLast = body ++ [' '] := by
    rw [bodyBrace, List.dropLast_append_of_ne_nil (by decide)]
    rfl
  have ends : body.dropLast.contains '\n' = body.contains '\n' := by
    rcases List.eq_nil_or_concat' body with rfl | ⟨front, last, rfl⟩
    · rfl
    · have solid : isBlank last = false := by
        apply gap.solid
        rw [← List.cons_append, List.getLast?_concat]
      have other : '\n' ≠ last := by
        rintro rfl
        exact absurd solid (by decide)
      simp [other]
  rw [isOneLine, isOneLine, whole, ends]
  simp

theorem methodBody?_braced {starts : List Char} (opens : '{' ∈ starts) {text : List Char}
    (gap : IsGap text bodyBrace) :
    methodBody? starts (text ++ bodyBrace) = (methodBody? starts text).map withBrace := by
  by_cases empty : text = []
  · subst empty
    have brace : trimLeft ([] ++ bodyBrace) = ['{'] := by decide
    have listed : starts.contains '{' = true := List.contains_iff_mem.mpr opens
    rw [methodBody?, brace]
    dsimp only
    rw [listed]
    rfl
  · obtain ⟨trimmed, nonempty⟩ := trimLeft_gap gap empty
    obtain ⟨c, body, found⟩ := List.exists_cons_of_ne_nil nonempty
    have within : IsGap (c :: body) bodyBrace := found ▸ gap.of_suffix (List.dropWhile_suffix isBlank)
    simp only [methodBody?, trimmed, found, List.cons_append, isOneLine_gap within]
    split
    · rfl
    · rfl

section Runs

variable {α : Type} {next? : List Char → Option α} {view : α → α} {part : Char → Bool}
  {text : List Char}
  (reads : ∀ {left}, left <:+ text → next? (left ++ bodyBrace) = (next? left).map view)
  (ends : (next? []).isSome = true)

include reads ends

theorem shortestRun_braced (nonempty : text ≠ []) :
    shortestRun part next? (text ++ bodyBrace) =
      (shortestRun part next? text).map (Prod.map id view) := by
  induction text with
  | nil => exact absurd rfl nonempty
  | cons c text ih =>
      have later {left : List Char} (suffix : left <:+ text) :
          next? (left ++ bodyBrace) = (next? left).map view :=
        reads (suffix.trans (List.suffix_cons c text))
      rw [List.cons_append, shortestRun, shortestRun, later List.suffix_rfl]
      split
      · cases found : next? text with
        | some value => rfl
        | none =>
            have more : text ≠ [] := by
              rintro rfl
              rw [found] at ends
              cases ends
            rw [Option.map_none, ih later more, Option.map_map, Option.map_map]
            rfl
      · rfl

theorem runAfterBlanks_braced (least : Nat) (gap : IsGap text bodyBrace) (nonempty : text ≠ []) :
    runAfterBlanks least part next? (text ++ bodyBrace) =
      (runAfterBlanks least part next? text).map (Prod.map id view) := by
  have suffix : trimLeft text <:+ text := List.dropWhile_suffix isBlank
  obtain ⟨trimmed, more⟩ := trimLeft_gap gap nonempty
  have run := @shortestRun_braced α next? view part (trimLeft text)
    (fun inside => reads (inside.trans suffix)) ends more
  unfold runAfterBlanks
  dsimp only
  rw [takeWhile_isBlank_gap gap nonempty, trimmed, run, reads suffix]
  split
  · rfl
  · cases shortestRun part next? (trimLeft text) with
    | some value => rfl
    | none =>
        change (if least < (text.takeWhile isBlank).length then _ else none) =
          Option.map _ (if least < (text.takeWhile isBlank).length then _ else none)
        split
        · rw [Option.map_map, Option.map_map]
          rfl
        · rfl

end Runs

theorem symbol?_braced {symbol : Char} (solid : symbol ≠ ' ') (other : symbol ≠ '{')
    {text : List Char} (gap : IsGap text bodyBrace) :
    symbol? symbol (text ++ bodyBrace) = (symbol? symbol text).map (· ++ bodyBrace) := by
  by_cases empty : text = []
  · subst empty
    have brace : trimLeft ([] ++ bodyBrace) = ['{'] := by decide
    rw [symbol?, brace, after?, if_neg other]
    rfl
  · rw [symbol?, (trimLeft_gap gap empty).1, after?_append (by simpa using solid.symm) gap.blank]
    rfl

def exceptions? (starts text : List Char) : Option (List Char) :=
  ((runAfterBlanks 1 isExceptionListPart (methodBody? starts) text).map Prod.snd) <|>
    methodBody? starts text

theorem exceptions?_braced {starts : List Char} (opens : '{' ∈ starts) {text : List Char}
    (gap : IsGap text bodyBrace) :
    exceptions? starts (text ++ bodyBrace) = (exceptions? starts text).map withBrace := by
  unfold exceptions?
  rw [methodBody?_braced opens gap]
  by_cases empty : text = []
  · subst empty
    rfl
  · rw [runAfterBlanks_braced (fun suffix => methodBody?_braced opens (gap.of_suffix suffix)) rfl 1
      gap empty]
    cases runAfterBlanks 1 isExceptionListPart (methodBody? starts) text <;> rfl

theorem javaTail?_braced {starts : List Char} (opens : '{' ∈ starts) {text : List Char}
    (gap : IsGap text bodyBrace) :
    javaTail? starts (text ++ bodyBrace) = (javaTail? starts text).map withBrace := by
  have announced : (after? "throws".toList (trimLeft (text ++ bodyBrace))).bind
      (exceptions? starts) =
      ((after? "throws".toList (trimLeft text)).bind (exceptions? starts)).map withBrace := by
    by_cases empty : text = []
    · subst empty
      rfl
    · rw [(trimLeft_gap gap empty).1, after?_append (by decide) gap.blank]
      cases found : after? "throws".toList (trimLeft text) with
      | none => rfl
      | some left =>
          have suffix : left <:+ text :=
            ((@after?_follows True _ (by decide)).suffix found).trans (List.dropWhile_suffix isBlank)
          exact exceptions?_braced opens (gap.of_suffix suffix)
  change ((after? "throws".toList (trimLeft (text ++ bodyBrace))).bind (exceptions? starts) <|>
    methodBody? starts (text ++ bodyBrace)) = Option.map withBrace
      ((after? "throws".toList (trimLeft text)).bind (exceptions? starts) <|>
        methodBody? starts text)
  rw [announced, methodBody?_braced opens gap]
  cases (after? "throws".toList (trimLeft text)).bind (exceptions? starts) <;> rfl

def statedType? (text : List Char) : Option (Option (List Char) × List Char) :=
  (runAfterBlanks 0 (fun c => c != '{' && c != '=') (methodBody? ['{', '=']) text).map
    fun pair => (some pair.1, pair.2)

theorem kotlinTail?_eq (text : List Char) :
    kotlinTail? text = ((symbol? ':' text).bind statedType? <|>
      (methodBody? ['{', '='] text).map fun body => (none, body)) := by
  unfold kotlinTail?
  congr 1
  apply eq_symbol?_bind
  · intro left opens
    rw [opens]
    rfl
  · intro closed
    split
    · rename_i left opens
      exact absurd opens (closed left)
    · rfl

theorem statedType?_braced {text : List Char} (gap : IsGap text bodyBrace) (nonempty : text ≠ []) :
    statedType? (text ++ bodyBrace) = (statedType? text).map (Prod.map id withBrace) := by
  have body {left : List Char} (suffix : left <:+ text) :=
    @methodBody?_braced ['{', '='] (by decide) left (gap.of_suffix suffix)
  unfold statedType?
  rw [runAfterBlanks_braced body rfl 0 gap nonempty, Option.map_map, Option.map_map]
  rfl

theorem kotlinTail?_braced {text : List Char} (gap : IsGap text bodyBrace)
    {value : Option (List Char) × List Char} (found : kotlinTail? text = some value) :
    kotlinTail? (text ++ bodyBrace) = some (value.1, withBrace value.2) := by
  rw [kotlinTail?_eq] at found ⊢
  rw [symbol?_braced (by decide) (by decide) gap, methodBody?_braced (by decide) gap]
  rcases (Option.orElse_eq_some _ _ _).mp found with typed | ⟨-, bare⟩
  · obtain ⟨left, colon, read⟩ := Option.bind_eq_some_iff.mp typed
    have suffix : left <:+ text := (@symbol?_follows True ':' (by decide)).suffix colon
    have nonempty : left ≠ [] := by
      rintro rfl
      cases read
    have braced := statedType?_braced (gap.of_suffix suffix) nonempty
    rw [read] at braced
    rw [colon, Option.map_some, Option.bind_some, braced]
    rfl
  · obtain ⟨body, read, rfl⟩ := Option.map_eq_some_iff.mp bare
    have untyped : symbol? ':' text = none := by
      rw [Option.eq_none_iff_forall_ne_some]
      intro left colon
      have opens : trimLeft text = ':' :: left := after?_eq_some_iff.mp colon
      rw [methodBody?, opens] at read
      cases read
    rw [untyped, read]
    rfl

end Tails

section Methods

theorem closingOffset_braced (depth : Int) (text : List Char) :
    closingOffset depth (text ++ bodyBrace) = closingOffset depth text := by
  induction text generalizing depth with
  | nil => rfl
  | cons c text ih =>
      rw [List.cons_append, closingOffset, closingOffset, ih, ih, ih]

theorem closingOffset_lt {depth : Int} {text : List Char} {offset : Nat}
    (found : closingOffset depth text = some offset) : offset < text.length := by
  induction text generalizing depth offset with
  | nil => cases found
  | cons c text ih =>
      rcases closingOffset_step depth c with ⟨-, closes⟩ | ⟨next, passes⟩
      · rw [closes] at found
        obtain rfl := Option.some.inj found
        exact Nat.succ_pos _
      · rw [passes] at found
        obtain ⟨inner, closes, rfl⟩ := Option.map_eq_some_iff.mp found
        exact Nat.succ_lt_succ (ih closes)

theorem withTail?_of_closed {α : Type} {header : List Char} {head : MethodHead}
    {tail? : List Char → Option (α × List Char)} {returnType : Option α → Option String}
    {offset : Nat} {value : α × List Char} (closed : closingOffset 1 head.rest = some offset)
    (tail : tail? (head.rest.drop (offset + 1)) = some value) :
    withTail? header head tail? returnType =
      some ⟨head.name, head.visibility, head.rest.take offset, returnType (some value.1),
        some (header.length - value.2.length)⟩ := by
  rw [withTail?, closed]
  dsimp only
  rw [tail]
  rfl

/-- A header of the same method that has the brace of the body at the end of its tail. -/
structure IsBraced (header : List Char) (read braced : MethodHeader) : Prop where
  name : braced.name = read.name
  visibility : braced.visibility = read.visibility
  tail : (braced.tailStart.map fun start => (header ++ bodyBrace).drop start) =
    read.tailStart.map fun start => withBrace (header.drop start)

theorem withTail?_braced {α : Type} {header : List Char} {head : MethodHead}
    {tail? : List Char → Option (α × List Char)} {returnType : Option α → Option String}
    {read : MethodHeader} (gap : IsGap header bodyBrace) (within : head.rest <:+ header)
    (suffix : ∀ {text value}, tail? text = some value → value.2 <:+ text)
    (reads : ∀ {text value}, IsGap text bodyBrace → tail? text = some value →
      tail? (text ++ bodyBrace) = some (value.1, withBrace value.2))
    (found : withTail? header head tail? returnType = some read) :
    ∃ braced, withTail? (header ++ bodyBrace) (extend head bodyBrace) tail? returnType =
      some braced ∧ IsBraced header read braced := by
  have list : closingOffset 1 (extend head bodyBrace).rest = closingOffset 1 head.rest :=
    closingOffset_braced 1 head.rest
  cases closing : closingOffset 1 head.rest with
  | none =>
      rw [withTail?_of_open closing, Option.some.injEq] at found
      subst found
      exact ⟨_, withTail?_of_open (list.trans closing), rfl, rfl, rfl⟩
  | some offset =>
      rw [withTail?, closing] at found
      obtain ⟨⟨value, body⟩, tailRead, rfl⟩ := Option.map_eq_some_iff.mp found
      have behind : head.rest.drop (offset + 1) <:+ header :=
        (List.drop_suffix _ _).trans within
      have inside : body <:+ header := (suffix tailRead).trans behind
      have dropped : (head.rest ++ bodyBrace).drop (offset + 1) =
          head.rest.drop (offset + 1) ++ bodyBrace :=
        List.drop_append_of_le_length (closingOffset_lt closing)
      have tail : tail? ((extend head bodyBrace).rest.drop (offset + 1)) =
          some (value, withBrace body) := by
        change tail? ((head.rest ++ bodyBrace).drop (offset + 1)) = _
        rw [dropped]
        exact reads (gap.of_suffix behind) tailRead
      refine ⟨_, withTail?_of_closed (list.trans closing) tail, rfl, rfl, ?_⟩
      change some ((header ++ bodyBrace).drop _) = some (withBrace (header.drop _))
      rw [← List.suffix_iff_eq_drop.mp (withBrace_suffix inside),
        ← List.suffix_iff_eq_drop.mp inside]

theorem withJavaTail?_isSome {header : List Char} {head : MethodHead} {starts : List Char}
    {type : Option String} (opens : '{' ∈ starts) (gap : IsGap head.rest bodyBrace) :
    (withJavaTail? (header ++ bodyBrace) (extend head bodyBrace) starts type).isSome =
      (withJavaTail? header head starts type).isSome := by
  have list : closingOffset 1 (extend head bodyBrace).rest = closingOffset 1 head.rest :=
    closingOffset_braced 1 head.rest
  rw [withJavaTail?, withJavaTail?, withTail?, withTail?, list]
  cases closing : closingOffset 1 head.rest with
  | none => rfl
  | some offset =>
      have dropped : (extend head bodyBrace).rest.drop (offset + 1) =
          head.rest.drop (offset + 1) ++ bodyBrace :=
        List.drop_append_of_le_length (closingOffset_lt closing)
      have tail := javaTail?_braced opens (gap.of_suffix (List.drop_suffix (offset + 1) head.rest))
      simp only [dropped, tail, Option.isSome_map]

theorem withJavaTail?_braced {header : List Char} {head : MethodHead} {starts : List Char}
    {type : Option String} {read : MethodHeader} (opens : '{' ∈ starts)
    (gap : IsGap header bodyBrace) (within : head.rest <:+ header)
    (found : withJavaTail? header head starts type = some read) :
    ∃ braced, withJavaTail? (header ++ bodyBrace) (extend head bodyBrace) starts type =
      some braced ∧ IsBraced header read braced := by
  refine withTail?_braced gap within ?_ ?_ found
  · intro text value tail
    obtain ⟨body, read, rfl⟩ := Option.map_eq_some_iff.mp tail
    exact javaTail?_suffix read
  · intro text value tailGap tail
    obtain ⟨body, read, rfl⟩ := Option.map_eq_some_iff.mp tail
    rw [javaTail?_braced opens tailGap, read]
    rfl

section Java

variable {header : List Char} (gap : IsGap header bodyBrace)

include gap

theorem constructor?_isSome_braced (className : String) :
    (constructor? className (header ++ bodyBrace)).isSome =
      (constructor? className header).isSome := by
  rw [constructor?, constructor?, constructorHead?_braced gap]
  cases found : constructorHead? header with
  | none => rfl
  | some head =>
      have within : head.rest <:+ header :=
        (List.suffix_cons '(' head.rest).trans (constructorHead?_ends found)
      change (if head.name = className then _ else none).isSome =
        (if head.name = className then _ else none).isSome
      split
      · exact withJavaTail?_isSome (by decide) (gap.of_suffix within)
      · rfl

theorem constructor?_braced {className : String} {read : MethodHeader}
    (found : constructor? className header = some read) :
    ∃ braced, constructor? className (header ++ bodyBrace) = some braced ∧
      IsBraced header read braced := by
  obtain ⟨head, headRead, tail⟩ := Option.bind_eq_some_iff.mp found
  have within : head.rest <:+ header :=
    (List.suffix_cons '(' head.rest).trans (constructorHead?_ends headRead)
  rw [Option.ite_none_right_eq_some] at tail
  rw [constructor?, constructorHead?_braced gap, headRead]
  change ∃ braced, (if head.name = className then _ else none) = some braced ∧ _
  rw [if_pos tail.1]
  exact withJavaTail?_braced (by decide) gap within tail.2

theorem javaMethod?_braced {read : MethodHeader} (found : javaMethod? header = some read) :
    ∃ braced, javaMethod? (header ++ bodyBrace) = some braced ∧ IsBraced header read braced := by
  obtain ⟨head, headRead, tail⟩ := Option.bind_eq_some_iff.mp found
  have within : head.rest <:+ header :=
    (List.suffix_cons '(' head.rest).trans (javaMethodHead?_ends headRead)
  rw [Option.ite_none_left_eq_some] at tail
  rw [javaMethod?, javaMethodHead?_braced gap, headRead]
  change ∃ braced, (if statementWords.contains (String.ofList head.returnType) = true then none
    else _) = some braced ∧ _
  rw [if_neg tail.1]
  exact withJavaTail?_braced (by decide) gap within tail.2

end Java

/-- A header of a method is read with its brace as the same method. -/
theorem method?_braced {dialect : Dialect} {className : String} {header : List Char}
    (gap : IsGap header bodyBrace) {read : MethodHeader}
    (found : method? dialect className header = some read) :
    ∃ braced, method? dialect className (header ++ bodyBrace) = some braced ∧
      IsBraced header read braced := by
  cases dialect with
  | kotlin =>
      obtain ⟨head, headRead, tail⟩ := Option.bind_eq_some_iff.mp found
      have within : head.rest <:+ header :=
        (List.suffix_cons '(' head.rest).trans (kotlinFunctionHead?_ends headRead)
      rw [method?, kotlinFunctionHead?_braced gap, headRead]
      exact withTail?_braced gap within kotlinTail?_suffix
        (fun tailGap read => kotlinTail?_braced tailGap read) tail
  | java =>
      rw [method?] at found ⊢
      rcases (Option.orElse_eq_some _ _ _).mp found with constructed | ⟨unlike, typed⟩
      · obtain ⟨braced, reads, same⟩ := constructor?_braced gap constructed
        exact ⟨braced, (Option.orElse_eq_some _ _ _).mpr (.inl reads), same⟩
      · have still : constructor? className (header ++ bodyBrace) = none := by
          rw [← Option.not_isSome_iff_eq_none, constructor?_isSome_braced gap, unlike]
          exact Bool.false_ne_true
        obtain ⟨braced, reads, same⟩ := javaMethod?_braced gap typed
        exact ⟨braced, (Option.orElse_eq_some _ _ _).mpr (.inr ⟨still, reads⟩), same⟩

end Methods

section Continuation

theorem wordEnds_braced (text : List Char) : wordEnds (text ++ bodyBrace) = wordEnds text := by
  cases text with
  | nil => decide
  | cons c text => rfl

/-- Whether a line is more of a header does not depend on a brace at its end. -/
theorem continues_braced (header : List Char) {line : List Char} (nonempty : line ≠ []) :
    continues header (line ++ bodyBrace) = continues header line := by
  have first : (line ++ bodyBrace).head? = line.head? := List.head?_append_of_ne_nil line nonempty
  have solid : ∀ word ∈ clauseWords ++ ["constructor"], ' ' ∉ word.toList := by decide
  have words : ((clauseWords ++ ["constructor"]).any fun word =>
      (after? word.toList (line ++ bodyBrace)).any wordEnds) =
      (clauseWords ++ ["constructor"]).any fun word => (after? word.toList line).any wordEnds := by
    rw [Bool.eq_iff_iff, List.any_eq_true, List.any_eq_true]
    refine exists_congr fun word => and_congr_right fun listed => ?_
    rw [after?_append (solid word listed) rfl]
    cases after? word.toList line with
    | none => rfl
    | some left => rw [Option.map_some, Option.any_some, Option.any_some, wordEnds_braced]
  rw [continues, continues, startsAsMore, startsAsMore, first, words]

end Continuation

end MethodFlow.Header
