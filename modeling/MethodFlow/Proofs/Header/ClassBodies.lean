import MethodFlow.Proofs.Header.Bodies

/-!
Headers of classes with the brace of the body behind them. A header that reads as a whole does so
with the brace (`supertypes?_takesBrace`), and it opens the class of the same name
(`openedClass?_braced`).
-/
namespace MethodFlow.Header

open Text HasRest

/-- A header, or what is left of one, whose body is not on its line. -/
structure IsBodiless (text : List Char) : Prop where
  gap : IsGap text bodyBrace
  braceless : '{' ∉ text

theorem IsBodiless.of_suffix {text left : List Char} (bodiless : IsBodiless text)
    (suffix : left <:+ text) : IsBodiless left :=
  ⟨bodiless.gap.of_suffix suffix, fun member => bodiless.braceless (suffix.subset member)⟩

theorem isSome_orElse {α : Type} (first second : Option α) :
    (first <|> second).isSome = (first.isSome || second.isSome) := by
  cases first <;> rfl

/-- A reader that reads a header also with a brace behind it, though maybe in another way. -/
structure TakesBrace {σ α : Type} [HasRest σ] (read? : σ → Option α) : Prop where
  takes {text : σ} : IsBodiless (rest text) → (read? text).isSome = true →
    (read? (extend text bodyBrace)).isSome = true

namespace TakesBrace

variable {σ α β : Type} [HasRest σ]

theorem map {read? : σ → Option α} (reads : TakesBrace read?) (view : α → β) :
    TakesBrace fun text => (read? text).map view where
  takes bodiless found := by
    rw [Option.isSome_map] at found ⊢
    exact reads.takes bodiless found

theorem orElse {first? second? : σ → Option α} (first : TakesBrace first?)
    (second : TakesBrace second?) : TakesBrace fun text => first? text <|> second? text where
  takes bodiless found := by
    rw [isSome_orElse, Bool.or_eq_true] at found ⊢
    exact found.imp (first.takes bodiless) (second.takes bodiless)

theorem never : TakesBrace fun _ : σ => (none : Option α) where
  takes _ found := found

theorem ite {read? other? : σ → Option α} (condition : Prop) [Decidable condition]
    (reads : TakesBrace read?) (others : TakesBrace other?) :
    TakesBrace fun text => if condition then read? text else other? text := by
  by_cases holds : condition
  · simpa only [if_pos holds] using reads
  · simpa only [if_neg holds] using others

theorem bind [HasRest β] {read? : σ → Option β} {next? : β → Option α}
    (reads : Follows True read?) (next : TakesBrace next?) :
    TakesBrace fun text => (read? text).bind next? where
  takes {text} bodiless found := by
    obtain ⟨value, read⟩ := Option.isSome_iff_exists.mp found
    obtain ⟨middle, first, second⟩ := Option.bind_eq_some_iff.mp read
    rw [reads.keeps trivial bodiless.gap first]
    exact next.takes (bodiless.of_suffix (reads.suffix first))
      (Option.isSome_iff_exists.mpr ⟨value, second⟩)

theorem curry {read? : β → List Char → Option α} (reads : ∀ value, TakesBrace (read? value)) :
    TakesBrace fun pair : β × List Char => read? pair.1 pair.2 where
  takes {pair} bodiless found := (reads pair.1).takes bodiless found

end TakesBrace

variable {α : Type} {next? : List Char → Option α}

theorem shortestRun_takesBrace (next : TakesBrace next?) (part : Char → Bool) :
    TakesBrace (shortestRun part next?) where
  takes {text} bodiless found := by
    induction text with
    | nil => cases found
    | cons c text ih =>
        have later : IsBodiless text := bodiless.of_suffix (List.suffix_cons c text)
        change (shortestRun part next? (c :: (text ++ bodyBrace))).isSome = true
        rw [shortestRun] at found ⊢
        split at found
        · rename_i inside
          rw [if_pos inside]
          cases braced : next? (text ++ bodyBrace) with
          | some value => rfl
          | none =>
              have unread : next? text = none := by
                rw [← Option.not_isSome_iff_eq_none]
                intro read
                have still : (next? (text ++ bodyBrace)).isSome = true := next.takes later read
                rw [braced] at still
                cases still
              rw [unread, Option.isSome_map] at found
              rw [Option.isSome_map]
              exact ih later found
        · cases found

theorem skipTo_takesBrace (next : TakesBrace next?) (part : Char → Bool) (closing : Char) :
    TakesBrace (skipTo part closing next?) where
  takes {text} bodiless found := by
    induction text with
    | nil => cases found
    | cons c text ih =>
        have later : IsBodiless text := bodiless.of_suffix (List.suffix_cons c text)
        change (skipTo part closing next? (c :: (text ++ bodyBrace))).isSome = true
        rw [skipTo, isSome_orElse, Bool.or_eq_true] at found ⊢
        refine found.imp ((TakesBrace.ite (c = closing) next .never).takes later) fun read => ?_
        split at read
        · rename_i inside
          rw [if_pos inside]
          exact ih later read
        · cases read

theorem runAfterBlanks_takesBrace (next : TakesBrace next?) (least : Nat) (part : Char → Bool) :
    TakesBrace (runAfterBlanks least part next?) where
  takes {text} bodiless found := by
    have gap : IsGap text bodyBrace := bodiless.gap
    have nonempty : text ≠ [] := by
      rintro rfl
      simp [runAfterBlanks, shortestRun, trimLeft] at found
    let blanks := text.takeWhile isBlank
    have run : TakesBrace fun left : List Char =>
        if blanks.length < least then none
        else shortestRun part next? left <|> if least < blanks.length then
          (next? left).map fun value => (blanks.drop (blanks.length - 1), value) else none :=
      .ite _ .never ((shortestRun_takesBrace next part).orElse (.ite _ (next.map _) .never))
    change (runAfterBlanks least part next? (text ++ bodyBrace)).isSome = true
    unfold runAfterBlanks
    rw [takeWhile_isBlank_gap gap nonempty, (trimLeft_gap gap nonempty).1]
    exact run.takes (bodiless.of_suffix (List.dropWhile_suffix isBlank)) found

theorem clause_takesBrace {keyword : String} (solid : ' ' ∉ keyword.toList) (part : Char → Bool)
    (next : TakesBrace next?) : TakesBrace (clause keyword part next?) := by
  unfold clause
  apply TakesBrace.orElse
  · apply TakesBrace.map
    exact .bind (blanks?_follows.bind (after?_follows solid)) (runAfterBlanks_takesBrace next 1 part)
  · exact next.map _

theorem eq_nil_of_classBody? {text : List Char} (bodiless : IsBodiless text)
    (found : (classBody? text).isSome = true) : text = [] := by
  by_contra nonempty
  unfold classBody? at found
  split at found
  · rename_i blank
    exact (trimLeft_gap bodiless.gap nonempty).2 blank
  · rename_i body opens
    have suffix : '{' :: body <:+ text := opens ▸ List.dropWhile_suffix isBlank
    exact bodiless.braceless (suffix.subset List.mem_cons_self)
  · cases found

theorem classBody?_takesBrace : TakesBrace classBody? where
  takes {text} bodiless found := by
    obtain rfl : text = [] := eq_nil_of_classBody? bodiless found
    decide

theorem extends?_takesBrace : TakesBrace extends? := by
  have permits : TakesBrace permits? :=
    (clause_takesBrace (by decide) isNameListPart classBody?_takesBrace).map _
  have implements : TakesBrace implements? :=
    (clause_takesBrace (by decide) isTypeListPart permits).map _
  exact (clause_takesBrace (by decide) isTypeListPart implements).map _

theorem components?_takesBrace : TakesBrace components? := by
  unfold components?
  apply TakesBrace.orElse
  · exact .bind ((bracketed?_follows '(' ')').trimmed rfl) (.curry fun _ => extends?_takesBrace)
  · exact extends?_takesBrace

theorem typeParameters?_eq (text : List Char) :
    typeParameters? text =
      ((symbol? '<' text).bind (skipTo (· != '{') '>' components?) <|> components? text) := by
  unfold typeParameters?
  congr 1
  apply eq_symbol?_bind
  · intro left opens
    rw [opens]
    rfl
  · intro closed
    split
    · rename_i left opens
      exact absurd opens (closed left)
    · rfl

theorem typeParameters?_takesBrace : TakesBrace typeParameters? := by
  rw [funext typeParameters?_eq]
  apply TakesBrace.orElse
  · exact .bind (symbol?_follows (by decide)) (skipTo_takesBrace components?_takesBrace _ _)
  · exact components?_takesBrace

theorem kotlinSupers?_eq (text : List Char) :
    kotlinSupers? text =
      (((symbol? ':' text).bind fun left =>
          (runAfterBlanks 0 (· != '{') classBody? left).map fun (run, _) =>
            kotlinSupertypes (some run)) <|>
        (classBody? text).map fun _ => kotlinSupertypes none) := by
  unfold kotlinSupers?
  congr 1
  apply eq_symbol?_bind
  · intro left opens
    rw [opens]
    rfl
  · intro closed
    split
    · rename_i left opens
      exact absurd opens (closed left)
    · rfl

theorem kotlinSupers?_takesBrace : TakesBrace kotlinSupers? := by
  rw [funext kotlinSupers?_eq]
  apply TakesBrace.orElse
  · exact .bind (symbol?_follows (by decide))
      ((runAfterBlanks_takesBrace classBody?_takesBrace 0 _).map _)
  · exact classBody?_takesBrace.map _

/-- A word that stands before a parenthesis is told from one that a body follows. -/
theorem keyword?_gap {keywords : List String} (plain : ArePlain keywords) {text more : List Char}
    (gap : IsGap text more) (opened : '(' ∈ text) :
    keyword? keywords (text ++ more) = (keyword? keywords text).map (extend · more) := by
  have span := @span_gap text more (fun c => !isBlank c) (by decide) gap.blank
  rw [keyword?_eq plain, keyword?_eq plain, span.1, span.2]
  split
  · rename_i listed
    have nonempty : (text.dropWhile fun c => !isBlank c) ≠ [] := by
      intro whole
      have word : text.takeWhile (fun c => !isBlank c) = text := by
        simpa [whole] using text.takeWhile_append_dropWhile (p := fun c => !isBlank c)
      rw [word] at listed
      have letters := plain _ listed '('
      rw [String.toList_ofList] at letters
      exact (letters opened).2.2 rfl
    rw [blanks?_append (gap.of_suffix (List.dropWhile_suffix _)) nonempty, Option.map_map,
      Option.map_map]
    rfl
  · rfl

def afterVisibility (text : List Char) : List Char :=
  ((keyword? visibilities text).map Prod.snd).getD text

theorem afterVisibility_suffix (text : List Char) : afterVisibility text <:+ text := by
  have plain : ArePlain visibilities := headWords_plain (by simp [headWords])
  unfold afterVisibility
  cases found : keyword? visibilities text with
  | none => exact List.suffix_rfl
  | some pair => exact (@keyword?_follows True _ plain).suffix found

theorem afterVisibility_append {text more : List Char}
    (reads : keyword? visibilities (text ++ more) =
      (keyword? visibilities text).map (extend · more)) :
    afterVisibility (text ++ more) = afterVisibility text ++ more := by
  rw [afterVisibility, reads, afterVisibility]
  cases keyword? visibilities text <;> rfl

def constructorList (text : List Char) : List Char :=
  ((after? "constructor".toList (afterVisibility text)).map trimLeft).getD (afterVisibility text)

theorem constructorList_suffix (text : List Char) : constructorList text <:+ text := by
  refine List.IsSuffix.trans ?_ (afterVisibility_suffix text)
  unfold constructorList
  cases found : after? "constructor".toList (afterVisibility text) with
  | none => exact List.suffix_rfl
  | some left =>
      have suffix : left <:+ afterVisibility text :=
        (@after?_follows True _ (by decide)).suffix found
      exact (List.dropWhile_suffix isBlank).trans suffix

theorem constructorList_gap {text more inside : List Char} (gap : IsGap text more)
    (opens : constructorList text = '(' :: inside) :
    constructorList (text ++ more) = '(' :: (inside ++ more) := by
  have plain : ArePlain visibilities := headWords_plain (by simp [headWords])
  have opened : '(' ∈ text := (constructorList_suffix text).subset (opens ▸ List.mem_cons_self)
  rw [constructorList, afterVisibility_append (keyword?_gap plain gap opened),
    after?_append (by decide) gap.blank]
  unfold constructorList at opens
  cases found : after? "constructor".toList (afterVisibility text) with
  | none =>
      rw [found] at opens
      replace opens : afterVisibility text = '(' :: inside := opens
      rw [opens]
      rfl
  | some left =>
      rw [found] at opens
      replace opens : trimLeft left = '(' :: inside := opens
      have suffix : left <:+ text :=
        ((@after?_follows True _ (by decide)).suffix found).trans (afterVisibility_suffix text)
      have nonempty : left ≠ [] := by
        rintro rfl
        cases opens
      have trimmed : trimLeft (left ++ more) = trimLeft left ++ more :=
        (trimLeft_gap (gap.of_suffix suffix) nonempty).1
      rw [opens] at trimmed
      exact trimmed

theorem primaryConstructor?_of_listed {text inside : List Char}
    (opens : constructorList (trimLeft text) = '(' :: inside) :
    primaryConstructor? text =
      (skipTo (· != '\n') ')' kotlinSupers? inside <|> kotlinSupers? text) := by
  unfold constructorList afterVisibility at opens
  rw [primaryConstructor?, opens]
  rfl

theorem primaryConstructor?_of_unlisted {text : List Char}
    (unlisted : ∀ inside, constructorList (trimLeft text) ≠ '(' :: inside) :
    primaryConstructor? text = kotlinSupers? text := by
  unfold constructorList afterVisibility at unlisted
  unfold primaryConstructor?
  dsimp only
  split
  · rename_i opens
    exact absurd opens (unlisted _)
  · rfl

theorem isSome_primaryConstructor? {text : List Char} (read : (kotlinSupers? text).isSome = true) :
    (primaryConstructor? text).isSome = true := by
  rw [primaryConstructor?, isSome_orElse, read, Bool.or_true]

theorem primaryConstructor?_takesBrace : TakesBrace primaryConstructor? where
  takes {text} bodiless found := by
    by_cases listed : ∃ inside, constructorList (trimLeft text) = '(' :: inside
    · obtain ⟨inside, opens⟩ := listed
      have suffix : trimLeft text <:+ text := List.dropWhile_suffix isBlank
      have nonempty : text ≠ [] := by
        rintro rfl
        have none : constructorList (trimLeft []) = [] := by decide
        rw [none] at opens
        cases opens
      have within : inside <:+ text :=
        ((List.suffix_cons '(' inside).trans (opens ▸ constructorList_suffix _)).trans suffix
      have gap : IsGap text bodyBrace := bodiless.gap
      have opensBraced : constructorList (trimLeft (text ++ bodyBrace)) =
          '(' :: (inside ++ bodyBrace) := by
        rw [(trimLeft_gap gap nonempty).1, constructorList_gap (gap.of_suffix suffix) opens]
      rw [primaryConstructor?_of_listed opens, isSome_orElse, Bool.or_eq_true] at found
      change (primaryConstructor? (text ++ bodyBrace)).isSome = true
      rw [primaryConstructor?_of_listed opensBraced, isSome_orElse, Bool.or_eq_true]
      exact found.imp
        ((skipTo_takesBrace kotlinSupers?_takesBrace _ _).takes (bodiless.of_suffix within))
        (kotlinSupers?_takesBrace.takes bodiless)
    · rw [primaryConstructor?_of_unlisted (not_exists.mp listed)] at found
      exact isSome_primaryConstructor? (kotlinSupers?_takesBrace.takes bodiless found)

theorem className?_bind_takesBrace {modifiers kinds : List String} (listed : modifiers ∈ headWords)
    (listedKinds : kinds ∈ headWords) (next : TakesBrace next?) :
    TakesBrace fun text => (className? modifiers kinds text).bind fun pair => next? pair.2 where
  takes {text} bodiless found := by
    obtain ⟨value, read⟩ := Option.isSome_iff_exists.mp found
    obtain ⟨pair, named, left⟩ := Option.bind_eq_some_iff.mp read
    have suffix : pair.2 <:+ text := (className?_follows listed listedKinds).suffix named
    have gap : IsGap text bodyBrace := bodiless.gap
    change ((className? modifiers kinds (text ++ bodyBrace)).bind _).isSome = true
    rw [className?_braced gap listed listedKinds, named]
    exact next.takes (bodiless.of_suffix suffix) (Option.isSome_iff_exists.mpr ⟨value, left⟩)

theorem kotlinClass?_takesBrace : TakesBrace kotlinClass? := by
  have list : TakesBrace fun text : List Char =>
      ((bracketed? '<' '>' (trimLeft text)).bind fun pair => primaryConstructor? pair.2) <|>
        primaryConstructor? text := by
    apply TakesBrace.orElse
    · exact .bind ((bracketed?_follows '<' '>').trimmed rfl)
        (.curry fun _ => primaryConstructor?_takesBrace)
    · exact primaryConstructor?_takesBrace
  exact className?_bind_takesBrace (by simp [headWords]) (by simp [headWords]) list

theorem nameless_of_kotlinSupers? {text : List Char} (bodiless : IsBodiless text)
    (found : (kotlinSupers? text).isSome = true) :
    (blanks? (text ++ bodyBrace)).bind word? = none := by
  rw [kotlinSupers?_eq, isSome_orElse, Bool.or_eq_true, Option.isSome_map] at found
  rcases found with supers | body
  · obtain ⟨value, read⟩ := Option.isSome_iff_exists.mp supers
    obtain ⟨left, colon, -⟩ := Option.bind_eq_some_iff.mp read
    have opens : trimLeft text = ':' :: left := after?_eq_some_iff.mp colon
    have nonempty : text ≠ [] := by
      rintro rfl
      cases opens
    have trimmed := (trimLeft_gap bodiless.gap nonempty).1
    rw [Option.bind_eq_none_iff]
    intro behind blank
    rw [← (blanks?_eq_some blank).1, trimmed, opens]
    exact word?_of_sign (by decide) _
  · obtain rfl := eq_nil_of_classBody? bodiless body
    decide

def objectName? (text : List Char) : Option (Option (List Char) × Supertypes) :=
  (((blanks? text).bind word?).bind fun named =>
    (kotlinSupers? named.2).map fun supers => (some named.1, supers)) <|>
  (kotlinSupers? text).map fun supers => (none, supers)

theorem objectName?_braced {text : List Char} (bodiless : IsBodiless text)
    {value : Option (List Char) × Supertypes} (found : objectName? text = some value) :
    ∃ supers, objectName? (text ++ bodyBrace) = some (value.1, supers) := by
  rcases (Option.orElse_eq_some _ _ _).mp found with named | ⟨-, unnamed⟩
  · obtain ⟨⟨name, left⟩, word, read⟩ := Option.bind_eq_some_iff.mp named
    obtain ⟨supers, behind, rfl⟩ := Option.map_eq_some_iff.mp read
    have follows : Follows True fun text => (blanks? text).bind word? :=
      blanks?_follows.bind word?_follows
    have suffix : left <:+ text := follows.suffix word
    have kept : (blanks? (text ++ bodyBrace)).bind word? = some (name, left ++ bodyBrace) :=
      follows.keeps trivial bodiless.gap word
    have reads : (kotlinSupers? (left ++ bodyBrace)).isSome = true :=
      kotlinSupers?_takesBrace.takes (bodiless.of_suffix suffix)
        (Option.isSome_iff_exists.mpr ⟨supers, behind⟩)
    obtain ⟨others, braced⟩ := Option.isSome_iff_exists.mp reads
    refine ⟨others, ?_⟩
    rw [objectName?, kept, Option.bind_some, braced]
    rfl
  · obtain ⟨supers, behind, rfl⟩ := Option.map_eq_some_iff.mp unnamed
    have read : (kotlinSupers? text).isSome = true := Option.isSome_iff_exists.mpr ⟨supers, behind⟩
    have reads : (kotlinSupers? (text ++ bodyBrace)).isSome = true :=
      kotlinSupers?_takesBrace.takes bodiless read
    obtain ⟨others, braced⟩ := Option.isSome_iff_exists.mp reads
    refine ⟨others, ?_⟩
    rw [objectName?, nameless_of_kotlinSupers? bodiless read, braced]
    rfl

theorem companion?_braced {header : List Char} (bodiless : IsBodiless header)
    {value : Option (List Char) × Supertypes} (found : companion? header = some value) :
    ∃ supers, companion? (header ++ bodyBrace) = some (value.1, supers) := by
  have plain : ArePlain visibilities := headWords_plain (by simp [headWords])
  have plainCompanion : ArePlain ["companion"] := headWords_plain (by simp [headWords])
  have gap := bodiless.gap
  obtain ⟨left, object, read⟩ := Option.bind_eq_some_iff.mp found
  obtain ⟨pair, companion, word⟩ := Option.bind_eq_some_iff.mp object
  replace companion : keyword? ["companion"] (afterVisibility header) = some pair := companion
  replace word : after? "object".toList pair.2 = some left := word
  have front : afterVisibility (header ++ bodyBrace) = afterVisibility header ++ bodyBrace := by
    apply afterVisibility_append
    cases visible : keyword? visibilities header with
    | some visibility => exact (keyword?_follows plain).keeps trivial gap visible
    | none =>
        rw [afterVisibility, visible] at companion
        have kept : keyword? ["companion"] (header ++ bodyBrace) = some (extend pair bodyBrace) :=
          (keyword?_follows plainCompanion).keeps trivial gap companion
        have other : pair.1 ∉ visibilities := by
          rw [List.mem_singleton.mp (keyword?_mem companion)]
          decide
        rw [keyword?_unique plainCompanion plain kept]
        exact if_neg other
  have inFront := afterVisibility_suffix header
  have kept : keyword? ["companion"] (afterVisibility (header ++ bodyBrace)) =
      some (extend pair bodyBrace) := by
    rw [front]
    exact (keyword?_follows plainCompanion).keeps trivial (gap.of_suffix inFront) companion
  have within : pair.2 <:+ header :=
    ((@keyword?_follows True _ plainCompanion).suffix companion).trans inFront
  have suffix : left <:+ pair.2 := (@after?_follows True _ (by decide)).suffix word
  obtain ⟨supers, braced⟩ :=
    objectName?_braced (bodiless.of_suffix (suffix.trans within)) read
  refine ⟨supers, ?_⟩
  change ((keyword? ["companion"] (afterVisibility (header ++ bodyBrace))).bind fun pair =>
    after? "object".toList pair.2).bind objectName? = _
  rw [kept]
  change (after? "object".toList (pair.2 ++ bodyBrace)).bind objectName? = _
  rw [after?_append (by decide) gap.blank, word]
  exact braced

theorem supertypes?_takesBrace (dialect : Dialect) : TakesBrace (supertypes? dialect) := by
  cases dialect with
  | java =>
      exact className?_bind_takesBrace (by simp [headWords]) (by simp [headWords])
        typeParameters?_takesBrace
  | kotlin =>
      refine kotlinClass?_takesBrace.orElse ⟨fun {header} bodiless found => ?_⟩
      rw [Option.isSome_map] at found ⊢
      obtain ⟨value, read⟩ := Option.isSome_iff_exists.mp found
      obtain ⟨supers, braced⟩ := companion?_braced bodiless read
      exact Option.isSome_iff_exists.mpr ⟨_, braced⟩

/-- A header opens the same class with its brace. -/
theorem openedClass?_braced {dialect : Dialect} {header : List Char} (bodiless : IsBodiless header)
    {name : String} (opens : openedClass? dialect header = some name) :
    openedClass? dialect (header ++ bodyBrace) = some name := by
  have gap := bodiless.gap
  cases dialect with
  | java =>
      rw [openedClass?] at opens ⊢
      rw [className?_braced gap (by simp [headWords]) (by simp [headWords]), Option.map_map]
      exact opens
  | kotlin =>
      rw [openedClass?] at opens ⊢
      rw [className?_braced gap (by simp [headWords]) (by simp [headWords]), Option.map_map]
      rcases (Option.orElse_eq_some _ _ _).mp opens with named | ⟨unnamed, companion⟩
      · exact (Option.orElse_eq_some _ _ _).mpr (.inl named)
      · obtain ⟨value, read, same⟩ := Option.map_eq_some_iff.mp companion
        obtain ⟨supers, braced⟩ := companion?_braced bodiless read
        refine (Option.orElse_eq_some _ _ _).mpr (.inr ⟨unnamed, ?_⟩)
        rw [braced]
        exact congrArg some same

theorem openedClass?_braced_of_method {dialect : Dialect} {className : String} {header : List Char}
    (gap : IsGap header bodyBrace) (unopened : openedClass? dialect header = none)
    {braced : MethodHeader} (found : method? dialect className (header ++ bodyBrace) = some braced) :
    openedClass? dialect (header ++ bodyBrace) = none := by
  cases dialect with
  | java =>
      rw [openedClass?, Option.map_eq_none_iff] at unopened ⊢
      rw [className?_braced gap (by simp [headWords]) (by simp [headWords]), unopened]
      rfl
  | kotlin =>
      rw [openedClass?, Option.orElse_eq_none, Option.map_eq_none_iff] at unopened ⊢
      obtain ⟨head, headRead, -⟩ := Option.bind_eq_some_iff.mp found
      rw [className?_braced gap (by simp [headWords]) (by simp [headWords]), unopened.1,
        companion?_of_function headRead]
      exact ⟨rfl, rfl⟩

end MethodFlow.Header
