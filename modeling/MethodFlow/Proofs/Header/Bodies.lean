import MethodFlow.Proofs.Header.Heads

/-!
Heads with the brace of a body behind their header. What a head ends in is neither a space nor a
brace, so it is read as without the brace (`Follows.braced`).
-/
namespace MethodFlow.Header

open Text HasRest

def bodyBrace : List Char :=
  [' ', '{']

section Ends

variable {α : Type} {value : α} {text : List Char}

theorem modifierReadings_steps {modifiers : List String} {related : List Char → List Char → Prop}
    (refl : ∀ text, related text text)
    (trans : ∀ {first second third}, related first second → related second third →
      related first third)
    (step : ∀ {text pair}, keyword? modifiers text = some pair → related pair.2 text) {fuel : Nat}
    {entry : List String × List Char} (listed : entry ∈ modifierReadings modifiers fuel text) :
    related entry.2 text := by
  induction fuel generalizing text entry with
  | zero =>
      obtain rfl := List.mem_singleton.mp listed
      exact refl text
  | succ fuel ih =>
      rw [modifierReadings] at listed
      split at listed
      · rename_i modifier left found
        have first : related left text := step found
        rcases List.mem_append.mp listed with further | bare
        · obtain ⟨later, member, rfl⟩ := List.mem_map.mp further
          have behind : related later.2 left := ih member
          exact trans behind first
        · obtain rfl := List.mem_singleton.mp bare
          exact refl text
      · obtain rfl := List.mem_singleton.mp listed
        exact refl text

theorem modifierReadings_suffix {modifiers : List String} (plain : ArePlain modifiers) {fuel : Nat}
    {entry : List String × List Char} (listed : entry ∈ modifierReadings modifiers fuel text) :
    entry.2 <:+ text :=
  modifierReadings_steps (fun _ => List.suffix_rfl) List.IsSuffix.trans
    (fun found => (@keyword?_follows True _ plain).suffix found) listed

theorem declared?_suffix {modifiers : List String} (plain : ArePlain modifiers)
    {read? : List String → List Char → Option α}
    (found : declared? modifiers read? text = some value) :
    ∃ taken left, left <:+ text ∧ read? taken left = some value := by
  obtain ⟨⟨taken, left⟩, listed, read⟩ := List.exists_of_findSome?_eq_some found
  have start : skipAnnotations text <:+ text := skipItems_suffix annotation?_follows _ _
  exact ⟨taken, left, (modifierReadings_suffix plain listed).trans start, read⟩

theorem skipTo_suffix {part : Char → Bool} {closing : Char} {next? : List Char → Option α}
    (found : skipTo part closing next? text = some value) :
    ∃ left, left <:+ text ∧ next? left = some value := by
  induction text with
  | nil => cases found
  | cons c text ih =>
      rcases (Option.orElse_eq_some _ _ _).mp found with here | ⟨-, later⟩
      · rw [Option.ite_none_right_eq_some] at here
        exact ⟨text, List.suffix_cons c text, here.2⟩
      · rw [Option.ite_none_right_eq_some] at later
        obtain ⟨left, suffix, read⟩ := ih later.2
        exact ⟨left, suffix.trans (List.suffix_cons c text), read⟩

theorem word?_ends {word left : List Char} (found : word? text = some (word, left)) :
    ∃ c, isWord c = true ∧ c :: left <:+ text := by
  rw [word?_eq, Option.ite_none_left_eq_some] at found
  obtain ⟨some, same⟩ := found
  obtain ⟨rfl, rfl⟩ := Prod.mk.inj (Option.some.inj same)
  rcases List.eq_nil_or_concat (text.takeWhile isWord) with none | ⟨front, c, split⟩
  · simp [none] at some
  · rw [List.concat_eq_append] at split
    have member : c ∈ text.takeWhile isWord := by simp [split]
    refine ⟨c, List.mem_takeWhile_imp member, front, ?_⟩
    calc front ++ c :: text.dropWhile isWord
      _ = text.takeWhile isWord ++ text.dropWhile isWord := by simp [split]
      _ = text := List.takeWhile_append_dropWhile

theorem parenthesis?_ends {left : List Char} (found : parenthesis? text = some left) :
    '(' :: left <:+ text := by
  rw [parenthesis?_eq] at found
  have opens := after?_eq_some_iff.mp found
  have trimmed : trimLeft text <:+ text := List.dropWhile_suffix isBlank
  rw [opens] at trimmed
  exact trimmed

theorem className?_ends {modifiers kinds : List String} (listed : modifiers ∈ headWords)
    (listedKinds : kinds ∈ headWords) {name left : List Char}
    (found : className? modifiers kinds text = some (name, left)) :
    ∃ c, isWord c = true ∧ c :: left <:+ text := by
  obtain ⟨taken, front, suffix, read⟩ := declared?_suffix (headWords_plain listed) found
  obtain ⟨back, keyword, word⟩ := Option.bind_eq_some_iff.mp read
  obtain ⟨pair, kind, rfl⟩ := Option.map_eq_some_iff.mp keyword
  have behind : pair.2 <:+ front :=
    (@keyword?_follows True _ (headWords_plain listedKinds)).suffix kind
  obtain ⟨c, letter, ends⟩ := word?_ends word
  exact ⟨c, letter, (ends.trans behind).trans suffix⟩

section Heads

variable {head : MethodHead}

theorem constructorHead?_ends (found : constructorHead? text = some head) :
    '(' :: head.rest <:+ text := by
  have plain : ArePlain constructorModifiers := headWords_plain (by simp [headWords])
  obtain ⟨taken, front, suffix, read⟩ := declared?_suffix plain found
  obtain ⟨pair, word, opened⟩ := Option.bind_eq_some_iff.mp read
  obtain ⟨inside, parenthesis, rfl⟩ := Option.map_eq_some_iff.mp opened
  have behind : pair.2 <:+ front := (@word?_follows True).suffix word
  exact ((parenthesis?_ends parenthesis).trans behind).trans suffix

theorem nameAfterType?_ends {type name inside : List Char}
    (found : nameAfterType? text = some (type, name, inside)) : '(' :: inside <:+ text := by
  rw [nameAfterType?_eq] at found
  obtain ⟨pair, spaced, same⟩ := Option.map_eq_some_iff.mp found
  obtain ⟨-, same⟩ := Prod.mk.inj same
  obtain ⟨-, rfl⟩ := Prod.mk.inj same
  obtain ⟨word, named, opened⟩ := Option.bind_eq_some_iff.mp spaced
  obtain ⟨left, parenthesis, rfl⟩ := Option.map_eq_some_iff.mp opened
  have start := skipItems_suffix arrayBrackets?_follows text.length text
  have behind : word.2 <:+ skipItems arrayBrackets? text.length text :=
    ((@blanks?_follows True).bind (@word?_follows True)).suffix named
  exact ((parenthesis?_ends parenthesis).trans behind).trans start

theorem typeAndName?_ends {visibility : String} (found : typeAndName? visibility text = some head) :
    '(' :: head.rest <:+ text := by
  rw [typeAndName?_eq] at found
  obtain ⟨⟨type, name, inside⟩, read, rfl⟩ := Option.map_eq_some_iff.mp found
  rw [Option.ite_none_left_eq_some] at read
  have start : text.dropWhile (fun c => isWord c || c == '.' || c == '$') <:+ text :=
    List.dropWhile_suffix _
  rcases (Option.orElse_eq_some _ _ _).mp read.2 with generic | ⟨-, plain⟩
  · obtain ⟨arguments, opened, skipped⟩ := Option.bind_eq_some_iff.mp generic
    obtain ⟨left, suffix, named⟩ := skipTo_suffix skipped
    have behind := (@symbol?_follows True '<' (by decide)).suffix opened
    exact (((nameAfterType?_ends named).trans suffix).trans behind).trans start
  · exact (nameAfterType?_ends plain).trans start

theorem javaMethodHead?_ends (found : javaMethodHead? text = some head) :
    '(' :: head.rest <:+ text := by
  have plain : ArePlain javaMethodModifiers := headWords_plain (by simp [headWords])
  obtain ⟨taken, front, suffix, read⟩ := declared?_suffix plain found
  rcases (Option.orElse_eq_some _ _ _).mp read with generic | ⟨-, bare⟩
  · obtain ⟨left, parameters, named⟩ := Option.bind_eq_some_iff.mp generic
    have behind : left <:+ front := (@typeVariables?_follows True).suffix parameters
    exact ((typeAndName?_ends named).trans behind).trans suffix
  · exact (typeAndName?_ends bare).trans suffix

theorem functionName?_ends {name inside : List Char}
    (found : functionName? text = some (name, inside)) : '(' :: inside <:+ text := by
  unfold functionName? at found
  dsimp only at found
  rw [Option.ite_none_left_eq_some, Option.ite_none_right_eq_some] at found
  obtain ⟨-, -, opened⟩ := found
  obtain ⟨left, parenthesis, same⟩ := Option.map_eq_some_iff.mp opened
  obtain ⟨-, rfl⟩ := Prod.mk.inj same
  exact (parenthesis?_ends parenthesis).trans (List.dropWhile_suffix _)

theorem kotlinFunctionHead?_ends (found : kotlinFunctionHead? text = some head) :
    '(' :: head.rest <:+ text := by
  rw [kotlinFunctionHead?_eq] at found
  have plain : ArePlain kotlinFunctionModifiers := headWords_plain (by simp [headWords])
  have plainFun : ArePlain ["fun"] := headWords_plain (by simp [headWords])
  obtain ⟨taken, front, suffix, read⟩ := declared?_suffix plain found
  obtain ⟨pair, keyword, named⟩ := Option.bind_eq_some_iff.mp read
  obtain ⟨⟨name, inside⟩, generic, rfl⟩ := Option.map_eq_some_iff.mp named
  have behind : pair.2 <:+ front := (@keyword?_follows True _ plainFun).suffix keyword
  have ends : '(' :: inside <:+ pair.2 := by
    rcases (Option.orElse_eq_some _ _ _).mp generic with typed | ⟨-, bare⟩
    · obtain ⟨brackets, bracketed, function⟩ := Option.bind_eq_some_iff.mp typed
      have after : brackets.2 <:+ pair.2 := (@bracketed?_follows True '<' '>').suffix bracketed
      exact ((functionName?_ends function).trans (List.dropWhile_suffix isBlank)).trans after
    · exact functionName?_ends bare
  exact (ends.trans behind).trans suffix

end Heads

end Ends

theorem takeWhile_isBlank_gap {text : List Char} (gap : IsGap text bodyBrace)
    (nonempty : text ≠ []) :
    (text ++ bodyBrace).takeWhile isBlank = text.takeWhile isBlank := by
  have left := (trimLeft_gap gap nonempty).1
  have whole := (text ++ bodyBrace).takeWhile_append_dropWhile (p := isBlank)
  have front := text.takeWhile_append_dropWhile (p := isBlank)
  change _ ++ trimLeft (text ++ bodyBrace) = _ at whole
  rw [left, ← List.append_assoc, List.append_cancel_right_eq] at whole
  exact List.append_cancel_right (whole.trans front.symm)

section Heads

variable {text : List Char} (gap : IsGap text bodyBrace)

include gap

/-- A reader that ends in neither a space nor a brace does not go past the header. -/
theorem Follows.braced {β : Type} [HasRest β] {strict : Prop} {read? : List Char → Option β}
    (reads : Follows strict read?)
    (ends : ∀ {value}, read? (text ++ bodyBrace) = some value →
      ∃ c, c ∉ bodyBrace ∧ c :: rest value <:+ text ++ bodyBrace) :
    read? (text ++ bodyBrace) = (read? text).map (extend · bodyBrace) := by
  rcases reads.follows gap with same | ⟨value, past, short⟩
  · exact same
  · obtain ⟨c, unlike, suffix⟩ := ends past
    have inBrace : c :: rest value <:+ bodyBrace :=
      List.suffix_of_suffix_length_le suffix (List.suffix_append text bodyBrace) short
    exact absurd (inBrace.subset List.mem_cons_self) unlike

theorem className?_braced {modifiers kinds : List String} (listed : modifiers ∈ headWords)
    (listedKinds : kinds ∈ headWords) :
    className? modifiers kinds (text ++ bodyBrace) =
      (className? modifiers kinds text).map fun pair => (pair.1, pair.2 ++ bodyBrace) := by
  apply (className?_follows listed listedKinds).braced gap
  intro value found
  obtain ⟨c, letter, suffix⟩ := className?_ends listed listedKinds found
  refine ⟨c, fun member => ?_, suffix⟩
  have checked : bodyBrace.all (!isWord ·) = true := by decide
  have unlike := List.all_eq_true.mp checked c member
  rw [letter] at unlike
  cases unlike

theorem constructorHead?_braced :
    constructorHead? (text ++ bodyBrace) = (constructorHead? text).map (extend · bodyBrace) :=
  constructorHead?_follows.braced gap fun found => ⟨'(', by decide, constructorHead?_ends found⟩

theorem javaMethodHead?_braced :
    javaMethodHead? (text ++ bodyBrace) = (javaMethodHead? text).map (extend · bodyBrace) :=
  javaMethodHead?_follows.braced gap fun found => ⟨'(', by decide, javaMethodHead?_ends found⟩

theorem kotlinFunctionHead?_braced :
    kotlinFunctionHead? (text ++ bodyBrace) = (kotlinFunctionHead? text).map (extend · bodyBrace) :=
  kotlinFunctionHead?_follows.braced gap fun found =>
    ⟨'(', by decide, kotlinFunctionHead?_ends found⟩

end Heads

end MethodFlow.Header
