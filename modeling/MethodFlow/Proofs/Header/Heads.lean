import MethodFlow.Proofs.Header.Fronts
import MethodFlow.Proofs.Header.Names
import MethodFlow.Proofs.Line.Parentheses

/-!
Heads of methods and classes on the front of a header. If a header is cut inside of its parameter
list, then the front has the same head as the whole, and its list is open (`method?_front`).
-/
namespace MethodFlow.Header

open Text HasRest

def headWords : List (List String) :=
  [visibilities, constructorModifiers, javaMethodModifiers, javaClassModifiers, javaClassKinds,
    kotlinFunctionModifiers, kotlinClassModifiers, kotlinClassKinds, ["fun"], ["companion"]]

theorem headWords_plain {words : List String} (listed : words ∈ headWords) : ArePlain words := by
  have checked : (headWords.all fun words => words.all fun word => word.toList.all fun c =>
      !isBlank c && c != '@' && c != '(') = true := by
    decide
  intro word member c inside
  have family := List.all_eq_true.mp checked words listed
  have letters := List.all_eq_true.mp family word member
  simpa [and_assoc] using List.all_eq_true.mp letters c inside

section Declarations

variable {β : Type} [HasRest β] {strict : Prop}

theorem arrayBrackets?_follows : Follows strict arrayBrackets? := by
  rw [funext arrayBrackets?_eq]
  exact (symbol?_follows (by decide)).bind (symbol?_follows (by decide))

def annotationEnd? (text : List Char) : Option (List Char) :=
  ((bracketed? '(' ')' text).bind fun pair => blanks? pair.2) <|> blanks? text

theorem bracketed?_of_blank {opening closing : Char} (solid : isBlank opening = false)
    {text left : List Char} (blank : blanks? text = some left) :
    bracketed? opening closing text = none := by
  cases text with
  | nil => rfl
  | cons c text =>
      rw [blanks?, Option.ite_none_right_eq_some] at blank
      rw [bracketed?, if_neg]
      rintro rfl
      rw [solid] at blank
      cases blank.1

theorem annotationEnd?_follows : Follows strict annotationEnd? := by
  apply Follows.orElse
  · exact (bracketed?_follows '(' ')').bind (Follows.curry fun _ => blanks?_follows)
  · exact blanks?_follows
  · intro _ text left blank
    rw [bracketed?_of_blank (by decide) blank]
    rfl

theorem annotationEnd?_eq (text : List Char) :
    annotationEnd? text = match bracketed? '(' ')' text with
      | some (_, left) => blanks? left
      | none => blanks? text := by
  unfold annotationEnd?
  cases found : bracketed? '(' ')' text with
  | none => rfl
  | some pair =>
      cases blank : blanks? text with
      | none => simp
      | some left =>
          rw [bracketed?_of_blank (by decide) blank] at found
          cases found

theorem annotation?_eq (text : List Char) :
    annotation? text = (after? ['@'] text).bind fun text =>
      if (text.takeWhile fun c => isWord c || c == '.').isEmpty then none
      else annotationEnd? (text.dropWhile fun c => isWord c || c == '.') := by
  cases text with
  | nil => rfl
  | cons c text =>
      by_cases sign : c = '@'
      · subst sign
        change _ = if (text.takeWhile fun c => isWord c || c == '.').isEmpty then none
          else annotationEnd? (text.dropWhile fun c => isWord c || c == '.')
        rw [annotationEnd?_eq]
        rfl
      · rw [after?, if_neg (Ne.symm sign), annotation?]
        · rfl
        · intro other same
          exact sign (List.cons.inj same).1

theorem annotation?_follows : Follows strict annotation? := by
  have next (run : List Char) : Follows strict fun left =>
      if run.isEmpty then none else annotationEnd? left :=
    Follows.ite _ Follows.never annotationEnd?_follows
  rw [funext annotation?_eq]
  exact (after?_follows (by decide)).bind (Follows.afterRun (by decide) next)

theorem annotation?_shorter {text left : List Char} (found : annotation? text = some left) :
    left.length < text.length := by
  rw [annotation?_eq] at found
  obtain ⟨more, sign, read⟩ := Option.bind_eq_some_iff.mp found
  obtain rfl := after?_eq_some_iff.mp sign
  rw [Option.ite_none_left_eq_some] at read
  have ends := (@annotationEnd?_follows True).suffix read.2
  exact Nat.lt_succ_of_le (ends.trans (List.dropWhile_suffix _)).length_le

theorem arrayBrackets?_shorter {text left : List Char} (found : arrayBrackets? text = some left) :
    left.length < text.length := by
  rw [arrayBrackets?_eq] at found
  obtain ⟨more, opened, closed⟩ := Option.bind_eq_some_iff.mp found
  have ends : left <:+ more := (@symbol?_follows True ']' (by decide)).suffix closed
  have begins : '[' :: more <:+ text := by
    rw [← List.singleton_append, ← after?_eq_some_iff.mp opened]
    exact List.dropWhile_suffix isBlank
  exact (Nat.lt_succ_of_le ends.length_le).trans_le begins.length_le

end Declarations

section Readings

variable {β : Type} {modifiers : List String} {read? : List String → List Char → Option β}
  {strict : Prop}

def firstReading? (modifiers : List String) (read? : List String → List Char → Option β)
    (fuel : Nat) (text : List Char) : Option β :=
  (modifierReadings modifiers fuel text).findSome? fun (taken, left) => read? taken left

theorem firstReading?_zero (text : List Char) :
    firstReading? modifiers read? 0 text = read? [] text := by
  simp [firstReading?, modifierReadings]

theorem firstReading?_succ (fuel : Nat) (text : List Char) :
    firstReading? modifiers read? (fuel + 1) text =
      (((keyword? modifiers text).bind fun pair =>
        firstReading? modifiers (fun taken => read? (pair.1 :: taken)) fuel pair.2) <|>
          read? [] text) := by
  unfold firstReading?
  rw [modifierReadings]
  cases keyword? modifiers text with
  | none => simp
  | some pair => simp [List.findSome?_append, List.findSome?_map, Function.comp_def]

theorem firstReading?_of_none {text : List Char} (bare : keyword? modifiers text = none)
    (fuel : Nat) : firstReading? modifiers read? fuel text = read? [] text := by
  cases fuel with
  | zero => exact firstReading?_zero text
  | succ fuel => simp [firstReading?_succ, bare]

theorem firstReading?_fuel (plain : ArePlain modifiers) {fuel other : Nat} {text : List Char}
    (enough : text.length ≤ fuel) (enoughToo : text.length ≤ other) :
    firstReading? modifiers read? fuel text = firstReading? modifiers read? other text := by
  induction fuel generalizing other text read? with
  | zero =>
      have bare : keyword? modifiers text = none := by
        rw [Option.eq_none_iff_forall_ne_some]
        intro pair found
        have shorter := keyword?_shorter plain found
        omega
      rw [firstReading?_of_none bare, firstReading?_of_none bare]
  | succ fuel ih =>
      cases found : keyword? modifiers text with
      | none => rw [firstReading?_of_none found, firstReading?_of_none found]
      | some pair =>
          have shorter := keyword?_shorter plain found
          cases other with
          | zero => omega
          | succ other =>
              rw [firstReading?_succ, firstReading?_succ, found, Option.bind_some, Option.bind_some,
                ih (by omega) (by omega : pair.2.length ≤ other)]

variable [HasRest β]

/-- Modifiers before a declaration. A strict reader may not leave a modifier to what follows it. -/
theorem firstReading?_follows (plain : ArePlain modifiers)
    (reads : ∀ taken, Follows strict (read? taken))
    (apart : strict → ∀ {taken text value pair}, read? taken text = some value →
      keyword? modifiers text = some pair →
      keyword? modifiers pair.2 = none ∧ ∀ others, read? others pair.2 = none) (fuel : Nat) :
    Follows strict (firstReading? modifiers read? fuel) := by
  induction fuel generalizing read? with
  | zero =>
      rw [funext firstReading?_zero]
      exact reads []
  | succ fuel ih =>
      rw [funext (firstReading?_succ fuel)]
      have later (modifier : String) : Follows strict
          (firstReading? modifiers (fun taken => read? (modifier :: taken)) fuel) :=
        ih (fun taken => reads (modifier :: taken)) fun holds {_ _ _ _} read known =>
          ⟨(apart holds read known).1, fun _ => (apart holds read known).2 _⟩
      apply Follows.orElse
      · exact (keyword?_follows plain).bind (Follows.curry later)
      · exact reads []
      · intro holds text value read
        rw [Option.bind_eq_none_iff]
        intro pair known
        obtain ⟨bare, unread⟩ := apart holds read known
        rw [firstReading?_of_none bare]
        exact unread _

theorem declared?_follows (plain : ArePlain modifiers)
    (reads : ∀ taken, Follows strict (read? taken))
    (unread : ∀ taken text, read? taken ('@' :: text) = none)
    (apart : strict → ∀ {taken text value pair}, read? taken text = some value →
      keyword? modifiers text = some pair →
      keyword? modifiers pair.2 = none ∧ ∀ others, read? others pair.2 = none) :
    Follows strict (declared? modifiers read?) := by
  have stops (fuel : Nat) {text more : List Char} (gap : IsGap text more)
      (_ : annotation? text = none) (past : (annotation? (text ++ more)).isSome = true) :
      firstReading? modifiers read? fuel text = none := by
    cases text with
    | nil =>
        obtain ⟨tail, rfl⟩ := List.head?_eq_some_iff.mp gap.blank
        cases past
    | cons c text =>
        obtain ⟨left, found⟩ := Option.isSome_iff_exists.mp past
        rw [annotation?_eq] at found
        obtain ⟨back, sign, -⟩ := Option.bind_eq_some_iff.mp found
        obtain rfl : c = '@' := (List.cons.inj (after?_eq_some_iff.mp sign)).1
        rw [firstReading?_of_none (keyword?_of_sign plain (.inl rfl) text)]
        exact unread [] text
  have fixed (fuel : Nat) : Follows strict fun text =>
      firstReading? modifiers read? fuel (skipItems annotation? fuel text) :=
    annotation?_follows.afterItems (firstReading?_follows plain reads apart fuel) (stops fuel) fuel
  apply Follows.of_fuel fixed
  intro fuel text enough
  have length : (skipItems annotation? text.length text).length ≤ text.length :=
    (skipItems_suffix annotation?_follows _ _).length_le
  rw [skipItems_fuel annotation?_shorter enough le_rfl]
  exact firstReading?_fuel plain (length.trans enough) length

end Readings

section Heads

variable {strict : Prop}

theorem word?_left {text word left : List Char} (found : word? text = some (word, left)) :
    left = text.dropWhile isWord := by
  rw [word?_eq, Option.ite_none_left_eq_some] at found
  exact (Prod.mk.inj (Option.some.inj found.2)).2.symm

theorem word?_of_sign {c : Char} (sign : isWord c = false) (text : List Char) :
    word? (c :: text) = none := by
  simp [word?, sign]

theorem className?_follows {modifiers kinds : List String} (listed : modifiers ∈ headWords)
    (listedKinds : kinds ∈ headWords) : Follows False (className? modifiers kinds) := by
  have plainKinds := headWords_plain listedKinds
  unfold className?
  apply declared?_follows (headWords_plain listed)
  · intro _
    simp only [Option.bind_map]
    exact (keyword?_follows plainKinds).bind (Follows.curry fun _ => word?_follows)
  · intro _ text
    rw [keyword?_of_sign plainKinds (.inl rfl)]
    rfl
  · exact False.elim

def constructorName? (modifiers : List String) (text : List Char) : Option MethodHead :=
  (word? text).bind fun pair =>
    (parenthesis? pair.2).map fun inside =>
      ⟨String.ofList pair.1, visibilityAmong modifiers, [], inside⟩

theorem constructorName?_of_sign {c : Char} (sign : isWord c = false) (modifiers : List String)
    (text : List Char) : constructorName? modifiers (c :: text) = none := by
  rw [constructorName?, word?_of_sign sign]
  rfl

theorem modifier_before_parenthesis {modifiers : List String} {text : List Char} {head : MethodHead}
    {pair : String × List Char} (named : constructorName? modifiers text = some head)
    (known : keyword? constructorModifiers text = some pair) :
    ∃ inside, pair.2 = '(' :: inside := by
  obtain ⟨⟨name, left⟩, word, opened⟩ := Option.bind_eq_some_iff.mp named
  obtain ⟨inside, parenthesis, -⟩ := Option.map_eq_some_iff.mp opened
  have plain : ArePlain constructorModifiers := headWords_plain (by simp [headWords])
  rw [keyword?_eq plain, Option.ite_none_right_eq_some] at known
  obtain ⟨member, found⟩ := known
  obtain ⟨back, blank, rfl⟩ := Option.map_eq_some_iff.mp found
  obtain ⟨trimmed, c, first, white⟩ := blanks?_eq_some blank
  have letters : ∀ c ∈ text.takeWhile (fun c => !isBlank c), isWord c = true := by
    have checked : (constructorModifiers.all fun word => word.toList.all isWord) = true := by decide
    have word := List.all_eq_true.mp checked _ member
    rw [String.toList_ofList] at word
    exact List.all_eq_true.mp word
  have ends : ∀ c, (text.dropWhile fun c => !isBlank c).head? = some c → isWord c = false := by
    intro d same
    rw [first] at same
    obtain rfl := Option.some.inj same
    rw [Bool.eq_false_iff]
    intro letter
    rw [isBlank_eq_false_of_isWord letter] at white
    cases white
  have parts := (span_append letters ends).2
  rw [List.takeWhile_append_dropWhile] at parts
  obtain rfl : left = text.dropWhile isWord := word?_left word
  rw [parenthesis?_eq] at parenthesis
  have opens := after?_eq_some_iff.mp parenthesis
  rw [parts, trimmed] at opens
  exact ⟨inside, opens⟩

theorem constructorHead?_follows : Follows True constructorHead? := by
  change Follows True (declared? constructorModifiers constructorName?)
  have plain : ArePlain constructorModifiers := headWords_plain (by simp [headWords])
  apply declared?_follows plain
  · intro modifiers
    have opens (name : List Char) : Follows True fun text => (parenthesis? text).map fun inside =>
        MethodHead.mk (String.ofList name) (visibilityAmong modifiers) [] inside :=
      parenthesis?_follows.map _ (fun _ _ => rfl) (fun _ _ _ => rfl)
    exact word?_follows.bind (Follows.curry opens)
  · exact constructorName?_of_sign (by decide)
  · intro _ _ _ _ _ named known
    obtain ⟨inside, opens⟩ := modifier_before_parenthesis named known
    rw [opens]
    exact ⟨keyword?_of_sign plain (.inr rfl) inside,
      fun others => constructorName?_of_sign (by decide) others inside⟩

def spacedName? (text : List Char) : Option (List Char × List Char) :=
  ((blanks? text).bind word?).bind fun pair =>
    (parenthesis? pair.2).map fun inside => (pair.1, inside)

theorem spacedName?_follows : Follows strict spacedName? := by
  have opens (name : List Char) : Follows strict fun text =>
      (parenthesis? text).map fun inside => (name, inside) :=
    parenthesis?_follows.map _ (fun _ _ => rfl) (fun _ _ _ => rfl)
  exact (blanks?_follows.bind word?_follows).bind (Follows.curry opens)

theorem spacedName?_of_brackets {text more : List Char} (gap : IsGap text more)
    (brackets : (arrayBrackets? (text ++ more)).isSome = true) : spacedName? text = none := by
  obtain ⟨back, found⟩ := Option.isSome_iff_exists.mp brackets
  rw [arrayBrackets?_eq] at found
  obtain ⟨inside, opened, -⟩ := Option.bind_eq_some_iff.mp found
  have opens := after?_eq_some_iff.mp opened
  rw [spacedName?, Option.bind_eq_none_iff]
  intro pair named
  obtain ⟨left, blank, word⟩ := Option.bind_eq_some_iff.mp named
  obtain ⟨trimmed, c, first, -⟩ := blanks?_eq_some blank
  have nonempty : text ≠ [] := by
    rintro rfl
    cases first
  rw [(trimLeft_gap gap nonempty).1, trimmed] at opens
  cases left with
  | nil => cases word
  | cons d left =>
      obtain rfl : d = '[' := (List.cons.inj opens).1
      rw [word?_of_sign (by decide)] at word
      cases word

theorem nameAfterType?_eq (text : List Char) :
    nameAfterType? text =
      (spacedName? (skipItems arrayBrackets? text.length text)).map fun pair =>
        (skipItems arrayBrackets? text.length text, pair.1, pair.2) := by
  simp only [nameAfterType?, spacedName?, Option.map_bind, Function.comp_def, Option.map_map]

theorem nameAfterType?_follows : Follows False nameAfterType? := by
  have named : Follows False fun text => (spacedName? text).map fun pair =>
      (text, pair.1, pair.2) :=
    spacedName?_follows.map (fun text pair => (text, pair.1, pair.2)) (fun _ _ => rfl)
      (fun _ _ _ => rfl)
  have fixed (fuel : Nat) : Follows False fun text =>
      (spacedName? (skipItems arrayBrackets? fuel text)).map fun pair =>
        (skipItems arrayBrackets? fuel text, pair.1, pair.2) := by
    refine arrayBrackets?_follows.afterItems named (fun gap _ past => ?_) fuel
    rw [spacedName?_of_brackets gap past]
    rfl
  rw [funext nameAfterType?_eq]
  apply Follows.of_fuel fixed
  intro fuel text enough
  rw [skipItems_fuel arrayBrackets?_shorter enough le_rfl]

def typeEnd? (text : List Char) : Option (List Char × List Char × List Char) :=
  ((symbol? '<' text).bind (skipTo (· != '\n') '>' nameAfterType?)) <|> nameAfterType? text

theorem typeEnd?_follows : Follows False typeEnd? :=
  ((symbol?_follows (by decide)).bind (nameAfterType?_follows.skipTo _ _)).orElse
    nameAfterType?_follows False.elim

theorem typeAndName?_eq (visibility : String) (text : List Char) :
    typeAndName? visibility text =
      (if (text.takeWhile fun c => isWord c || c == '.' || c == '$').isEmpty then none
      else typeEnd? (text.dropWhile fun c => isWord c || c == '.' || c == '$')).map
        fun (afterType, name, inside) => ⟨String.ofList name, visibility,
          text.take (text.length - afterType.length), inside⟩ := by
  unfold typeAndName? typeEnd?
  dsimp only
  split
  · rfl
  · congr 2
    apply eq_symbol?_bind
    · intro left opens
      rw [opens]
      rfl
    · intro closed
      split
      · rename_i left opens
        exact absurd opens (closed left)
      · rfl

theorem typeAndName?_follows (visibility : String) : Follows False (typeAndName? visibility) := by
  have ends (run : List Char) : Follows False fun left =>
      if run.isEmpty then none else typeEnd? left :=
    Follows.ite _ Follows.never typeEnd?_follows
  rw [funext (typeAndName?_eq visibility)]
  refine (Follows.afterRun (by decide) ends).map _ (fun _ _ => rfl) ?_
  rintro text ⟨afterType, name, inside⟩ more
  have length : (text ++ more).length - (afterType ++ more).length =
      text.length - afterType.length := by
    rw [List.length_append, List.length_append, Nat.add_sub_add_right]
  have type : (text ++ more).take ((text ++ more).length - (afterType ++ more).length) =
      text.take (text.length - afterType.length) := by
    rw [length, List.take_append_of_le_length (Nat.sub_le _ _)]
  exact congrArg (MethodHead.mk (String.ofList name) visibility · (inside ++ more)) type

theorem typeVariables?_follows : Follows strict typeVariables? := by
  have ends (names : List Char) : Follows strict fun left =>
      if names.isEmpty then none else blanks? left :=
    Follows.ite _ Follows.never blanks?_follows
  exact (bracketed?_follows '<' '>').bind (Follows.curry ends)

theorem typeAndName?_of_sign (visibility : String) (text : List Char) :
    typeAndName? visibility ('@' :: text) = none := by
  rw [typeAndName?_eq]
  rfl

theorem javaMethodHead?_follows : Follows False javaMethodHead? := by
  unfold javaMethodHead?
  apply declared?_follows (headWords_plain (by simp [headWords]))
  · intro modifiers
    exact (typeVariables?_follows.bind (typeAndName?_follows _)).orElse (typeAndName?_follows _)
      False.elim
  · intro modifiers text
    rw [typeAndName?_of_sign]
    rfl
  · exact False.elim

theorem functionName?_follows : Follows strict functionName? := by
  have next (qualified : List Char) : Follows strict fun left =>
      let name := (qualified.reverse.takeWhile isWord).reverse
      let receiver := (qualified.reverse.dropWhile isWord).reverse
      if name.isEmpty then none
      else if receiver.isEmpty || (receiver.getLast? == some '.' && 1 < receiver.length) then
        (parenthesis? left).map fun inside => (name, inside)
      else none :=
    Follows.ite _ Follows.never (Follows.ite _
      (parenthesis?_follows.map _ (fun _ _ => rfl) (fun _ _ _ => rfl)) Follows.never)
  exact Follows.afterRun (by decide) next

def genericName? (text : List Char) : Option (List Char × List Char) :=
  ((bracketed? '<' '>' text).bind fun pair => functionName? (trimLeft pair.2)) <|>
    functionName? text

theorem genericName?_follows : Follows False genericName? :=
  ((bracketed?_follows '<' '>').bind
    (Follows.curry fun _ => functionName?_follows.trimmed rfl)).orElse functionName?_follows
      False.elim

def functionHead? (modifiers : List String) (text : List Char) : Option MethodHead :=
  (keyword? ["fun"] text).bind fun pair => (genericName? pair.2).map fun (name, inside) =>
    ⟨String.ofList name, visibilityAmong modifiers, [], inside⟩

theorem kotlinFunctionHead?_eq :
    kotlinFunctionHead? = declared? kotlinFunctionModifiers functionHead? :=
  rfl

theorem kotlinFunctionHead?_follows : Follows False kotlinFunctionHead? := by
  rw [kotlinFunctionHead?_eq]
  have plain : ArePlain ["fun"] := headWords_plain (by simp [headWords])
  apply declared?_follows (headWords_plain (by simp [headWords]))
  · intro modifiers
    have named : Follows False fun text => (genericName? text).map fun (name, inside) =>
        MethodHead.mk (String.ofList name) (visibilityAmong modifiers) [] inside :=
      genericName?_follows.map _ (fun _ _ => rfl) (fun _ _ _ => rfl)
    exact (keyword?_follows plain).bind (Follows.curry fun _ => named)
  · intro modifiers text
    rw [functionHead?, keyword?_of_sign plain (.inl rfl)]
    rfl
  · exact False.elim

end Heads

section Lists

theorem Follows.front {strict : Prop} {read? : List Char → Option MethodHead}
    (reads : Follows strict read?) {front more shown : List Char} (gap : IsGap front more)
    {head : MethodHead} (found : read? (front ++ more) = some head)
    (left : head.rest = shown ++ more) : read? front = some { head with rest := shown } := by
  rcases reads.follows gap with same | ⟨value, past, short⟩
  · replace same : read? (front ++ more) = (read? front).map (extend · more) := same
    rw [found, eq_comm] at same
    obtain ⟨other, read, extended⟩ := Option.map_eq_some_iff.mp same
    have behind : other.rest ++ more = shown ++ more := by
      rw [← left, ← extended]
      rfl
    rw [read, ← extended, ← List.append_cancel_right behind]
    rfl
  · replace past : read? (front ++ more) = some value := past
    rw [found] at past
    obtain rfl := Option.some.inj past
    rw [show rest head = head.rest from rfl, left, List.length_append] at short
    omega

theorem Follows.front_eq_none {β : Type} [HasRest β] {strict : Prop}
    {read? : List Char → Option β} (reads : Follows strict read?) {front more : List Char}
    (gap : IsGap front more) (unread : read? (front ++ more) = none) : read? front = none := by
  rcases reads.follows gap with same | ⟨value, past, -⟩
  · replace same : read? (front ++ more) = (read? front).map (extend · more) := same
    rw [unread, eq_comm, Option.map_eq_none_iff] at same
    exact same
  · replace past : read? (front ++ more) = some value := past
    rw [unread] at past
    cases past

end Lists

section Tails

variable {α : Type}

theorem shortestRun_split {part : Char → Bool} {next? : List Char → Option α} {text : List Char}
    {value : List Char × α} (found : shortestRun part next? text = some value) :
    ∃ before left, text = before ++ left ∧ (∀ c ∈ before, part c = true) ∧
      next? left = some value.2 := by
  induction text generalizing value with
  | nil => cases found
  | cons c text ih =>
      rw [shortestRun, Option.ite_none_right_eq_some] at found
      obtain ⟨inside, found⟩ := found
      split at found
      · rename_i next here
        obtain rfl := Option.some.inj found
        exact ⟨[c], text, rfl, by simpa using inside, here⟩
      · obtain ⟨later, read, rfl⟩ := Option.map_eq_some_iff.mp found
        obtain ⟨before, left, rfl, run, next⟩ := ih read
        exact ⟨c :: before, left, rfl, List.forall_mem_cons.mpr ⟨inside, run⟩, next⟩

theorem runAfterBlanks_split {least : Nat} {part : Char → Bool} {next? : List Char → Option α}
    {text : List Char} {value : List Char × α}
    (found : runAfterBlanks least part next? text = some value) :
    ∃ before left, text = before ++ left ∧ (∀ c ∈ before, part c = true ∨ isBlank c = true) ∧
      next? left = some value.2 := by
  have trimmed : text.takeWhile isBlank ++ trimLeft text = text := List.takeWhile_append_dropWhile
  have blank : ∀ c ∈ text.takeWhile isBlank, part c = true ∨ isBlank c = true :=
    fun c member => .inr (List.mem_takeWhile_imp member)
  rw [runAfterBlanks, Option.ite_none_left_eq_some] at found
  rcases (Option.orElse_eq_some _ _ _).mp found.2 with run | ⟨-, bare⟩
  · obtain ⟨before, left, split, inside, next⟩ := shortestRun_split run
    refine ⟨text.takeWhile isBlank ++ before, left, ?_, ?_, next⟩
    · rw [List.append_assoc, ← split, trimmed]
    · intro c member
      exact (List.mem_append.mp member).elim (blank c) fun run => .inl (inside c run)
  · rw [Option.ite_none_right_eq_some] at bare
    obtain ⟨next, read, rfl⟩ := Option.map_eq_some_iff.mp bare.2
    exact ⟨_, _, trimmed.symm, blank, read⟩

theorem methodBody?_split {starts text body : List Char}
    (found : methodBody? starts text = some body) :
    ∃ blanks, text = blanks ++ body ∧ (∀ c ∈ blanks, isBlank c = true) ∧
      ∀ c, body.head? = some c → c ∈ starts := by
  have trimmed : text.takeWhile isBlank ++ trimLeft text = text := List.takeWhile_append_dropWhile
  have blank : ∀ c ∈ text.takeWhile isBlank, isBlank c = true :=
    fun c member => List.mem_takeWhile_imp member
  unfold methodBody? at found
  split at found
  · rename_i none
    obtain rfl := Option.some.inj found
    rw [none] at trimmed
    exact ⟨_, trimmed.symm, blank, by simp⟩
  · rename_i c left first
    rw [Option.ite_none_right_eq_some, Bool.and_eq_true, List.contains_iff_mem] at found
    obtain ⟨⟨listed, -⟩, same⟩ := found
    obtain rfl := Option.some.inj same
    rw [first] at trimmed
    refine ⟨_, trimmed.symm, blank, fun d begins => ?_⟩
    obtain rfl : c = d := Option.some.inj begins
    exact listed

theorem isExceptionListPart_of_isBlank {c : Char} (blank : isBlank c = true) :
    isExceptionListPart c = true := by
  simp [isExceptionListPart, blank]

theorem javaTail?_split {starts text body : List Char}
    (found : javaTail? starts text = some body) :
    ∃ before, text = before ++ body ∧ (∀ c ∈ before, isExceptionListPart c = true) ∧
      ∀ c, body.head? = some c → c ∈ starts := by
  rcases (Option.orElse_eq_some _ _ _).mp found with throws | ⟨-, plain⟩
  · obtain ⟨left, word, read⟩ := Option.bind_eq_some_iff.mp throws
    have announced : text = text.takeWhile isBlank ++ "throws".toList ++ left := by
      rw [List.append_assoc, ← after?_eq_some_iff.mp word]
      exact List.takeWhile_append_dropWhile.symm
    have letters : ∀ c ∈ text.takeWhile isBlank ++ "throws".toList,
        isExceptionListPart c = true := by
      have checked : "throws".toList.all isExceptionListPart = true := by decide
      intro c member
      rcases List.mem_append.mp member with blank | letter
      · exact isExceptionListPart_of_isBlank (List.mem_takeWhile_imp blank)
      · exact List.all_eq_true.mp checked c letter
    have behind : ∃ before, left = before ++ body ∧
        (∀ c ∈ before, isExceptionListPart c = true) ∧ ∀ c, body.head? = some c → c ∈ starts := by
      rcases (Option.orElse_eq_some _ _ _).mp read with listed | ⟨-, bare⟩
      · obtain ⟨value, run, rfl⟩ := Option.map_eq_some_iff.mp listed
        obtain ⟨front, back, rfl, inside, body⟩ := runAfterBlanks_split run
        obtain ⟨blanks, rfl, blank, begins⟩ := methodBody?_split body
        refine ⟨front ++ blanks, (List.append_assoc _ _ _).symm, fun c member => ?_, begins⟩
        rcases List.mem_append.mp member with run | spaced
        · exact (inside c run).elim id isExceptionListPart_of_isBlank
        · exact isExceptionListPart_of_isBlank (blank c spaced)
      · obtain ⟨blanks, rfl, blank, begins⟩ := methodBody?_split bare
        exact ⟨blanks, rfl, fun c member => isExceptionListPart_of_isBlank (blank c member), begins⟩
    obtain ⟨before, rfl, inside, begins⟩ := behind
    refine ⟨_ ++ before, by rw [List.append_assoc]; exact announced, fun c member => ?_, begins⟩
    exact (List.mem_append.mp member).elim (letters c) (inside c)
  · obtain ⟨blanks, rfl, blank, begins⟩ := methodBody?_split plain
    exact ⟨blanks, rfl, fun c member => isExceptionListPart_of_isBlank (blank c member), begins⟩

theorem javaTail?_suffix {starts text body : List Char}
    (found : javaTail? starts text = some body) : body <:+ text := by
  obtain ⟨before, rfl, -⟩ := javaTail?_split found
  exact List.suffix_append before body

theorem ne_sign_of_isBlank {c : Char} (blank : isBlank c = true) : c ≠ '{' ∧ c ≠ '=' := by
  constructor
  all_goals
    rintro rfl
    exact absurd blank (by decide)

theorem kotlinTail?_split {text : List Char} {value : Option (List Char) × List Char}
    (found : kotlinTail? text = some value) :
    ∃ before, text = before ++ value.2 ∧ (∀ c ∈ before, c ≠ '{' ∧ c ≠ '=') ∧
      ∀ c, value.2.head? = some c → c ∈ ['{', '='] := by
  rcases (Option.orElse_eq_some _ _ _).mp found with typed | ⟨-, plain⟩
  · split at typed
    · rename_i left colon
      obtain ⟨read, run, rfl⟩ := Option.map_eq_some_iff.mp typed
      obtain ⟨front, back, rfl, inside, body⟩ := runAfterBlanks_split run
      obtain ⟨blanks, rfl, blank, begins⟩ := methodBody?_split body
      have trimmed : text.takeWhile isBlank ++ trimLeft text = text :=
        List.takeWhile_append_dropWhile
      rw [colon] at trimmed
      refine ⟨text.takeWhile isBlank ++ ':' :: (front ++ blanks), ?_, ?_, begins⟩
      · conv_lhs => rw [← trimmed]
        simp
      · simp only [List.forall_mem_append, List.forall_mem_cons]
        refine ⟨fun c member => ne_sign_of_isBlank (List.mem_takeWhile_imp member), by decide,
          fun c member => ?_, fun c member => ne_sign_of_isBlank (blank c member)⟩
        exact (inside c member).elim (fun type => by simpa using type) ne_sign_of_isBlank
    · cases typed
  · obtain ⟨body, read, rfl⟩ := Option.map_eq_some_iff.mp plain
    obtain ⟨blanks, rfl, blank, begins⟩ := methodBody?_split read
    exact ⟨blanks, rfl, fun c member => ne_sign_of_isBlank (blank c member), begins⟩

theorem kotlinTail?_suffix {text : List Char} {value : Option (List Char) × List Char}
    (found : kotlinTail? text = some value) : value.2 <:+ text := by
  obtain ⟨before, rfl, -⟩ := kotlinTail?_split found
  exact List.suffix_append before value.2

end Tails

section Methods

variable {dialect : Dialect} {className : String} {header : List Char}

def methodHead? (dialect : Dialect) (className : String) (header : List Char) :
    Option MethodHead :=
  match dialect with
  | .kotlin => kotlinFunctionHead? header
  | .java =>
    if (constructor? className header).isSome then constructorHead? header
    else javaMethodHead? header

/-- What is kept of a head when the rest of the header is read. -/
structure Completes (header : List Char) (head : MethodHead) (read : MethodHeader) : Prop where
  name : read.name = head.name
  visibility : read.visibility = head.visibility
  tailStart : ∀ {offset}, closingOffset 1 head.rest = some offset →
    ∃ tailStart, read.tailStart = some tailStart ∧
      header.length ≤ tailStart + (head.rest.drop (offset + 1)).length

section Completion

variable {α : Type} {head : MethodHead} {tail? : List Char → Option (α × List Char)}
  {returnType : Option α → Option String} {read : MethodHeader}

theorem withTail?_of_open (opened : closingOffset 1 head.rest = none) :
    withTail? header head tail? returnType =
      some ⟨head.name, head.visibility, head.rest, returnType none, none⟩ := by
  rw [withTail?, opened]

theorem withTail?_completes
    (suffix : ∀ {text value}, tail? text = some value → value.2 <:+ text)
    (found : withTail? header head tail? returnType = some read) : Completes header head read := by
  unfold withTail? at found
  split at found
  · rename_i opened
    obtain rfl := Option.some.inj found
    refine ⟨rfl, rfl, fun closed => ?_⟩
    rw [opened] at closed
    cases closed
  · rename_i offset closed
    obtain ⟨⟨value, body⟩, tail, rfl⟩ := Option.map_eq_some_iff.mp found
    refine ⟨rfl, rfl, fun {other} closedToo => ⟨_, rfl, ?_⟩⟩
    obtain rfl : offset = other := Option.some.inj (closed.symm.trans closedToo)
    have length := (suffix tail).length_le
    dsimp only at length
    omega

theorem withJavaTail?_completes {starts : List Char} {type : Option String}
    (found : withJavaTail? header head starts type = some read) : Completes header head read := by
  apply withTail?_completes _ found
  intro text value tail
  obtain ⟨body, read, rfl⟩ := Option.map_eq_some_iff.mp tail
  exact javaTail?_suffix read

end Completion

theorem method?_completes {read : MethodHeader}
    (found : method? dialect className header = some read) :
    ∃ head, methodHead? dialect className header = some head ∧ Completes header head read := by
  cases dialect with
  | kotlin =>
      obtain ⟨head, headRead, tailed⟩ := Option.bind_eq_some_iff.mp found
      exact ⟨head, headRead, withTail?_completes kotlinTail?_suffix tailed⟩
  | java =>
      rcases (Option.orElse_eq_some _ _ _).mp found with constructed | ⟨unconstructed, plain⟩
      · obtain ⟨head, headRead, tailed⟩ := Option.bind_eq_some_iff.mp constructed
        rw [Option.ite_none_right_eq_some] at tailed
        refine ⟨head, ?_, withJavaTail?_completes tailed.2⟩
        rw [methodHead?, constructed]
        exact headRead
      · obtain ⟨head, headRead, tailed⟩ := Option.bind_eq_some_iff.mp plain
        rw [Option.ite_none_left_eq_some] at tailed
        refine ⟨head, ?_, withJavaTail?_completes tailed.2⟩
        rw [methodHead?, unconstructed]
        exact headRead

/-- The parameter list of the method that a header declares, with what stands before it and after
it. -/
structure HasParameters (dialect : Dialect) (className : String)
    (header before inside after : List Char) : Prop where
  split : header = before ++ '(' :: (inside ++ ')' :: after)
  opened : (methodHead? dialect className header).map MethodHead.rest =
    some (inside ++ ')' :: after)
  closed : IsBalanced inside

/-- Whether a header that begins like a constructor of the class is read as one. -/
def ReadsConstructor (className : String) (header : List Char) : Prop :=
  ∀ head, constructorHead? header = some head → head.name = className →
    (constructor? className header).isSome = true

theorem constructor?_name (constructed : (constructor? className header).isSome = true)
    {head : MethodHead} (headRead : constructorHead? header = some head) :
    head.name = className := by
  obtain ⟨read, found⟩ := Option.isSome_iff_exists.mp constructed
  rw [constructor?, headRead, Option.bind_some, Option.ite_none_right_eq_some] at found
  exact found.1

theorem javaMethod?_typed {read : MethodHeader} (found : javaMethod? header = some read)
    {head : MethodHead} (headRead : javaMethodHead? header = some head) :
    ¬ statementWords.contains (String.ofList head.returnType) = true := by
  rw [javaMethod?, headRead, Option.bind_some, Option.ite_none_left_eq_some] at found
  exact found.1

namespace HasParameters

variable {before inside after : List Char} {read : MethodHeader}
  (list : HasParameters dialect className header before inside after)
  (found : method? dialect className header = some read)

include list found

theorem exists_head : ∃ head, methodHead? dialect className header = some head ∧
    head.rest = inside ++ ')' :: after ∧ Completes header head read := by
  obtain ⟨head, headRead, completes⟩ := method?_completes found
  have left := list.opened
  rw [headRead] at left
  exact ⟨head, headRead, Option.some.inj left, completes⟩

theorem exists_tailStart :
    ∃ tailStart, read.tailStart = some tailStart ∧ header.length ≤ tailStart + after.length := by
  obtain ⟨head, -, left, completes⟩ := list.exists_head found
  have closes := list.closed.closingOffset_inside after
  rw [← left] at closes
  obtain ⟨tailStart, starts, bound⟩ := completes.tailStart closes
  refine ⟨tailStart, starts, ?_⟩
  rw [left, List.append_cons, List.drop_left' (by simp)] at bound
  exact bound

variable (constructs : dialect = .java → ReadsConstructor className header)
  {front more shown : List Char} (gap : IsGap front more) (whole : header = front ++ more)
  (opens : front = before ++ '(' :: shown) (within : shown <+: inside)

include constructs gap whole opens within

theorem method?_front : ∃ returnType, method? dialect className front =
    some ⟨read.name, read.visibility, shown, returnType, none⟩ := by
  obtain ⟨head, headRead, left, completes⟩ := list.exists_head found
  have openList := list.closed.closingOffset_front within
  have behind : head.rest = shown ++ more := by
    have same := list.split
    rw [whole, opens, List.append_assoc, List.cons_append] at same
    rw [left]
    exact (List.cons.inj (List.append_cancel_left same)).2.symm
  rw [completes.name, completes.visibility]
  subst whole
  cases dialect with
  | kotlin =>
      have frontHead := kotlinFunctionHead?_follows.front gap headRead behind
      rw [method?, frontHead, Option.bind_some, withTail?_of_open openList]
      exact ⟨_, rfl⟩
  | java =>
      -- A header that is no constructor may still begin like one, and its front would be one then.
      by_cases constructed : (constructor? className (front ++ more)).isSome = true
      · rw [methodHead?, if_pos constructed] at headRead
        have named : head.name = className := constructor?_name constructed headRead
        have frontHead := constructorHead?_follows.front gap headRead behind
        rw [method?, constructor?, frontHead, Option.bind_some, if_pos named, withJavaTail?,
          withTail?_of_open openList]
        exact ⟨_, rfl⟩
      · rw [methodHead?, if_neg constructed] at headRead
        have frontHead := javaMethodHead?_follows.front gap headRead behind
        have unconstructed : constructor? className front = none := by
          rw [constructor?, Option.bind_eq_none_iff]
          intro other begins
          rw [if_neg]
          intro named
          have whole := constructorHead?_follows.keeps trivial gap begins
          exact constructed (constructs rfl _ whole named)
        have plain : javaMethod? (front ++ more) = some read := by
          rw [method?, Option.not_isSome_iff_eq_none.mp constructed] at found
          exact found
        have typed := javaMethod?_typed plain headRead
        rw [method?, unconstructed, javaMethod?, frontHead, Option.bind_some, if_neg typed,
          withJavaTail?, withTail?_of_open openList]
        exact ⟨_, rfl⟩

end HasParameters

end Methods

section Classes

theorem keyword?_unique {first second : List String} (plain : ArePlain first)
    (plainSecond : ArePlain second) {text : List Char} {pair : String × List Char}
    (found : keyword? first text = some pair) :
    keyword? second text = if pair.1 ∈ second then some pair else none := by
  rw [keyword?_eq plain, Option.ite_none_right_eq_some] at found
  obtain ⟨left, blank, rfl⟩ := Option.map_eq_some_iff.mp found.2
  rw [keyword?_eq plainSecond, blank]
  rfl

theorem declared?_of_keyword {α : Type} {modifiers words : List String}
    {read? : List String → List Char → Option α} (plain : ArePlain words) {text : List Char}
    {pair : String × List Char} (found : keyword? words text = some pair) :
    declared? modifiers read? text = firstReading? modifiers read? text.length text := by
  have unannotated : annotation? text = none := by
    rw [annotation?_eq, Option.bind_eq_none_iff]
    intro left sign
    obtain rfl := after?_eq_some_iff.mp sign
    rw [List.singleton_append, keyword?_of_sign plain (.inl rfl)] at found
    cases found
  have start : skipAnnotations text = text := by
    unfold skipAnnotations
    cases text.length with
    | zero => rfl
    | succ fuel => rw [skipItems, unannotated]
  rw [declared?, start]
  rfl

theorem keyword?_mem {words : List String} {text : List Char} {pair : String × List Char}
    (found : keyword? words text = some pair) : pair.1 ∈ words := by
  obtain ⟨word, member, read⟩ := List.exists_of_findSome?_eq_some found
  obtain ⟨left, -, rfl⟩ := Option.map_eq_some_iff.mp read
  exact member

theorem functionHead?_of_keyword {words : List String} (plain : ArePlain words)
    (other : "fun" ∉ words) {text : List Char} {pair : String × List Char}
    (found : keyword? words text = some pair) (modifiers : List String) :
    functionHead? modifiers text = none := by
  have unlike : pair.1 ∉ ["fun"] := by
    rw [List.mem_singleton]
    intro same
    exact other (same ▸ keyword?_mem found)
  rw [functionHead?, keyword?_unique plain (headWords_plain (by simp [headWords])) found,
    if_neg unlike]
  rfl

theorem functionReading?_of_companion {text : List Char} {pair : String × List Char}
    (found : keyword? ["companion"] text = some pair)
    {read? : List String → List Char → Option MethodHead}
    (reads : ∀ taken, ∃ modifiers, read? taken = functionHead? modifiers) (fuel : Nat) :
    firstReading? kotlinFunctionModifiers read? fuel text = none := by
  have plain : ArePlain ["companion"] := headWords_plain (by simp [headWords])
  have bare : keyword? kotlinFunctionModifiers text = none := by
    rw [keyword?_unique plain (headWords_plain (by simp [headWords])) found, if_neg]
    rw [List.mem_singleton.mp (keyword?_mem found)]
    decide
  obtain ⟨modifiers, same⟩ := reads []
  rw [firstReading?_of_none bare, same]
  exact functionHead?_of_keyword plain (by decide) found modifiers

theorem companion?_of_function {header : List Char} {head : MethodHead}
    (found : kotlinFunctionHead? header = some head) : companion? header = none := by
  rw [Option.eq_none_iff_forall_ne_some]
  intro value companion
  obtain ⟨left, named, -⟩ := Option.bind_eq_some_iff.mp companion
  obtain ⟨pair, word, -⟩ := Option.bind_eq_some_iff.mp named
  rw [kotlinFunctionHead?_eq] at found
  cases visible : keyword? visibilities header with
  | none =>
      rw [visible] at word
      replace word : keyword? ["companion"] header = some pair := word
      have plain : ArePlain ["companion"] := headWords_plain (by simp [headWords])
      rw [declared?_of_keyword plain word,
        functionReading?_of_companion word fun taken => ⟨taken, rfl⟩] at found
      cases found
  | some front =>
      rw [visible] at word
      replace word : keyword? ["companion"] front.2 = some pair := word
      have plain : ArePlain visibilities := headWords_plain (by simp [headWords])
      have unnamed := functionHead?_of_keyword plain (by decide) visible []
      have modifier : front.1 ∈ kotlinFunctionModifiers := by
        have subset : visibilities ⊆ kotlinFunctionModifiers := by decide
        exact subset (keyword?_mem visible)
      have known : keyword? kotlinFunctionModifiers header = _ :=
        keyword?_unique plain (headWords_plain (by simp [headWords])) visible
      rw [if_pos modifier] at known
      rw [declared?_of_keyword plain visible] at found
      cases length : header.length with
      | zero =>
          rw [length, firstReading?_zero, unnamed] at found
          cases found
      | succ fuel =>
          have later := functionReading?_of_companion word
            (fun taken => ⟨front.1 :: taken, rfl⟩) fuel
          rw [length, firstReading?_succ, known, Option.bind_some, later, unnamed] at found
          cases found

/-- The front of a header that opens a method and no class opens no class either. -/
theorem openedClass?_front {dialect : Dialect} {className : String} {front more : List Char}
    {read : MethodHeader} (gap : IsGap front more)
    (unopened : openedClass? dialect (front ++ more) = none)
    (found : method? dialect className front = some read) : openedClass? dialect front = none := by
  cases dialect with
  | java =>
      rw [openedClass?, Option.map_eq_none_iff] at unopened ⊢
      have follows : Follows False (className? javaClassModifiers javaClassKinds) :=
        className?_follows (by simp [headWords]) (by simp [headWords])
      exact follows.front_eq_none gap unopened
  | kotlin =>
      rw [openedClass?, Option.orElse_eq_none, Option.map_eq_none_iff,
        Option.map_eq_none_iff] at unopened ⊢
      obtain ⟨head, headRead, -⟩ := Option.bind_eq_some_iff.mp found
      have follows : Follows False (className? kotlinClassModifiers kotlinClassKinds) :=
        className?_follows (by simp [headWords]) (by simp [headWords])
      exact ⟨follows.front_eq_none gap unopened.1, companion?_of_function headRead⟩

end Classes

end MethodFlow.Header
