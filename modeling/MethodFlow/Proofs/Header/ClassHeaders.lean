import MethodFlow.Proofs.Header.ClassClauses

/-!
Class headers of Java, written out and read back. The list of type parameters ends at its own
bracket, since no blank follows a bracket within it. So a header opens the class that it names
(`JavaHeader.openedClass?_text`) and reads as a whole, with the parents that it was written with
(`JavaHeader.supertypes?_text`).
-/
namespace MethodFlow.Header

open Text

section Grammar

structure WordName where
  chars : List Char
  nonempty : chars ≠ []
  letters : ∀ c ∈ chars, isWord c = true

structure TypeParameter where
  name : WordName
  bound : Option ClassType

def TypeParameter.text (parameter : TypeParameter) : List Char :=
  match parameter.bound with
  | none => parameter.name.chars
  | some type => parameter.name.chars ++ " extends ".toList ++ type.text

def TypeParameter.listText : List TypeParameter → List Char
  | [] => []
  | list => '<' :: (commaList (list.map TypeParameter.text) ++ ['>'])

def clauseText (keyword : String) : List ClassType → List Char
  | [] => []
  | types => ' ' :: (keyword.toList ++ ' ' :: ClassType.listText types)

inductive JavaParents where
  | ofClass (extended : Option ClassType) (implemented : List ClassType)
  | ofInterface (extended : List ClassType)

namespace JavaParents

def kind : JavaParents → String
  | ofClass _ _ => "class"
  | ofInterface _ => "interface"

def text : JavaParents → List Char
  | ofClass extended implemented =>
    clauseText "extends" extended.toList ++ clauseText "implements" implemented
  | ofInterface extended => clauseText "extends" extended

/-- The first type that an interface extends counts as its superclass. -/
def supertypes : JavaParents → Supertypes
  | ofClass extended implemented =>
    ⟨extended.map fun type => String.ofList type.text,
      implemented.map fun type => String.ofList type.text⟩
  | ofInterface extended =>
    ⟨extended.head?.map fun type => String.ofList type.text,
      extended.tail.map fun type => String.ofList type.text⟩

end JavaParents

def modifierText (modifiers : List String) : List Char :=
  modifiers.flatMap fun modifier => modifier.toList ++ [' ']

structure JavaHeader where
  modifiers : List String
  known : ∀ modifier ∈ modifiers, modifier ∈ javaClassModifiers
  name : WordName
  typeParameters : List TypeParameter
  parents : JavaParents
  hasBody : Bool

def JavaHeader.declaration (header : JavaHeader) : List Char :=
  modifierText header.modifiers ++ (header.parents.kind.toList ++ ' ' :: (header.name.chars ++
    (TypeParameter.listText header.typeParameters ++ header.parents.text)))

def JavaHeader.text (header : JavaHeader) : List Char :=
  header.declaration ++ headerEnd header.hasBody

end Grammar

section Parents

def clauseTypes? : List ClassType → Option (List Char)
  | [] => none
  | types => some (ClassType.listText types)

theorem splitCommas_clauseTypes? (types : List ClassType) :
    ((clauseTypes? types).map splitCommas).getD [] = types.map ClassType.text := by
  cases types with
  | nil => rfl
  | cons type types => exact ClassType.splitCommas_listText (type :: types)

theorem blank_headerEnd (hasBody : Bool) (c : Char) (first : (headerEnd hasBody).head? = some c) :
    isBlank c = true := by
  cases hasBody with
  | false => cases first
  | true =>
      cases first
      decide

theorem implements?_text (types : List ClassType) (hasBody : Bool) :
    implements? (clauseText "implements" types ++ headerEnd hasBody) =
      some (clauseTypes? types) := by
  cases types with
  | nil => exact implements?_headerEnd hasBody
  | cons type types =>
      have list := ClassType.isTypeList_listText (List.cons_ne_nil type types)
      have follows : MayFollow (ClassType.listText (type :: types)) (headerEnd hasBody) :=
        ⟨blank_headerEnd hasBody, .inl ⟨hasBody, rfl⟩⟩
      have read := clause_present (laterClauses_solid List.mem_cons_self) list.first list.parts
        (permits?_headerEnd hasBody)
        fun left shown suffix => permits?_inside list shown suffix follows
      rw [clauseText, List.cons_append, List.append_assoc, List.cons_append, implements?, read]
      · rfl
      · simp

theorem extends?_text (extended implemented : List ClassType)
    (single : implemented = [] ∨ extended.length ≤ 1) (hasBody : Bool) :
    extends? (clauseText "extends" extended ++
        (clauseText "implements" implemented ++ headerEnd hasBody)) =
      some (javaSupertypes (clauseTypes? extended) (clauseTypes? implemented)) := by
  have later := implements?_text implemented hasBody
  cases extended with
  | nil =>
      have other : ∀ left, blanks? (clauseText "implements" implemented ++ headerEnd hasBody) =
          some left → after? "extends".toList left = none := by
        intro left opens
        cases implemented with
        | nil =>
            cases hasBody with
            | false => cases opens
            | true =>
                cases opens
                rfl
        | cons type types =>
            cases opens
            rfl
      rw [clauseText, List.nil_append, extends?, clause_absent other, later]
      rfl
  | cons type types =>
      have list := ClassType.isTypeList_listText (List.cons_ne_nil type types)
      have follows : MayFollow (ClassType.listText (type :: types))
          (clauseText "implements" implemented ++ headerEnd hasBody) := by
        cases implemented with
        | nil => exact ⟨blank_headerEnd hasBody, .inl ⟨hasBody, rfl⟩⟩
        | cons next others =>
            refine ⟨fun c first => ?_, .inr fun keyword known before => ?_⟩
            · cases first
              decide
            · -- Before another clause there is a single type, and no type ends in a word alone.
              obtain rfl : types = [] := by simpa using single
              obtain ⟨nonempty, letters⟩ := laterClauses_letters known
              rw [ClassType.listText, List.map_cons, List.map_nil, commaList_singleton]
              exact type.not_ends_word letters nonempty before
      have read := clause_present isTypeWord_extends.toIsSolid list.first list.parts later
        fun left shown suffix => implements?_inside list shown suffix follows
      rw [clauseText, List.cons_append, List.append_assoc, List.cons_append, extends?, read]
      · rfl
      · simp

theorem JavaParents.extends?_text (parents : JavaParents) (hasBody : Bool) :
    extends? (parents.text ++ headerEnd hasBody) = some parents.supertypes := by
  cases parents with
  | ofClass extended implemented =>
      have read := Header.extends?_text extended.toList implemented
        (.inr (by cases extended <;> simp)) hasBody
      rw [text, List.append_assoc, read, javaSupertypes, splitCommas_clauseTypes?,
        splitCommas_clauseTypes?]
      cases extended <;> simp [supertypes, Function.comp_def]
  | ofInterface extended =>
      have read := Header.extends?_text extended [] (.inl rfl) hasBody
      rw [clauseText, List.nil_append] at read
      rw [text, read, javaSupertypes, splitCommas_clauseTypes?, splitCommas_clauseTypes?]
      cases extended <;> simp [supertypes, Function.comp_def]

end Parents

section Parameters

/-- A character that is not the end of a list of type parameters. -/
def IsOpenMark (mark : List Char) : Prop :=
  ∃ c, mark = [c] ∧ c ≠ '>'

structure IsParameterList (text : List Char) : Prop where
  parts : ∀ c ∈ text, isTypeListPart c = true
  spaced : IsSpaced IsOpenMark text

theorem IsTypeList.isParameterList {text : List Char} (list : IsTypeList text) :
    IsParameterList text := by
  refine ⟨list.parts, list.spaced.imp fun mark listed => ?_⟩
  have checked : (typeMarks.all fun mark => mark.getLast?.any (· != '>')) = true := by decide
  have last := List.all_eq_true.mp checked mark listed
  obtain ⟨c, ends, other⟩ := (Option.any_eq_true _ _).mp last
  obtain ⟨front, rfl⟩ := List.getLast?_eq_some_iff.mp ends
  exact ⟨[c], ⟨c, rfl, bne_iff_ne.mp other⟩, List.suffix_append front [c]⟩

theorem IsParameterList.append {left right : List Char} (before : IsParameterList left)
    (after : IsParameterList right) : IsParameterList (left ++ right) :=
  ⟨List.forall_mem_append.mpr ⟨before.parts, after.parts⟩, before.spaced.append after.spaced⟩

theorem isParameterList_word {word : List Char} (letters : ∀ c ∈ word, isWord c = true) :
    IsParameterList word where
  parts c member := isTypeListPart_of_isWord (letters c member)
  spaced := .of_solid fun c member => isBlank_eq_false_of_isWord (letters c member)

theorem isParameterList_spaced {word : List Char} (nonempty : word ≠ [])
    (letters : ∀ c ∈ word, isWord c = true) : IsParameterList (word ++ [' ']) := by
  obtain ⟨parts, spaced⟩ := isParameterList_word letters
  obtain ⟨front, c, rfl⟩ := (List.eq_nil_or_concat word).resolve_left nonempty
  rw [List.concat_eq_append] at letters parts spaced ⊢
  have other : c ≠ '>' := by
    rintro rfl
    have letter := letters '>' (by simp)
    cases letter
  constructor
  · exact List.forall_mem_append.mpr ⟨parts, isTypeListPart_of_all (by decide)⟩
  · exact spaced.space (List.suffix_append front [c]) ⟨c, rfl, other⟩

theorem isParameterList_comma : IsParameterList ", ".toList where
  parts := isTypeListPart_of_all (by decide)
  spaced := by
    have comma : IsSpaced IsOpenMark [','] := .of_solid (isBlank_eq_false_of_all (by decide))
    exact comma.space List.suffix_rfl ⟨',', rfl, by decide⟩

namespace TypeParameter

theorem isParameterList (parameter : TypeParameter) : IsParameterList parameter.text := by
  obtain ⟨name, bound⟩ := parameter
  cases bound with
  | none => exact isParameterList_word name.letters
  | some type =>
      have front := isParameterList_spaced name.nonempty name.letters
      have word : IsParameterList ("extends".toList ++ [' ']) :=
        isParameterList_spaced (by decide) (List.all_eq_true.mp (by decide))
      have whole := (front.append word).append type.isTypeList.isParameterList
      simpa [text] using whole

theorem isParameterList_list {list : List TypeParameter} (nonempty : list ≠ []) :
    IsParameterList (commaList (list.map text)) :=
  commaList_of_items (fun before after => before.append (isParameterList_comma.append after))
    (by simpa using nonempty) (List.forall_mem_map.mpr fun parameter _ => parameter.isParameterList)

end TypeParameter

theorem skipTo_eq {α : Type} {part : Char → Bool} {closing : Char} {next? : List Char → Option α}
    {inside rest : List Char} {value : α} (parts : ∀ c ∈ inside, part c = true)
    (read : next? rest = some value)
    (early : ∀ front back, inside = front ++ closing :: back →
      next? (back ++ closing :: rest) = none) :
    skipTo part closing next? (inside ++ closing :: rest) = some value := by
  induction inside with
  | nil =>
      rw [List.nil_append, skipTo, if_pos rfl, read]
      rfl
  | cons c inside ih =>
      obtain ⟨first, others⟩ := List.forall_mem_cons.mp parts
      have later := ih others fun front back split => early (c :: front) back (by rw [split]; rfl)
      have unread : (if c = closing then next? (inside ++ closing :: rest) else none) = none := by
        split
        · rename_i same
          exact early [] inside (by rw [same]; rfl)
        · rfl
      rw [List.cons_append, skipTo, unread, if_pos first, later]
      rfl

/-- Nothing of a header reads on at a character that is no blank and no sign of it. -/
theorem components?_of_sign {c : Char} (solid : isBlank c = false) (unlike : c ∉ ['(', '{'])
    (text : List Char) : components? (c :: text) = none := by
  simp only [List.mem_cons, List.not_mem_nil, or_false, not_or] at unlike
  have trimmed : trimLeft (c :: text) = c :: text := by
    rw [trimLeft, List.dropWhile_cons_of_neg (by simp [solid])]
  have closed : ∀ left, blanks? (c :: text) ≠ some left := by
    intro left opens
    rw [blanks?, if_neg (by simp [solid])] at opens
    cases opens
  have body : classBody? (c :: text) = none := classBody?_of_sign trimmed unlike.2
  have unclaused {α : Type} (keyword : String) (part : Char → Bool) {next? : List Char → Option α}
      (unread : next? (c :: text) = none) : clause keyword part next? (c :: text) = none := by
    rw [clause_absent fun left opens => absurd opens (closed left), unread]
    rfl
  have permits : permits? (c :: text) = none := by
    rw [permits?, unclaused _ _ body]
    rfl
  have implements : implements? (c :: text) = none := by
    rw [implements?, unclaused _ _ permits]
    rfl
  rw [components?, trimmed, bracketed?, if_neg unlike.1, extends?, unclaused _ _ implements]
  rfl

theorem IsParameterList.components?_inside {text : List Char} (list : IsParameterList text)
    {front back : List Char} (split : text = front ++ '>' :: back) (rest : List Char) :
    components? (back ++ '>' :: rest) = none := by
  cases back with
  | nil => exact components?_of_sign (by decide) (by decide) rest
  | cons c back =>
      have solid : isBlank c = false := by
        rw [Bool.eq_false_iff]
        intro blank
        obtain ⟨-, mark, ⟨d, rfl, other⟩, ends⟩ :=
          list.spaced (front ++ ['>']) c back (by simp [split]) blank
        have near : [d] <:+ ['>'] :=
          List.suffix_of_suffix_length_le ends (List.suffix_append _ _) (Nat.le_refl 1)
        exact other (List.cons.inj (near.eq_of_length rfl)).1
      have part := list.parts c (by simp [split])
      have unlike : c ∉ ['(', '{'] := by
        simp only [List.mem_cons, List.not_mem_nil, or_false]
        rintro (rfl | rfl)
        all_goals cases part
      exact components?_of_sign solid unlike _

end Parameters

section Headers

theorem JavaParents.text_cases (parents : JavaParents) (hasBody : Bool) :
    parents.text ++ headerEnd hasBody = [] ∨
      ∃ c ∈ ['e', 'i', '{'], ∃ more, parents.text ++ headerEnd hasBody = ' ' :: c :: more := by
  have ended : headerEnd hasBody = [] ∨
      ∃ c ∈ ['e', 'i', '{'], ∃ more, headerEnd hasBody = ' ' :: c :: more := by
    cases hasBody with
    | false => exact .inl rfl
    | true => exact .inr ⟨'{', by simp, [], rfl⟩
  cases parents with
  | ofClass extended implemented =>
      cases extended with
      | some type => exact .inr ⟨'e', by simp, _, rfl⟩
      | none =>
          cases implemented with
          | nil => exact ended
          | cons type types => exact .inr ⟨'i', by simp, _, rfl⟩
  | ofInterface extended =>
      cases extended with
      | nil => exact ended
      | cons type types => exact .inr ⟨'e', by simp, _, rfl⟩

theorem JavaParents.trimLeft_ne (parents : JavaParents) (hasBody : Bool) {sign : Char}
    (other : sign ∉ ['e', 'i', '{']) (more : List Char) :
    trimLeft (parents.text ++ headerEnd hasBody) ≠ sign :: more := by
  rcases parents.text_cases hasBody with none | ⟨c, listed, rest, begins⟩
  · rw [none]
    exact (List.cons_ne_nil sign more).symm
  · have solid : isBlank c = false := isBlank_eq_false_of_all (by decide) c listed
    rw [begins, trimLeft, List.dropWhile_cons_of_pos (by decide),
      List.dropWhile_cons_of_neg (by simp [solid])]
    intro same
    exact other ((List.cons.inj same).1 ▸ listed)

theorem JavaParents.components?_text (parents : JavaParents) (hasBody : Bool) :
    components? (parents.text ++ headerEnd hasBody) = some parents.supertypes := by
  have none : bracketed? '(' ')' (trimLeft (parents.text ++ headerEnd hasBody)) = none := by
    rw [Option.eq_none_iff_forall_ne_some]
    intro pair found
    exact parents.trimLeft_ne hasBody (by decide) _ (bracketed?_eq_some.mp found).2
  rw [components?, none, parents.extends?_text hasBody]
  rfl

theorem typeParameters?_text (list : List TypeParameter) (parents : JavaParents) (hasBody : Bool) :
    typeParameters? (TypeParameter.listText list ++ (parents.text ++ headerEnd hasBody)) =
      some parents.supertypes := by
  have read := parents.components?_text hasBody
  rw [typeParameters?_eq]
  cases list with
  | nil =>
      have none : symbol? '<' (parents.text ++ headerEnd hasBody) = none := by
        rw [symbol?, Option.eq_none_iff_forall_ne_some]
        intro left found
        exact parents.trimLeft_ne hasBody (by decide) left (after?_eq_some_iff.mp found)
      rw [TypeParameter.listText, List.nil_append, none, read]
      rfl
  | cons parameter list =>
      have inside := TypeParameter.isParameterList_list (List.cons_ne_nil parameter list)
      have braceless : ∀ c ∈ commaList ((parameter :: list).map TypeParameter.text),
          (c != '{') = true := by
        intro c member
        rw [bne_iff_ne]
        rintro rfl
        have part := inside.parts '{' member
        cases part
      have skipped := skipTo_eq braceless read fun _ _ split => inside.components?_inside split _
      have opened : symbol? '<' (TypeParameter.listText (parameter :: list) ++
          (parents.text ++ headerEnd hasBody)) =
            some (commaList ((parameter :: list).map TypeParameter.text) ++
              '>' :: (parents.text ++ headerEnd hasBody)) := by
        have split : TypeParameter.listText (parameter :: list) ++
            (parents.text ++ headerEnd hasBody) =
              '<' :: (commaList ((parameter :: list).map TypeParameter.text) ++
                '>' :: (parents.text ++ headerEnd hasBody)) := by
          simp [TypeParameter.listText]
        rw [split]
        exact after?_eq_some_iff.mpr rfl
      rw [opened, Option.bind_some, skipped]
      rfl

theorem keyword?_text {words : List String} (listed : words ∈ headWords) {word : String}
    (member : word ∈ words) {rest : List Char}
    (first : ∃ c, rest.head? = some c ∧ isBlank c = false) :
    keyword? words (word.toList ++ ' ' :: rest) = some (word, rest) := by
  have plain := headWords_plain listed
  have solid : ∀ c ∈ word.toList, (!isBlank c) = true := fun c inside => by
    simp [(plain word member c inside).1]
  obtain ⟨taken, left⟩ := @span_append (fun c => !isBlank c) word.toList (' ' :: rest) solid
    (by rintro c same; cases same; decide)
  have opens : blanks? (' ' :: rest) = some rest := by
    have trimmed := trimLeft_append_of_first first []
    rw [List.append_nil] at trimmed
    rw [blanks?, if_pos (by decide), trimmed]
  rw [keyword?_eq plain, taken, left, String.ofList_toList, if_pos member, opens]
  rfl

theorem WordName.word?_append (name : WordName) {rest : List Char}
    (ends : ∀ c, rest.head? = some c → isWord c = false) :
    word? (name.chars ++ rest) = some (name.chars, rest) := by
  obtain ⟨taken, left⟩ := span_append name.letters ends
  rw [word?_eq, taken, left, if_neg (by simp [name.nonempty])]

theorem WordName.head?_append (name : WordName) (rest : List Char) :
    ∃ c, (name.chars ++ rest).head? = some c ∧ isBlank c = false := by
  obtain ⟨c, more, same⟩ := List.exists_cons_of_ne_nil name.nonempty
  exact ⟨c, by simp [same], isBlank_eq_false_of_isWord (name.letters c (by simp [same]))⟩

theorem mem_headWords {words : List String} (among : words ∈ [javaClassModifiers, javaClassKinds]) :
    words ∈ headWords := by
  simp only [List.mem_cons, List.not_mem_nil, or_false] at among
  rcases among with rfl | rfl <;> simp [headWords]

theorem isSolid_headWord {words : List String} (listed : words ∈ headWords) {word : String}
    (member : word ∈ words) : IsSolid word.toList := by
  have checked :
      (headWords.all fun words => words.all fun word => !word.toList.isEmpty) = true := by
    decide
  have nonempty := List.all_eq_true.mp (List.all_eq_true.mp checked words listed) word member
  exact ⟨by simpa using nonempty, fun c inside => (headWords_plain listed word member c inside).1⟩

theorem modifierText_cons (modifier : String) (modifiers : List String) (rest : List Char) :
    modifierText (modifier :: modifiers) ++ rest =
      modifier.toList ++ ' ' :: (modifierText modifiers ++ rest) := by
  simp [modifierText]

theorem length_modifierText (modifiers : List String) :
    modifiers.length ≤ (modifierText modifiers).length := by
  induction modifiers with
  | nil => exact Nat.le_refl 0
  | cons modifier modifiers ih =>
      rw [modifierText] at ih ⊢
      rw [List.flatMap_cons, List.length_append, List.length_append, List.length_cons,
        List.length_singleton]
      omega

variable {modifiers : List String}
  (known : ∀ modifier ∈ modifiers, modifier ∈ javaClassModifiers) {kind : String}
  (listed : kind ∈ javaClassKinds)

include known listed

theorem head?_modifierText (rest : List Char) :
    ∃ c, (modifierText modifiers ++ (kind.toList ++ rest)).head? = some c ∧ isBlank c = false := by
  have begins {word : String} (solid : IsSolid word.toList) (rest : List Char) :
      ∃ c, (word.toList ++ rest).head? = some c ∧ isBlank c = false := by
    obtain ⟨c, first, isSolid⟩ := solid.head?
    exact ⟨c, by simp [first], isSolid⟩
  cases modifiers with
  | nil => exact begins (isSolid_headWord (by simp [headWords]) listed) rest
  | cons modifier modifiers =>
      have solid := isSolid_headWord (by simp [headWords]) (known modifier List.mem_cons_self)
      rw [modifierText_cons]
      exact begins solid _

theorem firstReading?_modifierText {α : Type} (read? : List Char → Option α) {rest : List Char}
    (first : ∃ c, rest.head? = some c ∧ isBlank c = false) {value : α}
    (read : read? (kind.toList ++ ' ' :: rest) = some value) {fuel : Nat}
    (enough : modifiers.length ≤ fuel) :
    firstReading? javaClassModifiers (fun _ => read?) fuel
      (modifierText modifiers ++ (kind.toList ++ ' ' :: rest)) = some value := by
  induction modifiers generalizing fuel with
  | nil =>
      have kinds : javaClassKinds ∈ headWords := by simp [headWords]
      have others : javaClassModifiers ∈ headWords := by simp [headWords]
      have checked : (javaClassKinds.all (!javaClassModifiers.contains ·)) = true := by decide
      have apart : kind ∉ javaClassModifiers := by
        simpa using List.all_eq_true.mp checked kind listed
      have bare : keyword? javaClassModifiers (kind.toList ++ ' ' :: rest) = none := by
        rw [keyword?_unique (headWords_plain kinds) (headWords_plain others)
          (keyword?_text kinds listed first), if_neg apart]
      exact (firstReading?_of_none bare fuel).trans read
  | cons modifier modifiers ih =>
      obtain ⟨knownFirst, knownOthers⟩ := List.forall_mem_cons.mp known
      cases fuel with
      | zero => cases enough
      | succ fuel =>
          have begins := head?_modifierText knownOthers listed (' ' :: rest)
          rw [modifierText_cons, firstReading?_succ,
            keyword?_text (by simp [headWords]) knownFirst begins, Option.bind_some,
            ih knownOthers (Nat.le_of_succ_le_succ enough)]
          rfl

theorem exists_keyword {rest : List Char} (first : ∃ c, rest.head? = some c ∧ isBlank c = false) :
    ∃ words ∈ [javaClassModifiers, javaClassKinds], ∃ pair,
      keyword? words (modifierText modifiers ++ (kind.toList ++ ' ' :: rest)) = some pair := by
  cases modifiers with
  | nil =>
      have found := keyword?_text (by simp [headWords]) listed first
      exact ⟨javaClassKinds, by simp, _, found⟩
  | cons modifier modifiers =>
      obtain ⟨knownFirst, knownOthers⟩ := List.forall_mem_cons.mp known
      have begins := head?_modifierText knownOthers listed (' ' :: rest)
      have found := keyword?_text (by simp [headWords]) knownFirst begins
      rw [modifierText_cons]
      exact ⟨javaClassModifiers, by simp, _, found⟩

theorem className?_text (name : WordName) {rest : List Char}
    (ends : ∀ c, rest.head? = some c → isWord c = false) :
    className? javaClassModifiers javaClassKinds
        (modifierText modifiers ++ (kind.toList ++ ' ' :: (name.chars ++ rest))) =
      some (name.chars, rest) := by
  have begins := name.head?_append rest
  have read : ((keyword? javaClassKinds (kind.toList ++ ' ' :: (name.chars ++ rest))).map
      Prod.snd).bind word? = some (name.chars, rest) := by
    rw [keyword?_text (by simp [headWords]) listed begins]
    exact name.word?_append ends
  have enough : modifiers.length ≤
      (modifierText modifiers ++ (kind.toList ++ ' ' :: (name.chars ++ rest))).length := by
    rw [List.length_append]
    exact (length_modifierText modifiers).trans (Nat.le_add_right _ _)
  have found := firstReading?_modifierText known listed
    (fun text => ((keyword? javaClassKinds text).map Prod.snd).bind word?) begins read enough
  obtain ⟨words, among, pair, first⟩ := exists_keyword known listed begins
  rw [className?, declared?_of_keyword (headWords_plain (mem_headWords among)) first]
  exact found

end Headers

section Characters

def isDeclarationPart (c : Char) : Bool :=
  isTypeListPart c || c == '-'

theorem isDeclarationPart_of_all {text : List Char}
    (checked : ∀ c ∈ text, isTypeListPart c = true) : ∀ c ∈ text, isDeclarationPart c = true := by
  intro c member
  rw [isDeclarationPart, checked c member]
  rfl

theorem clauseText_parts {keyword : String} (letters : ∀ c ∈ keyword.toList, isWord c = true)
    (types : List ClassType) : ∀ c ∈ clauseText keyword types, isTypeListPart c = true := by
  cases types with
  | nil => simp [clauseText]
  | cons type types =>
      have list := ClassType.isTypeList_listText (List.cons_ne_nil type types)
      have word : ∀ c ∈ keyword.toList, isTypeListPart c = true := fun c member =>
        isTypeListPart_of_isWord (letters c member)
      rw [clauseText, List.forall_mem_cons, List.forall_mem_append, List.forall_mem_cons]
      · exact ⟨by decide, word, by decide, list.parts⟩
      · simp

theorem JavaParents.parts (parents : JavaParents) :
    ∀ c ∈ parents.text, isTypeListPart c = true := by
  have extended := @clauseText_parts "extends" (List.all_eq_true.mp (by decide))
  have implemented := @clauseText_parts "implements" (List.all_eq_true.mp (by decide))
  cases parents with
  | ofClass parent interfaces =>
      exact List.forall_mem_append.mpr ⟨extended parent.toList, implemented interfaces⟩
  | ofInterface parents => exact extended parents

theorem TypeParameter.listText_parts (list : List TypeParameter) :
    ∀ c ∈ TypeParameter.listText list, isTypeListPart c = true := by
  cases list with
  | nil => simp [TypeParameter.listText]
  | cons parameter list =>
      have inside := TypeParameter.isParameterList_list (List.cons_ne_nil parameter list)
      rw [TypeParameter.listText, List.forall_mem_cons, List.forall_mem_append]
      · exact ⟨by decide, inside.parts, isTypeListPart_of_all (by decide)⟩
      · simp

def EndsSolid (text : List Char) : Prop :=
  ∀ c, text.getLast? = some c → isBlank c = false

theorem EndsSolid.append {left right : List Char} (before : EndsSolid left)
    (after : EndsSolid right) : EndsSolid (left ++ right) := by
  intro c last
  rw [List.getLast?_append, Option.or_eq_some_iff] at last
  rcases last with inRight | ⟨-, inLeft⟩
  · exact after c inRight
  · exact before c inLeft

theorem endsSolid_append {text : List Char}
    (last : ∃ c, text.getLast? = some c ∧ isBlank c = false) (front : List Char) :
    EndsSolid (front ++ text) := by
  obtain ⟨c, ends, solid⟩ := last
  intro d same
  rw [List.getLast?_append, ends] at same
  cases same
  exact solid

theorem clauseText_ends (keyword : String) (types : List ClassType) :
    EndsSolid (clauseText keyword types) := by
  cases types with
  | nil => simp [EndsSolid, clauseText]
  | cons type types =>
      have list := ClassType.isTypeList_listText (List.cons_ne_nil type types)
      have ends := endsSolid_append list.last (' ' :: (keyword.toList ++ [' ']))
      simpa [clauseText] using ends

theorem JavaParents.ends (parents : JavaParents) : EndsSolid parents.text := by
  cases parents with
  | ofClass parent interfaces =>
      exact (clauseText_ends _ parent.toList).append (clauseText_ends _ interfaces)
  | ofInterface parents => exact clauseText_ends _ parents

theorem TypeParameter.listText_ends (list : List TypeParameter) :
    EndsSolid (TypeParameter.listText list) := by
  cases list with
  | nil => simp [EndsSolid, TypeParameter.listText]
  | cons parameter list => exact endsSolid_append ⟨'>', rfl, by decide⟩ ('<' :: _)

theorem headerEnd_ends (hasBody : Bool) : EndsSolid (headerEnd hasBody) := by
  cases hasBody with
  | false => simp [EndsSolid, headerEnd]
  | true => exact endsSolid_append ⟨'{', rfl, by decide⟩ [' ']

end Characters

namespace JavaHeader

variable (header : JavaHeader)

theorem kind_mem : header.parents.kind ∈ javaClassKinds := by
  cases header.parents with
  | ofClass extended implemented => exact List.mem_cons_self
  | ofInterface extended => exact List.mem_cons_of_mem _ List.mem_cons_self

theorem not_isWord_after_name (c : Char)
    (first : (TypeParameter.listText header.typeParameters ++
      (header.parents.text ++ headerEnd header.hasBody)).head? = some c) : isWord c = false := by
  cases parameters : header.typeParameters with
  | nil =>
      rw [parameters, TypeParameter.listText, List.nil_append] at first
      rcases header.parents.text_cases header.hasBody with none | ⟨d, -, rest, begins⟩
      · rw [none] at first
        cases first
      · rw [begins] at first
        cases first
        decide
  | cons parameter list =>
      rw [parameters] at first
      cases first
      decide

theorem text_eq : header.text =
    modifierText header.modifiers ++ (header.parents.kind.toList ++ ' ' :: (header.name.chars ++
      (TypeParameter.listText header.typeParameters ++
        (header.parents.text ++ headerEnd header.hasBody)))) := by
  simp [text, declaration]

theorem className?_text : className? javaClassModifiers javaClassKinds header.text =
    some (header.name.chars, TypeParameter.listText header.typeParameters ++
      (header.parents.text ++ headerEnd header.hasBody)) := by
  rw [text_eq]
  exact Header.className?_text header.known header.kind_mem header.name header.not_isWord_after_name

theorem keyword?_eq_none {words : List String} (plain : ArePlain words)
    (apart : ∀ word ∈ words, word ∉ javaClassModifiers ∧ word ∉ javaClassKinds) :
    keyword? words header.text = none := by
  obtain ⟨others, among, pair, first⟩ := exists_keyword header.known header.kind_mem
    (header.name.head?_append (TypeParameter.listText header.typeParameters ++
      (header.parents.text ++ headerEnd header.hasBody)))
  rw [text_eq, keyword?_unique (headWords_plain (mem_headWords among)) plain first, if_neg]
  intro member
  obtain ⟨unmodifying, unkind⟩ := apart pair.1 member
  have known := keyword?_mem first
  simp only [List.mem_cons, List.not_mem_nil, or_false] at among
  rcases among with rfl | rfl
  · exact unmodifying known
  · exact unkind known

theorem openedClass?_text :
    openedClass? .java header.text = some (String.ofList header.name.chars) := by
  rw [openedClass?, header.className?_text]
  rfl

theorem supertypes?_text : supertypes? .java header.text = some header.parents.supertypes := by
  rw [supertypes?, javaClass?, header.className?_text]
  exact typeParameters?_text header.typeParameters header.parents header.hasBody

theorem declaration_parts : ∀ c ∈ header.declaration, isDeclarationPart c = true := by
  have checked : (javaClassModifiers.all fun word => word.toList.all isDeclarationPart) = true := by
    decide
  have checkedKinds :
      (javaClassKinds.all fun word => word.toList.all isDeclarationPart) = true := by
    decide
  have modifiers : ∀ c ∈ modifierText header.modifiers, isDeclarationPart c = true := by
    intro c member
    obtain ⟨modifier, among, inside⟩ := List.mem_flatMap.mp member
    have letters := List.all_eq_true.mp checked modifier (header.known modifier among)
    rcases List.mem_append.mp inside with inWord | space
    · exact List.all_eq_true.mp letters c inWord
    · obtain rfl := List.mem_singleton.mp space
      decide
  have kind := List.all_eq_true.mp (List.all_eq_true.mp checkedKinds _ header.kind_mem)
  have name : ∀ c ∈ header.name.chars, isTypeListPart c = true := fun c member =>
    isTypeListPart_of_isWord (header.name.letters c member)
  simp only [declaration, List.forall_mem_append, List.forall_mem_cons]
  exact ⟨modifiers, kind, by decide, isDeclarationPart_of_all name,
    isDeclarationPart_of_all (TypeParameter.listText_parts _),
    isDeclarationPart_of_all header.parents.parts⟩

theorem not_mem_text {sign : Char} (other : isDeclarationPart sign = false) (unlike : sign ≠ '{') :
    sign ∉ header.text := by
  intro member
  rcases List.mem_append.mp member with inside | ending
  · rw [header.declaration_parts sign inside] at other
    cases other
  · cases hasBody : header.hasBody with
    | false =>
        rw [hasBody] at ending
        cases ending
    | true =>
        rw [hasBody] at ending
        obtain rfl : sign = ' ' := by simpa [headerEnd, bodyBrace, unlike] using ending
        cases other

theorem brace_not_mem_declaration : '{' ∉ header.declaration := by
  intro member
  have part := header.declaration_parts '{' member
  cases part

theorem head?_text : ∃ c, header.text.head? = some c ∧ isBlank c = false := by
  rw [text_eq]
  exact head?_modifierText header.known header.kind_mem _

theorem getLast?_text : ∃ c, header.text.getLast? = some c ∧ isBlank c = false := by
  have name : EndsSolid header.name.chars := fun c last =>
    isBlank_eq_false_of_isWord (header.name.letters c (List.mem_of_getLast? last))
  have named := name.append ((TypeParameter.listText_ends header.typeParameters).append
    (header.parents.ends.append (headerEnd_ends header.hasBody)))
  have nonempty : header.name.chars ++ (TypeParameter.listText header.typeParameters ++
      (header.parents.text ++ headerEnd header.hasBody)) ≠ [] := by
    simp [header.name.nonempty]
  have split : header.text = modifierText header.modifiers ++ header.parents.kind.toList ++ [' '] ++
      (header.name.chars ++ (TypeParameter.listText header.typeParameters ++
        (header.parents.text ++ headerEnd header.hasBody))) := by
    simp [text_eq]
  have last := List.getLast?_eq_some_getLast nonempty
  rw [split, List.getLast?_append_of_ne_nil _ nonempty]
  exact ⟨_, last, named _ last⟩

theorem trim_text : trim header.text = header.text :=
  MaskedLine.trim_of_ends header.head?_text header.getLast?_text

end JavaHeader

end MethodFlow.Header
