import MethodFlow.Proofs.Header.DottedNames
import Mathlib.Data.List.Basic

/-!
Parameter lists of Java, written out and read back. A type is made of words with single spaces
between them, none of which is taken for a modifier, and its commas stand in brackets. So a list is
cut between the parameters only, and each type is put together again from its words
(`java_parameters_listText`).
-/
namespace MethodFlow.Header

open Text

section Grammar

/-- A dotted name that is not the modifier `final`. -/
structure JavaName extends DottedName where
  unreserved : toDottedName.text ≠ "final".toList

mutual

inductive JavaType where
  | named (name : JavaName)
  | generic (name : JavaName) (first : TypeArgument) (others : List TypeArgument)
  | array (element : JavaType)
  | variadic (element : JavaType)

inductive TypeArgument where
  | exact (type : JavaType)
  | unbounded
  | upper (bound : JavaType)
  | lower (bound : JavaType)

end

mutual

def JavaType.text : JavaType → List Char
  | .named name => name.text
  | .generic name first others =>
    name.text ++ '<' :: (first.text ++ TypeArgument.othersText others ++ ['>'])
  | .array element => element.text ++ "[]".toList
  | .variadic element => element.text ++ "...".toList

def TypeArgument.text : TypeArgument → List Char
  | .exact type => type.text
  | .unbounded => ['?']
  | .upper bound => "? extends ".toList ++ bound.text
  | .lower bound => "? super ".toList ++ bound.text

def TypeArgument.othersText : List TypeArgument → List Char
  | [] => []
  | argument :: others => ", ".toList ++ argument.text ++ TypeArgument.othersText others

end

inductive JavaModifier where
  | final
  | annotation (name : DottedName)

def JavaModifier.text : JavaModifier → List Char
  | final => "final".toList
  | annotation name => '@' :: name.text

structure Blanks where
  chars : List Char
  blank : ∀ c ∈ chars, isBlank c = true

structure Gap extends Blanks where
  nonempty : chars ≠ []

structure JavaParameter where
  before : Blanks
  modifiers : List (JavaModifier × Gap)
  type : JavaType
  gap : Gap
  name : Identifier
  unreserved : name.chars ≠ "final".toList
  after : Blanks

namespace JavaParameter

def text (parameter : JavaParameter) : List Char :=
  parameter.before.chars ++
    parameter.modifiers.flatMap (fun (modifier, gap) => modifier.text ++ gap.chars) ++
    parameter.type.text ++ parameter.gap.chars ++ parameter.name.chars ++ parameter.after.chars

def listText : List JavaParameter → List Char
  | [] => []
  | [parameter] => parameter.text
  | parameter :: next :: list => parameter.text ++ ',' :: listText (next :: list)

def toParameter (parameter : JavaParameter) : Parameter :=
  ⟨String.ofList parameter.name.chars, String.ofList parameter.type.text⟩

end JavaParameter

end Grammar

section Words

/-- A word that is taken neither for an annotation nor for `final`. -/
structure IsTypeWord (word : List Char) : Prop extends IsSolid word where
  unmarked : isAnnotationWord word = false
  unreserved : word ≠ "final".toList

inductive IsTypeText : List Char → Prop
  | word {word : List Char} (typed : IsTypeWord word) : IsTypeText word
  | spaced {word text : List Char} (typed : IsTypeWord word) (later : IsTypeText text) :
    IsTypeText (word ++ ' ' :: text)

theorem IsTypeWord.append {word more : List Char} (typed : IsTypeWord word)
    (solid : ∀ c ∈ more, isBlank c = false) (sign : ∃ c ∈ more, c ∉ "final".toList) :
    IsTypeWord (word ++ more) where
  nonempty := by simp [typed.nonempty]
  solid c member := by
    rcases List.mem_append.mp member with inside | added
    · exact typed.solid c inside
    · exact solid c added
  unmarked := by
    have unmarked := typed.unmarked
    rw [isAnnotationWord] at unmarked ⊢
    rwa [List.head?_append_of_ne_nil _ typed.nonempty]
  unreserved same := by
    obtain ⟨c, added, other⟩ := sign
    exact other (same ▸ List.mem_append_right word added)

namespace IsTypeText

variable {text left right : List Char}

theorem isTypeWord_of_mem (written : IsTypeText text) :
    ∀ word ∈ words text, IsTypeWord word := by
  induction written with
  | word typed =>
      rw [typed.words_eq]
      simpa using typed
  | spaced typed _ ih =>
      rw [words_append_cons (by decide), typed.words_eq]
      simpa [typed] using ih

theorem words_ne_nil (written : IsTypeText text) : words text ≠ [] := by
  cases written with
  | word typed => simp [typed.words_eq]
  | spaced typed later => simp [words_append_cons (c := ' ') (by decide), typed.words_eq]

theorem collapse_eq (written : IsTypeText text) : collapse text = text := by
  induction written with
  | word typed => rw [collapse, typed.words_eq, unwords_singleton]
  | @spaced word text typed later ih =>
      have first : words word ≠ [] := (IsTypeText.word typed).words_ne_nil
      have alone : collapse word = word := by rw [collapse, typed.words_eq, unwords_singleton]
      rw [collapse_append_cons (by decide) first later.words_ne_nil, ih, alone]

theorem append (written : IsTypeText text) {more : List Char}
    (solid : ∀ c ∈ more, isBlank c = false) (sign : ∃ c ∈ more, c ∉ "final".toList) :
    IsTypeText (text ++ more) := by
  induction written with
  | word typed => exact .word (typed.append solid sign)
  | spaced typed _ ih =>
      rw [List.append_assoc, List.cons_append]
      exact .spaced typed ih

theorem space (first : IsTypeText left) (second : IsTypeText right) :
    IsTypeText (left ++ ' ' :: right) := by
  induction first with
  | word typed => exact .spaced typed second
  | spaced typed _ ih =>
      rw [List.append_assoc, List.cons_append]
      exact .spaced typed ih

/-- A sign joins the last word before it with the first word after it. -/
theorem join (first : IsTypeText left) {sign : Char} (solid : isBlank sign = false)
    (other : sign ∉ "final".toList) (second : IsTypeText right) :
    IsTypeText (left ++ sign :: right) := by
  have joined {word next : List Char} (typed : IsTypeWord word) (following : IsTypeWord next) :
      IsTypeWord (word ++ sign :: next) := by
    apply typed.append
    · exact List.forall_mem_cons.mpr ⟨solid, following.solid⟩
    · exact ⟨sign, List.mem_cons_self, other⟩
  induction first with
  | word typed =>
      cases second with
      | word following => exact .word (joined typed following)
      | spaced following later =>
          rw [← List.cons_append, ← List.append_assoc]
          exact .spaced (joined typed following) later
  | spaced typed _ ih =>
      rw [List.append_assoc, List.cons_append]
      exact .spaced typed ih

end IsTypeText

theorem JavaName.isTypeText (name : JavaName) : IsTypeText name.text :=
  .word { name.isSolid with
    unmarked := isAnnotationWord_of_dotted name.dotted
    unreserved := name.unreserved }

theorem isTypeText_wildcard : IsTypeText ['?'] :=
  .word ⟨⟨by decide, isBlank_eq_false_of_all (by decide)⟩, by decide, by decide⟩

theorem isTypeWord_extends : IsTypeWord "extends".toList :=
  ⟨⟨by decide, isBlank_eq_false_of_all (by decide)⟩, by decide, by decide⟩

theorem isTypeWord_super : IsTypeWord "super".toList :=
  ⟨⟨by decide, isBlank_eq_false_of_all (by decide)⟩, by decide, by decide⟩

mutual

theorem JavaType.isTypeText : ∀ type : JavaType, IsTypeText type.text
  | .named name => name.isTypeText
  | .generic name first others => by
      have arguments := TypeArgument.isTypeText_others others first.isTypeText
      have opened : IsTypeText (name.text ++ '<' :: (first.text ++ _)) :=
        name.isTypeText.join (by decide) (by decide) arguments
      have closed : IsTypeText (_ ++ ['>']) :=
        opened.append (isBlank_eq_false_of_all (by decide)) ⟨'>', by decide, by decide⟩
      rw [List.append_assoc, List.cons_append] at closed
      exact closed
  | .array element =>
      element.isTypeText.append (isBlank_eq_false_of_all (by decide)) ⟨'[', by decide, by decide⟩
  | .variadic element =>
      element.isTypeText.append (isBlank_eq_false_of_all (by decide)) ⟨'.', by decide, by decide⟩

theorem TypeArgument.isTypeText : ∀ argument : TypeArgument, IsTypeText argument.text
  | .exact type => type.isTypeText
  | .unbounded => isTypeText_wildcard
  | .upper bound => isTypeText_wildcard.space (.spaced isTypeWord_extends bound.isTypeText)
  | .lower bound => isTypeText_wildcard.space (.spaced isTypeWord_super bound.isTypeText)

theorem TypeArgument.isTypeText_others : ∀ (others : List TypeArgument) {front : List Char},
    IsTypeText front → IsTypeText (front ++ TypeArgument.othersText others)
  | [], front, written => by
      rw [TypeArgument.othersText, List.append_nil]
      exact written
  | argument :: others, front, written => by
      have comma : IsTypeText (front ++ [',']) :=
        written.append (isBlank_eq_false_of_all (by decide)) ⟨',', by decide, by decide⟩
      have longer := TypeArgument.isTypeText_others others (comma.space argument.isTypeText)
      rw [List.append_assoc, List.append_assoc] at longer
      exact longer

end

end Words

section Brackets

mutual

theorem JavaType.isEnclosed : ∀ type : JavaType, IsEnclosed 0 type.text
  | .named name => name.toDottedName.isEnclosed 0
  | .generic name first others => by
      have arguments := (first.isEnclosed.raise (Nat.zero_le 1)).append
        (TypeArgument.isEnclosed_others others)
      exact (name.toDottedName.isEnclosed 0).append arguments.enclose
  | .array element => element.isEnclosed.append fun _ _ => ⟨rfl, rfl⟩
  | .variadic element => element.isEnclosed.append fun _ _ => ⟨rfl, rfl⟩

theorem TypeArgument.isEnclosed : ∀ argument : TypeArgument, IsEnclosed 0 argument.text
  | .exact type => type.isEnclosed
  | .unbounded => fun _ _ => ⟨rfl, rfl⟩
  | .upper bound => by
      have front : IsEnclosed 0 "? extends ".toList := fun _ _ => ⟨rfl, rfl⟩
      exact front.append bound.isEnclosed
  | .lower bound => by
      have front : IsEnclosed 0 "? super ".toList := fun _ _ => ⟨rfl, rfl⟩
      exact front.append bound.isEnclosed

theorem TypeArgument.isEnclosed_others : ∀ others : List TypeArgument,
    IsEnclosed 1 (TypeArgument.othersText others)
  | [] => isEnclosed_nil 1
  | argument :: others => by
      have comma : IsEnclosed 1 ", ".toList := isEnclosed_comma.append fun _ _ => ⟨rfl, rfl⟩
      have front := comma.append (argument.isEnclosed.raise (Nat.zero_le 1))
      exact front.append (TypeArgument.isEnclosed_others others)

end

theorem Blanks.isEnclosed (blanks : Blanks) : IsEnclosed 0 blanks.chars := by
  apply isEnclosed_plain
  · intro c member
    exact isBracket_of_isBlank (blanks.blank c member)
  · intro member
    exact Bool.noConfusion (blanks.blank ',' member)

theorem JavaModifier.isEnclosed : ∀ modifier : JavaModifier, IsEnclosed 0 modifier.text
  | final => fun _ _ => ⟨rfl, rfl⟩
  | annotation name => by
      have sign : IsEnclosed 0 ['@'] := fun _ _ => ⟨rfl, rfl⟩
      exact sign.append (name.isEnclosed 0)

theorem Identifier.isEnclosed (name : Identifier) : IsEnclosed 0 name.chars := by
  apply isEnclosed_plain
  · intro c member
    exact isBracket_of_dotted (name.dotted c member)
  · intro member
    exact ne_of_dotted (name.dotted ',' member) (by decide) (by decide) rfl

theorem JavaParameter.isEnclosed (parameter : JavaParameter) : IsEnclosed 0 parameter.text := by
  have modifiers : IsEnclosed 0 (parameter.modifiers.flatMap
      fun (modifier, gap) => modifier.text ++ gap.chars) := by
    induction parameter.modifiers with
    | nil => exact isEnclosed_nil 0
    | cons entry entries ih =>
        rw [List.flatMap_cons]
        exact (entry.1.isEnclosed.append entry.2.isEnclosed).append ih
  have type := (parameter.before.isEnclosed.append modifiers).append parameter.type.isEnclosed
  have name := (type.append parameter.gap.isEnclosed).append parameter.name.isEnclosed
  exact name.append parameter.after.isEnclosed

end Brackets

section Reading

theorem JavaModifier.isSolid : ∀ modifier : JavaModifier, IsSolid modifier.text
  | final => ⟨by decide, isBlank_eq_false_of_all (by decide)⟩
  | annotation name =>
      ⟨List.cons_ne_nil _ _, List.forall_mem_cons.mpr ⟨by decide, name.isSolid.solid⟩⟩

def isKept (word : List Char) : Bool :=
  !isAnnotationWord word && word != "final".toList

theorem parameterOfWords?_of_kept {list type : List (List Char)} {name : List Char}
    (kept : list.filter isKept = type ++ [name]) (typed : type ≠ []) :
    parameterOfWords? list = some ⟨String.ofList name, String.ofList (unwords type)⟩ := by
  obtain ⟨first, others, rfl⟩ := List.exists_cons_of_ne_nil typed
  unfold isKept at kept
  rw [parameterOfWords?, kept, List.getLast?_concat, List.dropLast_concat]

theorem parameterOfWords?_eq_none {list : List (List Char)}
    (short : (list.filter isKept).length < 2) : parameterOfWords? list = none := by
  unfold isKept at short
  rw [parameterOfWords?]
  generalize list.filter _ = kept at short ⊢
  rcases kept with _ | ⟨word, _ | ⟨next, rest⟩⟩
  · rfl
  · rfl
  · simp only [List.length_cons] at short
    omega

theorem exists_type_name {list : List (List Char)} (long : 2 ≤ (list.filter isKept).length) :
    ∃ type name, list.filter isKept = type ++ [name] ∧ type ≠ [] := by
  rcases List.eq_nil_or_concat (list.filter isKept) with none | ⟨type, name, split⟩
  · simp [none] at long
  · rw [List.concat_eq_append] at split
    refine ⟨type, name, split, ?_⟩
    rintro rfl
    simp [split] at long

theorem java_parameters_single {text : List Char} (hidden : hides (· == ',') 0 text = true) :
    parameters .java text = (parameterOfWords? (words text)).toList := by
  by_cases visible : trim text = []
  · have none : words text = [] := by
      rw [← words_trim, visible]
      rfl
    rw [parameters, splitCommas, splitTopLevel, topLevelPieces_single hidden, none]
    simp [visible, parameterOfWords?]
  · rw [parameters, splitCommas, splitTopLevel_single hidden visible]
    cases read : parameterOfWords? (words text) with
    | none => simp [words_trim, read]
    | some parameter => simp [words_trim, read]

theorem JavaModifier.isKept_text (modifier : JavaModifier) : isKept modifier.text = false := by
  cases modifier with
  | final => rfl
  | annotation name => rfl

theorem IsTypeWord.isKept {word : List Char} (typed : IsTypeWord word) : isKept word = true := by
  rw [Header.isKept, typed.unmarked]
  exact bne_iff_ne.mpr typed.unreserved

theorem words_modifiers (modifiers : List (JavaModifier × Gap)) (text : List Char) :
    words (modifiers.flatMap (fun (modifier, gap) => modifier.text ++ gap.chars) ++ text) =
      modifiers.map (fun entry => entry.1.text) ++ words text := by
  induction modifiers with
  | nil => rfl
  | cons entry entries ih =>
      obtain ⟨modifier, gap⟩ := entry
      rw [List.flatMap_cons, List.append_assoc, words_append_blanks gap.nonempty gap.blank,
        modifier.isSolid.words_eq, ih]
      rfl

namespace JavaParameter

variable (parameter : JavaParameter)

theorem words_text : words parameter.text =
    parameter.modifiers.map (fun entry => entry.1.text) ++
      (words parameter.type.text ++ [parameter.name.chars]) := by
  have ending : words (parameter.name.chars ++ parameter.after.chars) = [parameter.name.chars] := by
    rw [← words_trim, trim_append_blanks _ parameter.after.blank, words_trim,
      parameter.name.isSolid.words_eq]
  have typed := words_append_blanks parameter.gap.nonempty parameter.gap.blank
    parameter.type.text (parameter.name.chars ++ parameter.after.chars)
  rw [text]
  simp only [List.append_assoc] at typed ⊢
  rw [words_blanks_append parameter.before.blank, words_modifiers, typed, ending]

theorem isTypeWord_name : IsTypeWord parameter.name.chars :=
  { parameter.name.isSolid with
    unmarked := isAnnotationWord_of_dotted parameter.name.dotted
    unreserved := parameter.unreserved }

theorem filter_words : (words parameter.text).filter isKept =
    words parameter.type.text ++ [parameter.name.chars] := by
  have dropped : (parameter.modifiers.map fun entry => entry.1.text).filter isKept = [] := by
    rw [List.filter_eq_nil_iff, List.forall_mem_map]
    simp [JavaModifier.isKept_text]
  have typed : (words parameter.type.text).filter isKept = words parameter.type.text :=
    List.filter_eq_self.mpr fun word member =>
      (parameter.type.isTypeText.isTypeWord_of_mem word member).isKept
  rw [words_text, List.filter_append, List.filter_append, dropped, typed,
    List.filter_cons_of_pos parameter.isTypeWord_name.isKept]
  rfl

theorem parameterOfWords?_words :
    parameterOfWords? (words parameter.text) = some parameter.toParameter := by
  have whole : unwords (words parameter.type.text) = parameter.type.text :=
    parameter.type.isTypeText.collapse_eq
  rw [parameterOfWords?_of_kept parameter.filter_words parameter.type.isTypeText.words_ne_nil,
    whole]
  rfl

theorem parameters_text : parameters .java parameter.text = [parameter.toParameter] := by
  obtain ⟨-, hidden⟩ := parameter.isEnclosed 0 (Nat.le_refl 0)
  rw [java_parameters_single hidden, parameterOfWords?_words]
  rfl

end JavaParameter

end Reading

theorem java_parameters_listText (list : List JavaParameter) :
    parameters .java (JavaParameter.listText list) = list.map JavaParameter.toParameter := by
  induction list using JavaParameter.listText.induct with
  | case1 => rfl
  | case2 parameter => exact parameter.parameters_text
  | case3 parameter next list ih =>
      obtain ⟨closed, hidden⟩ := parameter.isEnclosed 0 (Nat.le_refl 0)
      rw [JavaParameter.listText, parameters_append .java hidden closed, parameter.parameters_text,
        ih]
      rfl

end MethodFlow.Header
