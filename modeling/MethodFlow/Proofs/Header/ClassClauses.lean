import MethodFlow.Proofs.Header.ClassBodies
import MethodFlow.Proofs.Header.JavaParameters
import MethodFlow.Proofs.Header.Spacing

/-!
Clauses of Java class headers. A clause ends at the first place where the rest of the header reads
on. Within a list of types there is no such place: its blanks stand behind commas, question marks
and the words of bounds, so none of them begins another clause (`implements?_inside`).
-/
namespace MethodFlow.Header

open Text

section Runs

variable {α : Type} {part : Char → Bool} {next? : List Char → Option α} {run rest : List Char}
  {value : α}

theorem shortestRun_eq (nonempty : run ≠ []) (parts : ∀ c ∈ run, part c = true)
    (read : next? rest = some value)
    (early : ∀ left, left ≠ [] → left <:+ run → next? (left ++ rest) = none) :
    shortestRun part next? (run ++ rest) = some (run, value) := by
  induction run with
  | nil => exact absurd rfl nonempty
  | cons c run ih =>
      obtain ⟨first, others⟩ := List.forall_mem_cons.mp parts
      rw [List.cons_append, shortestRun, if_pos first]
      by_cases single : run = []
      · rw [single, List.nil_append, read]
      · have later := ih single others fun left shown suffix =>
          early left shown (suffix.trans (List.suffix_cons c run))
        rw [early run single (List.suffix_cons c run), later]
        rfl

theorem exists_trimLeft_append {text : List Char}
    (last : ∃ c, text.getLast? = some c ∧ isBlank c = false) (rest : List Char) :
    ∃ c more, c ∈ text ∧ trimLeft (text ++ rest) = c :: more := by
  obtain ⟨c, ends, solid⟩ := last
  obtain ⟨init, rfl⟩ := List.getLast?_eq_some_iff.mp ends
  rw [List.append_assoc, List.singleton_append, trimLeft_append_cons solid]
  cases first : trimLeft init with
  | nil => exact ⟨c, rest, by simp, rfl⟩
  | cons d more =>
      have inside : d :: more <:+ init := first ▸ List.dropWhile_suffix isBlank
      exact ⟨d, more ++ c :: rest, List.mem_append_left _ (inside.subset List.mem_cons_self), rfl⟩

theorem runAfterBlanks_eq (first : ∃ c, run.head? = some c ∧ isBlank c = false)
    (parts : ∀ c ∈ run, part c = true) (read : next? rest = some value)
    (early : ∀ left, left ≠ [] → left <:+ run → next? (left ++ rest) = none) :
    runAfterBlanks 1 part next? (' ' :: (run ++ rest)) = some (run, value) := by
  have trimmed := trimLeft_append_of_first first rest
  obtain ⟨c, begins, solid⟩ := first
  have nonempty : run ≠ [] := by
    rintro rfl
    cases begins
  have blanks : (' ' :: (run ++ rest)).takeWhile isBlank = [' '] := by
    obtain ⟨back, rfl⟩ := List.head?_eq_some_iff.mp begins
    rw [List.takeWhile_cons_of_pos (by decide), List.cons_append,
      List.takeWhile_cons_of_neg (by simp [solid])]
  have after : trimLeft (' ' :: (run ++ rest)) = run ++ rest := by
    rw [trimLeft, List.dropWhile_cons_of_pos (by decide)]
    exact trimmed
  simp only [runAfterBlanks, blanks, after, shortestRun_eq nonempty parts read early]
  rfl

variable {keyword : String}

theorem clause_present (word : IsSolid keyword.toList)
    (first : ∃ c, run.head? = some c ∧ isBlank c = false) (parts : ∀ c ∈ run, part c = true)
    (read : next? rest = some value)
    (early : ∀ left, left ≠ [] → left <:+ run → next? (left ++ rest) = none) :
    clause keyword part next? (' ' :: (keyword.toList ++ ' ' :: (run ++ rest))) =
      some (some run, value) := by
  have opens : blanks? (' ' :: (keyword.toList ++ ' ' :: (run ++ rest))) =
      some (keyword.toList ++ ' ' :: (run ++ rest)) := by
    rw [blanks?, if_pos (by decide), trimLeft_append_of_first word.head?]
  rw [clause, opens, Option.bind_some, after?_eq_some_iff.mpr rfl, Option.bind_some,
    runAfterBlanks_eq first parts read early]
  rfl

theorem clause_absent {text : List Char}
    (other : ∀ left, blanks? text = some left → after? keyword.toList left = none) :
    clause keyword part next? text = (next? text).map fun value => (none, value) := by
  have none : (blanks? text).bind (after? keyword.toList) = none :=
    Option.bind_eq_none_iff.mpr other
  rw [clause, none]
  rfl

end Runs

section Types

def DottedName.isPlain (name : DottedName) : Bool :=
  name.parts.all fun part => part.chars.all isWord

mutual

/-- Whether a class may be declared with this type as a parent: it is no array, and its names are
made of word characters. -/
def JavaType.isClassType : JavaType → Bool
  | .named name => name.isPlain
  | .generic name first others =>
    name.isPlain && first.isClassArgument && TypeArgument.areClassArguments others
  | .array _ => false
  | .variadic _ => false

def TypeArgument.isClassArgument : TypeArgument → Bool
  | .exact type => type.isClassType
  | .unbounded => true
  | .upper bound => bound.isClassType
  | .lower bound => bound.isClassType

def TypeArgument.areClassArguments : List TypeArgument → Bool
  | [] => true
  | argument :: others => argument.isClassArgument && TypeArgument.areClassArguments others

end

structure ClassType where
  type : JavaType
  proper : type.isClassType = true

def ClassType.text (type : ClassType) : List Char :=
  type.type.text

def typeMarks : List (List Char) :=
  [",".toList, "?".toList, " extends".toList, " super".toList]

theorem isSpaced_comma : IsSpaced (· ∈ typeMarks) ", ".toList := by
  have comma : IsSpaced (· ∈ typeMarks) [','] := .of_solid (isBlank_eq_false_of_all (by decide))
  exact comma.space List.suffix_rfl (by decide)

theorem isSpaced_wildcard (word : List Char) (solid : ∀ c ∈ word, isBlank c = false)
    (listed : ' ' :: word ∈ typeMarks) :
    IsSpaced (· ∈ typeMarks) (['?'] ++ [' '] ++ word ++ [' ']) := by
  have sign : IsSpaced (· ∈ typeMarks) ['?'] := .of_solid (isBlank_eq_false_of_all (by decide))
  have spaced := sign.space List.suffix_rfl (by decide)
  exact (spaced.append (.of_solid solid)).space ⟨['?'], by simp⟩ listed

mutual

theorem JavaType.isSpaced : ∀ type : JavaType, IsSpaced (· ∈ typeMarks) type.text
  | .named name => .of_solid name.isSolid.solid
  | .generic name first others => by
      have front : IsSpaced (· ∈ typeMarks) name.text := .of_solid name.isSolid.solid
      have opened : IsSpaced (· ∈ typeMarks) ['<'] :=
        .of_solid (isBlank_eq_false_of_all (by decide))
      have closed : IsSpaced (· ∈ typeMarks) ['>'] :=
        .of_solid (isBlank_eq_false_of_all (by decide))
      have arguments := first.isSpaced.append (TypeArgument.isSpaced_others others)
      exact front.append (opened.append (arguments.append closed))
  | .array element => element.isSpaced.append (.of_solid (isBlank_eq_false_of_all (by decide)))
  | .variadic element => element.isSpaced.append (.of_solid (isBlank_eq_false_of_all (by decide)))

theorem TypeArgument.isSpaced : ∀ argument : TypeArgument, IsSpaced (· ∈ typeMarks) argument.text
  | .exact type => type.isSpaced
  | .unbounded => .of_solid (isBlank_eq_false_of_all (by decide))
  | .upper bound =>
      (isSpaced_wildcard "extends".toList (isBlank_eq_false_of_all (by decide))
        (by decide)).append bound.isSpaced
  | .lower bound =>
      (isSpaced_wildcard "super".toList (isBlank_eq_false_of_all (by decide))
        (by decide)).append bound.isSpaced

theorem TypeArgument.isSpaced_others : ∀ others : List TypeArgument,
    IsSpaced (· ∈ typeMarks) (TypeArgument.othersText others)
  | [] => .of_solid (by simp [TypeArgument.othersText])
  | argument :: others =>
      (isSpaced_comma.append argument.isSpaced).append (TypeArgument.isSpaced_others others)

end

theorem isTypeListPart_of_isWord {c : Char} (letter : isWord c = true) :
    isTypeListPart c = true := by
  simp [isTypeListPart, letter]

theorem isTypeListPart_of_all {text : List Char} (checked : text.all isTypeListPart = true) :
    ∀ c ∈ text, isTypeListPart c = true :=
  List.all_eq_true.mp checked

theorem DottedName.isTypeListPart {name : DottedName} (plain : name.isPlain = true) :
    ∀ c ∈ name.text, isTypeListPart c = true := by
  have letters : ∀ part ∈ name.parts, ∀ c ∈ part.chars, Header.isTypeListPart c = true := by
    intro part member c inside
    have word := List.all_eq_true.mp (List.all_eq_true.mp plain part member) c inside
    exact isTypeListPart_of_isWord word
  intro c member
  rcases List.mem_append.mp member with first | later
  · exact letters name.first List.mem_cons_self c first
  · obtain ⟨part, among, inside⟩ := List.mem_flatMap.mp later
    rcases List.mem_cons.mp inside with rfl | further
    · decide
    · exact letters part (List.mem_cons_of_mem _ among) c further

mutual

theorem JavaType.isTypeListPart : ∀ type : JavaType, type.isClassType = true →
    ∀ c ∈ type.text, isTypeListPart c = true
  | .named name, proper => DottedName.isTypeListPart proper
  | .generic name first others, proper => by
      rw [JavaType.isClassType, Bool.and_eq_true, Bool.and_eq_true] at proper
      have named := DottedName.isTypeListPart proper.1.1
      have leading := first.isTypeListPart proper.1.2
      have following := TypeArgument.isTypeListPart_others others proper.2
      intro c member
      simp only [JavaType.text, List.mem_append, List.mem_cons, List.not_mem_nil, or_false]
        at member
      rcases member with inName | rfl | (inFirst | inOthers) | rfl
      · exact named c inName
      · decide
      · exact leading c inFirst
      · exact following c inOthers
      · decide
  | .array _, proper => by cases proper
  | .variadic _, proper => by cases proper

theorem TypeArgument.isTypeListPart : ∀ argument : TypeArgument, argument.isClassArgument = true →
    ∀ c ∈ argument.text, isTypeListPart c = true
  | .exact type, proper => type.isTypeListPart proper
  | .unbounded, _ => isTypeListPart_of_all (by decide)
  | .upper bound, proper =>
      List.forall_mem_append.mpr ⟨isTypeListPart_of_all (by decide), bound.isTypeListPart proper⟩
  | .lower bound, proper =>
      List.forall_mem_append.mpr ⟨isTypeListPart_of_all (by decide), bound.isTypeListPart proper⟩

theorem TypeArgument.isTypeListPart_others : ∀ others : List TypeArgument,
    TypeArgument.areClassArguments others = true →
      ∀ c ∈ TypeArgument.othersText others, isTypeListPart c = true
  | [], _ => by simp [TypeArgument.othersText]
  | argument :: others, proper => by
      rw [TypeArgument.areClassArguments, Bool.and_eq_true] at proper
      have leading := argument.isTypeListPart proper.1
      have following := TypeArgument.isTypeListPart_others others proper.2
      rw [TypeArgument.othersText, List.forall_mem_append, List.forall_mem_append]
      exact ⟨⟨isTypeListPart_of_all (by decide), leading⟩, following⟩

end

/-- A list of types as it stands in a clause. -/
structure IsTypeList (text : List Char) : Prop where
  parts : ∀ c ∈ text, isTypeListPart c = true
  spaced : IsSpaced (· ∈ typeMarks) text
  first : ∃ c, text.head? = some c ∧ isBlank c = false
  last : ∃ c, text.getLast? = some c ∧ isBlank c = false

theorem IsTypeList.comma {left right : List Char} (before : IsTypeList left)
    (after : IsTypeList right) : IsTypeList (left ++ ',' :: ' ' :: right) where
  parts := by
    rw [List.forall_mem_append, List.forall_mem_cons, List.forall_mem_cons]
    exact ⟨before.parts, by decide, by decide, after.parts⟩
  spaced := before.spaced.append (isSpaced_comma.append after.spaced)
  first := by
    obtain ⟨c, first, solid⟩ := before.first
    exact ⟨c, by simp [first], solid⟩
  last := by
    obtain ⟨c, last, solid⟩ := after.last
    refine ⟨c, ?_, solid⟩
    rw [List.getLast?_append, List.getLast?_cons_cons, List.getLast?_cons, last]
    rfl

namespace ClassType

variable (type : ClassType)

theorem solid_or_ends :
    (∀ c ∈ type.text, isBlank c = false) ∨ type.text.getLast? = some '>' := by
  obtain ⟨type, proper⟩ := type
  cases type with
  | named name => exact .inl name.isSolid.solid
  | generic name first others =>
      right
      rw [text, JavaType.text, ← List.cons_append, ← List.append_assoc, List.getLast?_concat]
  | array element => cases proper
  | variadic element => cases proper

theorem head?_text : ∃ c, type.text.head? = some c ∧ isBlank c = false := by
  obtain ⟨type, proper⟩ := type
  cases type with
  | named name => exact name.isSolid.head?
  | generic name first others =>
      obtain ⟨c, begins, solid⟩ := name.isSolid.head?
      exact ⟨c, by simp [text, JavaType.text, begins], solid⟩
  | array element => cases proper
  | variadic element => cases proper

theorem getLast?_text : ∃ c, type.text.getLast? = some c ∧ isBlank c = false := by
  rcases type.solid_or_ends with solid | closed
  · obtain ⟨c, first, -⟩ := type.head?_text
    have nonempty : type.text ≠ [] := fun none => by simp [none] at first
    exact IsSolid.getLast? ⟨nonempty, solid⟩
  · exact ⟨'>', closed, by decide⟩

theorem isTypeList : IsTypeList type.text :=
  ⟨type.type.isTypeListPart type.proper, type.type.isSpaced, type.head?_text, type.getLast?_text⟩

theorem trim_text : trim type.text = type.text :=
  MaskedLine.trim_of_ends type.head?_text type.getLast?_text

theorem not_ends_word {word : List Char} (letters : ∀ c ∈ word, isWord c = true)
    (nonempty : word ≠ []) (before : List Char) : type.text ≠ before ++ ' ' :: word := by
  intro same
  rcases type.solid_or_ends with solid | closed
  · have space := solid ' ' (by simp [same])
    cases space
  · rw [same, List.getLast?_append_of_ne_nil _ (List.cons_ne_nil _ _),
      List.getLast?_cons_of_ne_nil nonempty] at closed
    have letter := letters '>' (List.mem_of_getLast? closed)
    cases letter

def listText (types : List ClassType) : List Char :=
  commaList (types.map ClassType.text)

theorem isTypeList_listText {types : List ClassType} (nonempty : types ≠ []) :
    IsTypeList (listText types) :=
  commaList_of_items IsTypeList.comma (by simpa using nonempty)
    (List.forall_mem_map.mpr fun type _ => type.isTypeList)

theorem splitCommas_listText (types : List ClassType) :
    splitCommas (listText types) = types.map text := by
  rw [listText, splitCommas_commaList, List.map_map]
  · exact List.map_congr_left fun type _ => type.trim_text
  · exact List.forall_mem_map.mpr fun type _ => type.type.isEnclosed
  · refine List.forall_mem_map.mpr fun type _ none => ?_
    obtain ⟨c, first, -⟩ := type.head?_text
    rw [← type.trim_text, none] at first
    cases first

end ClassType

end Types

section Clauses

def headerEnd (hasBody : Bool) : List Char :=
  if hasBody then bodyBrace else []

def laterClauses : List String :=
  ["implements", "permits"]

theorem laterClauses_letters {keyword : String} (known : keyword ∈ laterClauses) :
    keyword.toList ≠ [] ∧ ∀ c ∈ keyword.toList, isWord c = true := by
  have checked : (laterClauses.all fun word => !word.toList.isEmpty &&
      word.toList.all isWord) = true := by
    decide
  have letters := List.all_eq_true.mp checked keyword known
  rw [Bool.and_eq_true] at letters
  exact ⟨by simpa using letters.1, List.all_eq_true.mp letters.2⟩

theorem laterClauses_solid {keyword : String} (known : keyword ∈ laterClauses) :
    IsSolid keyword.toList :=
  ⟨(laterClauses_letters known).1, fun c member =>
    isBlank_eq_false_of_isWord ((laterClauses_letters known).2 c member)⟩

/-- A list of types that ends in the word of a clause is mistaken for the clause if more types
follow, but it may stand at the end of the header. -/
structure MayFollow (text rest : List Char) : Prop where
  blank : ∀ c, rest.head? = some c → isBlank c = true
  apart : (∃ hasBody, rest = headerEnd hasBody) ∨
    ∀ keyword ∈ laterClauses, ∀ before, text ≠ before ++ ' ' :: keyword.toList

theorem runAfterBlanks_headerEnd {α : Type} {part : Char → Bool} {next? : List Char → Option α}
    (unlike : part '{' = false) (hasBody : Bool) :
    runAfterBlanks 1 part next? (headerEnd hasBody) = none := by
  cases hasBody with
  | false => rfl
  | true =>
      change (shortestRun part next? ['{'] <|> none) = none
      rw [shortestRun, unlike]
      rfl

theorem permits?_headerEnd (hasBody : Bool) : permits? (headerEnd hasBody) = some () := by
  cases hasBody <;> rfl

theorem implements?_headerEnd (hasBody : Bool) : implements? (headerEnd hasBody) = some none := by
  cases hasBody <;> rfl

theorem not_mark_before {keyword : String} (known : keyword ∈ laterClauses) {mark : List Char}
    (listed : mark ∈ typeMarks) (before : List Char) :
    ¬mark <:+ before ++ ' ' :: keyword.toList := by
  have checked : (laterClauses.all fun keyword => typeMarks.all fun mark =>
      decide (mark.length ≤ (' ' :: keyword.toList).length) &&
        !mark.isSuffixOf (' ' :: keyword.toList)) = true := by
    decide
  have family := List.all_eq_true.mp checked keyword known
  have unlike := List.all_eq_true.mp family mark listed
  rw [Bool.and_eq_true, decide_eq_true_eq, Bool.not_eq_true'] at unlike
  intro closes
  have near := List.suffix_of_suffix_length_le closes (List.suffix_append _ _) unlike.1
  rw [List.isSuffixOf_iff_suffix.mpr near] at unlike
  cases unlike.2

theorem classBody?_of_sign {text more : List Char} {c : Char} (trimmed : trimLeft text = c :: more)
    (unlike : c ≠ '{') : classBody? text = none := by
  rw [classBody?, trimmed]
  split
  · rename_i none
    cases none
  · rename_i body opens
    exact absurd (List.cons.inj opens).1 unlike
  · rfl

variable {text rest left : List Char} (list : IsTypeList text) (nonempty : left ≠ [])
  (suffix : left <:+ text)

include list nonempty suffix

theorem classBody?_inside : classBody? (left ++ rest) = none := by
  obtain ⟨front, rfl⟩ := suffix
  have last := list.last
  rw [List.getLast?_append_of_ne_nil _ nonempty] at last
  obtain ⟨c, more, member, trimmed⟩ := exists_trimLeft_append last rest
  refine classBody?_of_sign trimmed ?_
  rintro rfl
  have part := list.parts '{' (List.mem_append_right front member)
  cases part

variable (follows : MayFollow text rest)

include follows

/-- No clause begins within a list of types, as long as what comes next does not read there. -/
theorem clause_inside {keyword : String} (known : keyword ∈ laterClauses) {α : Type}
    {part : Char → Bool} (unlike : part '{' = false) {next? : List Char → Option α}
    (unread : next? (left ++ rest) = none) : clause keyword part next? (left ++ rest) = none := by
  have word := laterClauses_solid known
  obtain ⟨front, rfl⟩ := suffix
  have last := list.last
  rw [List.getLast?_append_of_ne_nil _ nonempty] at last
  have none : ((blanks? (left ++ rest)).bind (after? keyword.toList)).bind
      (runAfterBlanks 1 part next?) = none := by
    rw [Option.bind_eq_none_iff]
    intro after found
    obtain ⟨more, opens, found⟩ := Option.bind_eq_some_iff.mp found
    -- A keyword within the list has no blank behind it, so only one at its end could be read.
    rcases list.spaced.keyword_inside last follows.blank word
      (fun mark listed => not_mark_before known listed) opens found with
      ⟨c, begins, solid⟩ | ⟨rfl, before, same⟩
    · obtain ⟨back, rfl⟩ := List.head?_eq_some_iff.mp begins
      simp [runAfterBlanks, solid]
    · rcases follows.apart with ⟨hasBody, rfl⟩ | apart
      · exact runAfterBlanks_headerEnd unlike hasBody
      · exact absurd same (apart keyword known before)
  rw [clause, none, unread]
  rfl

theorem permits?_inside : permits? (left ++ rest) = none := by
  have body : classBody? (left ++ rest) = none := classBody?_inside list nonempty suffix
  rw [permits?, clause_inside list nonempty suffix follows (by decide) (by decide) body]
  rfl

theorem implements?_inside : implements? (left ++ rest) = none := by
  have permits := permits?_inside list nonempty suffix follows
  rw [implements?, clause_inside list nonempty suffix follows (by decide) (by decide) permits]
  rfl

end Clauses

end MethodFlow.Header
