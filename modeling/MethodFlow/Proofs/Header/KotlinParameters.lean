import MethodFlow.Proofs.Header.DottedNames

/-!
Parameter lists of Kotlin, written out and read back. The `>` of an arrow counts as a closing
bracket, so a type moves the bracket depth down by the number of its arrows, and a comma in it may
come to stand outside of all brackets. A list reads back if and only if no comma does
(`kotlin_parameters_iff`).
-/
namespace MethodFlow.Header

open Text

inductive KotlinType where
  | named (name : DottedName)
  | generic (name : DottedName) (arguments : List KotlinType)
  | function (parameters : List KotlinType) (result : KotlinType)
  | nullable (type : KotlinType)

namespace KotlinType

mutual

def text : KotlinType → List Char
  | named name => name.text
  | generic name arguments => name.text ++ '<' :: (listText arguments ++ ['>'])
  | function parameters result =>
    '(' :: (listText parameters ++ ')' :: ' ' :: '-' :: '>' :: ' ' :: result.text)
  | nullable type => type.text ++ ['?']

def listText : List KotlinType → List Char
  | [] => []
  | [type] => type.text
  | type :: next :: types => type.text ++ ',' :: ' ' :: listText (next :: types)

end

mutual

def arrows : KotlinType → Nat
  | named _ => 0
  | generic _ arguments => arrowsIn arguments
  | function parameters result => arrowsIn parameters + 1 + result.arrows
  | nullable type => type.arrows

def arrowsIn : List KotlinType → Nat
  | [] => 0
  | type :: types => type.arrows + arrowsIn types

end

mutual

/-- Whether the commas of a type that begins at this depth stay in brackets, if each arrow closes
one. -/
def coversCommas (depth : Nat) : KotlinType → Bool
  | named _ => true
  | generic _ arguments => coversCommasIn (depth + 1) arguments
  | function parameters result =>
    coversCommasIn (depth + 1) parameters &&
      result.coversCommas (depth - arrowsIn parameters - 1)
  | nullable type => type.coversCommas depth

def coversCommasIn (depth : Nat) : List KotlinType → Bool
  | [] => true
  | [type] => type.coversCommas depth
  | type :: next :: types =>
    type.coversCommas depth && type.arrows < depth &&
      coversCommasIn (depth - type.arrows) (next :: types)

end

section Brackets

mutual

theorem depthThrough_text : ∀ (type : KotlinType) (depth : Nat),
    depthThrough depth type.text = depth - type.arrows
  | named name, depth => name.depthThrough_text depth
  | generic name arguments, depth => by
      have inside := depthThrough_listText arguments (depth + 1)
      rw [text, depthThrough_append, name.depthThrough_text]
      change depthThrough (depth + 1) (listText arguments ++ ['>']) = depth - arrowsIn arguments
      rw [depthThrough_append, inside]
      change depth + 1 - arrowsIn arguments - 1 = depth - arrowsIn arguments
      omega
  | function parameters result, depth => by
      have inside := depthThrough_listText parameters (depth + 1)
      have after := depthThrough_text result (depth + 1 - arrowsIn parameters - 1 - 1)
      rw [text]
      change depthThrough (depth + 1) (listText parameters ++ _) = _
      rw [depthThrough_append, inside]
      change depthThrough (depth + 1 - arrowsIn parameters - 1 - 1) result.text = _
      rw [after, arrows]
      omega
  | nullable type, depth => by
      rw [text, depthThrough_append, depthThrough_text type depth]
      rfl

theorem depthThrough_listText : ∀ (types : List KotlinType) (depth : Nat),
    depthThrough depth (listText types) = depth - arrowsIn types
  | [], depth => rfl
  | [type], depth => depthThrough_text type depth
  | type :: next :: types, depth => by
      have later := depthThrough_listText (next :: types) (depth - type.arrows)
      rw [listText, depthThrough_append, depthThrough_text type depth]
      change depthThrough (depth - type.arrows) (listText (next :: types)) = _
      rw [later, Nat.sub_sub]
      rfl

end

mutual

theorem hides_text : ∀ (type : KotlinType) (depth : Nat),
    hides (· == ',') depth type.text = type.coversCommas depth
  | named name, depth => name.hides_text depth
  | generic name arguments, depth => by
      have inside := hides_listText arguments (depth + 1)
      rw [text, hides_append, name.hides_text, name.depthThrough_text]
      change hides (· == ',') (depth + 1) (listText arguments ++ ['>']) = _
      rw [hides_append, inside]
      exact Bool.and_true (coversCommasIn (depth + 1) arguments)
  | function parameters result, depth => by
      have inside := hides_listText parameters (depth + 1)
      have after := hides_text result (depth - arrowsIn parameters - 1)
      have level : depth + 1 - arrowsIn parameters - 1 - 1 = depth - arrowsIn parameters - 1 := by
        omega
      rw [text]
      change hides (· == ',') (depth + 1) (listText parameters ++ _) = _
      rw [hides_append, inside, depthThrough_listText]
      change (coversCommasIn (depth + 1) parameters &&
        hides (· == ',') (depth + 1 - arrowsIn parameters - 1 - 1) result.text) = _
      rw [level, after]
      rfl
  | nullable type, depth => by
      rw [text, hides_append, hides_text type depth]
      exact Bool.and_true (type.coversCommas depth)

theorem hides_listText : ∀ (types : List KotlinType) (depth : Nat),
    hides (· == ',') depth (listText types) = coversCommasIn depth types
  | [], depth => rfl
  | [type], depth => hides_text type depth
  | type :: next :: types, depth => by
      have later := hides_listText (next :: types) (depth - type.arrows)
      have comma : (!(depth - type.arrows == 0)) = decide (type.arrows < depth) := by
        rw [Bool.eq_iff_iff]
        simp
        omega
      rw [listText, hides_append, hides_text type depth, depthThrough_text type depth]
      change (type.coversCommas depth && (!(depth - type.arrows == 0) &&
        hides (· == ',') (depth - type.arrows) (listText (next :: types)))) = _
      rw [later, comma, ← Bool.and_assoc]
      rfl

end

end Brackets

section Characters

mutual

theorem text_undefaulted : ∀ type : KotlinType, '=' ∉ type.text
  | named name => name.not_mem_text (by decide) (by decide)
  | generic name arguments => by
      have named : '=' ∉ name.text := name.not_mem_text (by decide) (by decide)
      simp [text, named, listText_undefaulted arguments]
  | function parameters result => by
      simp [text, listText_undefaulted parameters, text_undefaulted result]
  | nullable type => by simp [text, text_undefaulted type]

theorem listText_undefaulted : ∀ types : List KotlinType, '=' ∉ listText types
  | [] => by simp [listText]
  | [type] => text_undefaulted type
  | type :: next :: types => by
      simp [listText, text_undefaulted type, listText_undefaulted (next :: types)]

end

theorem head?_text : ∀ type : KotlinType, ∃ c, type.text.head? = some c ∧ isBlank c = false
  | named name => name.isSolid.head?
  | generic name arguments => by
      obtain ⟨c, first, solid⟩ := name.isSolid.head?
      exact ⟨c, by simp [text, first], solid⟩
  | function parameters result => ⟨'(', rfl, by decide⟩
  | nullable type => by
      obtain ⟨c, first, solid⟩ := head?_text type
      exact ⟨c, by simp [text, first], solid⟩

theorem getLast?_text : ∀ type : KotlinType, ∃ c, type.text.getLast? = some c ∧ isBlank c = false
  | named name => name.isSolid.getLast?
  | generic name arguments => ⟨'>', by rw [text, ← List.cons_append, ← List.append_assoc,
      List.getLast?_concat], by decide⟩
  | function parameters result => by
      obtain ⟨c, last, solid⟩ := getLast?_text result
      obtain ⟨front, ends⟩ := List.getLast?_eq_some_iff.mp last
      refine ⟨c, ?_, solid⟩
      rw [text, ends, List.getLast?_eq_some_iff]
      exact ⟨'(' :: (listText parameters ++ ')' :: ' ' :: '-' :: '>' :: ' ' :: front), by simp⟩
  | nullable type => ⟨'?', by simp [text], by decide⟩

theorem trim_text (type : KotlinType) : trim type.text = type.text :=
  MaskedLine.trim_of_ends type.head?_text type.getLast?_text

end Characters

end KotlinType

structure KotlinParameter where
  name : Identifier
  type : KotlinType

namespace KotlinParameter

def text (parameter : KotlinParameter) : List Char :=
  parameter.name.chars ++ ':' :: ' ' :: parameter.type.text

def listText : List KotlinParameter → List Char
  | [] => []
  | [parameter] => parameter.text
  | parameter :: next :: list => parameter.text ++ ',' :: ' ' :: listText (next :: list)

def toParameter (parameter : KotlinParameter) : Parameter :=
  ⟨String.ofList parameter.name.chars, String.ofList parameter.type.text⟩

end KotlinParameter

section Reading

variable (name : Identifier) {type : List Char}

theorem depthThrough_labelled (type : List Char) :
    depthThrough 0 (name.chars ++ ':' :: type) = depthThrough 0 type := by
  rw [depthThrough_append, depthThrough_plain fun c member =>
    isBracket_of_dotted (name.dotted c member)]
  rfl

theorem hides_labelled (type : List Char) :
    hides (· == ',') 0 (name.chars ++ ':' :: type) = hides (· == ',') 0 type := by
  rw [hides_append, hides_of_none fun c member => beq_eq_false_iff_ne.mpr
      (ne_of_dotted (name.dotted c member) (by decide) (by decide)),
    depthThrough_plain fun c member => isBracket_of_dotted (name.dotted c member)]
  rfl

theorem trim_labelled (type : List Char) :
    trim (name.chars ++ ':' :: type) = name.chars ++ ':' :: trimRight type := by
  obtain ⟨c, first, solid⟩ := name.isSolid.head?
  obtain ⟨rest, begins⟩ := List.head?_eq_some_iff.mp first
  rw [trim_append_cons (by decide), begins, trimLeft, List.dropWhile_cons_of_neg (by simp [solid])]

variable (undefaulted : '=' ∉ type)

include undefaulted

theorem kotlinParameter?_labelled :
    kotlinParameter? (trim (name.chars ++ ':' :: type)) =
      some ⟨String.ofList name.chars, String.ofList (trim type)⟩ := by
  obtain ⟨blanks, blank, split⟩ := exists_trimRight_append type
  have unlabelled : ∀ c ∈ name.chars, (c != ':') = true := fun c member =>
    bne_iff_ne.mpr (ne_of_dotted (name.dotted c member) (by decide) (by decide))
  obtain ⟨label, rest⟩ := @span_append (· != ':') name.chars (':' :: trimRight type) unlabelled
    (by simp)
  have unmarked := isAnnotationWord_of_dotted name.dotted
  have whole : (trimRight type).takeWhile (· != '=') = trimRight type := by
    rw [List.takeWhile_eq_self_iff]
    intro c member
    have inside : c ∈ type := (MaskedLine.trimRight_isPrefix type).subset member
    exact bne_iff_ne.mpr fun same => undefaulted (same ▸ inside)
  have trimmed : trim (trimRight type) = trim type := by
    conv_rhs => rw [split, trim_append_blanks _ blank]
  rw [trim_labelled, kotlinParameter?, rest, label]
  simp [name.isSolid.words_eq, unmarked, whole, trimmed]

variable (hidden : hides (· == ',') 0 type = true)

include hidden

theorem kotlin_parameters_single :
    parameters .kotlin (name.chars ++ ':' :: type) =
      [⟨String.ofList name.chars, String.ofList (trim type)⟩] := by
  have visible : trim (name.chars ++ ':' :: type) ≠ [] := by simp [trim_labelled]
  rw [parameters, splitCommas,
    splitTopLevel_single ((hides_labelled name type).trans hidden) visible]
  simp [kotlinParameter?_labelled name undefaulted]

theorem kotlin_parameters_cut (outside : depthThrough 0 type = 0) (rest : List Char) :
    parameters .kotlin (name.chars ++ ':' :: type ++ ',' :: rest) =
      ⟨String.ofList name.chars, String.ofList (trim type)⟩ :: parameters .kotlin rest := by
  rw [parameters_append .kotlin ((hides_labelled name type).trans hidden)
    ((depthThrough_labelled name type).trans outside), kotlin_parameters_single name undefaulted
      hidden]
  rfl

end Reading

namespace KotlinParameter

variable (parameter : KotlinParameter)

theorem text_undefaulted : '=' ∉ ' ' :: parameter.type.text := by
  simp [parameter.type.text_undefaulted]

theorem trim_type : trim (' ' :: parameter.type.text) = parameter.type.text :=
  parameter.type.trim_text

theorem parameters_text (covered : parameter.type.coversCommas 0 = true) :
    parameters .kotlin parameter.text = [parameter.toParameter] := by
  have hidden := (parameter.type.hides_text 0).trans covered
  have read := kotlin_parameters_single parameter.name parameter.text_undefaulted hidden
  rw [trim_type] at read
  exact read

theorem parameters_text_cons (covered : parameter.type.coversCommas 0 = true) (rest : List Char) :
    parameters .kotlin (parameter.text ++ ',' :: ' ' :: rest) =
      parameter.toParameter :: parameters .kotlin rest := by
  have hidden := (parameter.type.hides_text 0).trans covered
  have bottom := (parameter.type.depthThrough_text 0).trans (Nat.zero_sub _)
  have read := kotlin_parameters_cut parameter.name parameter.text_undefaulted hidden bottom
    (' ' :: rest)
  have spaced : parameters .kotlin (' ' :: rest) = parameters .kotlin rest := by
    rw [parameters, splitCommas, splitTopLevel_blank (by decide) rfl]
    rfl
  rw [trim_type, spaced] at read
  exact read

/-- A comma outside of brackets ends the first type too early. -/
theorem head?_parameters_ne (exposed : parameter.type.coversCommas 0 = false) (rest : List Char) :
    (parameters .kotlin (parameter.text ++ rest)).head? ≠ some parameter.toParameter := by
  obtain ⟨before, c, after, split, hidden, separates, outside⟩ :=
    exists_exposed ((parameter.type.hides_text 0).trans exposed)
  obtain rfl := beq_iff_eq.mp separates
  have undefaulted : '=' ∉ ' ' :: before := by
    have whole := parameter.type.text_undefaulted
    simp only [split, List.mem_append, not_or] at whole
    simp [whole.1]
  have read := kotlin_parameters_cut parameter.name undefaulted hidden outside (after ++ rest)
  have shorter : (trim before).length ≤ before.length :=
    (MaskedLine.trimRight_isPrefix _).length_le.trans (List.dropWhile_suffix isBlank).length_le
  have text : parameter.text ++ rest =
      parameter.name.chars ++ ':' :: ' ' :: before ++ ',' :: (after ++ rest) := by
    simp [KotlinParameter.text, split]
  rw [text, read]
  intro same
  have types := congrArg Parameter.type (Option.some.inj same)
  have lengths := congrArg List.length ((String.ofList_injective types).trans split)
  change (trim before).length = _ at lengths
  rw [List.length_append, List.length_cons] at lengths
  omega

end KotlinParameter

theorem kotlin_parameters_iff (list : List KotlinParameter) :
    parameters .kotlin (KotlinParameter.listText list) = list.map KotlinParameter.toParameter ↔
      ∀ parameter ∈ list, parameter.type.coversCommas 0 = true := by
  induction list using KotlinParameter.listText.induct with
  | case1 => exact ⟨fun _ parameter member => (List.not_mem_nil member).elim, fun _ => rfl⟩
  | case2 parameter =>
      rw [KotlinParameter.listText, List.forall_mem_singleton]
      cases covered : parameter.type.coversCommas 0 with
      | true => simp [parameter.parameters_text covered]
      | false =>
          have wrong := parameter.head?_parameters_ne covered []
          rw [List.append_nil] at wrong
          refine ⟨fun same => ?_, fun none => Bool.noConfusion none⟩
          exact (wrong (by rw [same]; rfl)).elim
  | case3 parameter next list ih =>
      rw [KotlinParameter.listText, List.forall_mem_cons]
      cases covered : parameter.type.coversCommas 0 with
      | true =>
          rw [parameter.parameters_text_cons covered, List.map_cons, List.cons_inj_right, ih]
          simp
      | false =>
          have wrong := parameter.head?_parameters_ne covered
            (',' :: ' ' :: KotlinParameter.listText (next :: list))
          refine ⟨fun same => ?_, fun both => Bool.noConfusion both.1⟩
          exact (wrong (by rw [same]; rfl)).elim

def functionMap : KotlinParameter :=
  let letter (c : Char) (plain : isNamePart c = true) : Identifier := ⟨[c], by simp, by simpa⟩
  let named (c : Char) (plain : isNamePart c = true) : KotlinType := .named ⟨letter c plain, []⟩
  ⟨letter 'm' (by decide), .generic ⟨⟨"Map".toList, by decide, List.all_eq_true.mp (by decide)⟩, []⟩
    [.function [named 'A' (by decide)] (named 'B' (by decide)), named 'C' (by decide)]⟩

theorem functionMap_misread :
    KotlinParameter.listText [functionMap] = "m: Map<(A) -> B, C>".toList ∧
      parameters .kotlin (KotlinParameter.listText [functionMap]) = [⟨"m", "Map<(A) -> B"⟩] ∧
      parameters .kotlin (KotlinParameter.listText [functionMap]) ≠
        [functionMap].map KotlinParameter.toParameter := by
  have text : KotlinParameter.listText [functionMap] = "m: Map<(A) -> B, C>".toList := by decide
  have read : parameters .kotlin "m: Map<(A) -> B, C>".toList = [⟨"m", "Map<(A) -> B"⟩] := by
    decide
  rw [text, read]
  exact ⟨rfl, rfl, by decide⟩

end MethodFlow.Header
