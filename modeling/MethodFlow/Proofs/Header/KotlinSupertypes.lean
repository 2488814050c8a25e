import MethodFlow.Proofs.Header.KotlinParameters
import MethodFlow.Proofs.Header.Spacing

/-!
Supertype lists of Kotlin, written out and read back. A supertype may be followed by the arguments
of its constructor or by the delegate that implements it, and both are left out again. A list reads
back if and only if no delegate is blank (`kotlinSupertypes_commaList_iff`).
-/
namespace MethodFlow.Header

open Text

/-! Types without arrows, that is without function types in them. -/
namespace KotlinType

mutual

theorem coversCommas_of_arrowless : ∀ (type : KotlinType) (depth : Nat), type.arrows = 0 →
    type.coversCommas depth = true
  | named _, _, _ => rfl
  | generic _ arguments, depth, arrowless =>
      coversCommasIn_of_arrowless arguments (depth + 1) arrowless (Nat.succ_pos depth)
  | function parameters result, _, arrowless => by
      rw [arrows] at arrowless
      omega
  | nullable type, depth, arrowless => coversCommas_of_arrowless type depth arrowless

theorem coversCommasIn_of_arrowless : ∀ (types : List KotlinType) (depth : Nat),
    arrowsIn types = 0 → 0 < depth → coversCommasIn depth types = true
  | [], _, _, _ => rfl
  | [type], depth, arrowless, _ => by
      rw [arrowsIn, Nat.add_eq_zero_iff] at arrowless
      exact coversCommas_of_arrowless type depth arrowless.1
  | type :: next :: types, depth, arrowless, inside => by
      rw [arrowsIn, Nat.add_eq_zero_iff] at arrowless
      rw [coversCommasIn, coversCommas_of_arrowless type depth arrowless.1, arrowless.1,
        Nat.sub_zero, coversCommasIn_of_arrowless (next :: types) depth arrowless.2 inside]
      simpa using inside

end

mutual

theorem not_mem_text_of_arrowless : ∀ type : KotlinType, type.arrows = 0 → '(' ∉ type.text
  | named name, _ => name.not_mem_text (by decide) (by decide)
  | generic name arguments, arrowless => by
      have named : '(' ∉ name.text := name.not_mem_text (by decide) (by decide)
      simp [text, named, not_mem_listText_of_arrowless arguments arrowless]
  | function parameters result, arrowless => by
      rw [arrows] at arrowless
      omega
  | nullable type, arrowless => by simp [text, not_mem_text_of_arrowless type arrowless]

theorem not_mem_listText_of_arrowless : ∀ types : List KotlinType, arrowsIn types = 0 →
    '(' ∉ listText types
  | [], _ => by simp [listText]
  | [type], arrowless => by
      rw [arrowsIn, Nat.add_eq_zero_iff] at arrowless
      exact not_mem_text_of_arrowless type arrowless.1
  | type :: next :: types, arrowless => by
      rw [arrowsIn, Nat.add_eq_zero_iff] at arrowless
      simp [listText, not_mem_text_of_arrowless type arrowless.1,
        not_mem_listText_of_arrowless (next :: types) arrowless.2]

end

mutual

theorem isSpaced_of_arrowless : ∀ type : KotlinType, type.arrows = 0 →
    IsSpaced (· = [',']) type.text
  | named name, _ => .of_solid name.isSolid.solid
  | generic name arguments, arrowless => by
      have opened : IsSpaced (· = [',']) ['<'] := .of_solid (isBlank_eq_false_of_all (by decide))
      have closed : IsSpaced (· = [',']) ['>'] := .of_solid (isBlank_eq_false_of_all (by decide))
      have inside := isSpacedIn_of_arrowless arguments arrowless
      have front : IsSpaced (· = [',']) name.text := .of_solid name.isSolid.solid
      exact front.append (opened.append (inside.append closed))
  | function parameters result, arrowless => by
      rw [arrows] at arrowless
      omega
  | nullable type, arrowless =>
      (isSpaced_of_arrowless type arrowless).append
        (.of_solid (isBlank_eq_false_of_all (by decide)))

theorem isSpacedIn_of_arrowless : ∀ types : List KotlinType, arrowsIn types = 0 →
    IsSpaced (· = [',']) (listText types)
  | [], _ => .of_solid (by simp [listText])
  | [type], arrowless => by
      rw [arrowsIn, Nat.add_eq_zero_iff] at arrowless
      exact isSpaced_of_arrowless type arrowless.1
  | type :: next :: types, arrowless => by
      rw [arrowsIn, Nat.add_eq_zero_iff] at arrowless
      have comma : IsSpaced (· = [',']) [','] := .of_solid (isBlank_eq_false_of_all (by decide))
      have between := comma.space List.suffix_rfl rfl
      have later := isSpacedIn_of_arrowless (next :: types) arrowless.2
      exact (isSpaced_of_arrowless type arrowless.1).append (between.append later)

end

theorem solid_or_ends_of_arrowless (type : KotlinType) (arrowless : type.arrows = 0) :
    (∀ c ∈ type.text, isBlank c = false) ∨ ∃ c ∈ ['>', '?'], type.text.getLast? = some c := by
  cases type with
  | named name => exact .inl name.isSolid.solid
  | generic name arguments =>
      refine .inr ⟨'>', by simp, ?_⟩
      rw [text, ← List.cons_append, ← List.append_assoc, List.getLast?_concat]
  | function parameters result =>
      rw [arrows] at arrowless
      omega
  | nullable type => exact .inr ⟨'?', by simp, by simp [text]⟩

theorem isEnclosed_of_arrowless (type : KotlinType) (arrowless : type.arrows = 0) :
    IsEnclosed 0 type.text := by
  intro depth _
  constructor
  · rw [depthThrough_text, arrowless, Nat.sub_zero]
  · rw [hides_text, coversCommas_of_arrowless type depth arrowless]

theorem trim_arguments (type : KotlinType) (inside : List Char) :
    trim (type.text ++ '(' :: (inside ++ [')'])) = type.text ++ '(' :: (inside ++ [')']) := by
  have ending := trimRight_append_cons (c := ')') (by decide) (type.text ++ '(' :: inside) []
  rw [trim, trimLeft_append_of_first type.head?_text]
  simpa [trimRight] using ending

theorem trim_delegate (type : KotlinType) (delegate : List Char) :
    trim (type.text ++ " by ".toList ++ delegate) =
      type.text ++ " by".toList ++ trimRight (' ' :: delegate) := by
  have ending := trimRight_append_cons (c := 'y') (by decide) (type.text ++ " b".toList)
    (' ' :: delegate)
  rw [List.append_assoc, trim, trimLeft_append_of_first type.head?_text]
  simpa using ending

end KotlinType

section Removal

theorem dropArguments_append {front : List Char} (none : '(' ∉ front) (rest : List Char) :
    dropArguments (front ++ rest) = front ++ dropArguments rest := by
  induction front with
  | nil => rfl
  | cons c front ih =>
      rw [List.mem_cons, not_or] at none
      rw [List.cons_append, dropArguments, dropArgumentsFrom, if_neg (Ne.symm none.1)]
      exact congrArg (c :: ·) (ih none.2)

theorem dropArguments_of_not_mem {text : List Char} (none : '(' ∉ text) :
    dropArguments text = text := by
  have whole := dropArguments_append none []
  rw [List.append_nil] at whole
  exact whole.trans (List.append_nil text)

theorem afterLastClosing?_concat {inside : List Char} (oneLine : '\n' ∉ inside) :
    afterLastClosing? (inside ++ [')']) = some [] := by
  induction inside with
  | nil => rfl
  | cons c inside ih =>
      rw [List.mem_cons, not_or] at oneLine
      rw [List.cons_append, afterLastClosing?, if_neg (Ne.symm oneLine.1), ih oneLine.2]
      rfl

theorem dropArgumentsFrom_length (text : List Char) : dropArgumentsFrom text.length text = [] := by
  induction text with
  | nil => rfl
  | cons c text ih =>
      rw [List.length_cons, dropArgumentsFrom]
      exact ih

theorem dropArguments_parenthesized {inside : List Char} (oneLine : '\n' ∉ inside) :
    dropArguments ('(' :: (inside ++ [')'])) = [] := by
  rw [dropArguments, dropArgumentsFrom, if_pos rfl, afterLastClosing?_concat oneLine]
  exact dropArgumentsFrom_length _

theorem dropDelegation_append {front rest : List Char}
    (none : ∀ part, part ≠ [] → part <:+ front → startsDelegation (part ++ rest) = false) :
    dropDelegation (front ++ rest) = front ++ dropDelegation rest := by
  induction front with
  | nil => rfl
  | cons c front ih =>
      have here := none (c :: front) (List.cons_ne_nil c front) List.suffix_rfl
      have later := ih fun part nonempty suffix =>
        none part nonempty (suffix.trans (List.suffix_cons c front))
      rw [List.cons_append] at here ⊢
      rw [dropDelegation, here, later]
      rfl

end Removal

section Cleaning

variable {type : KotlinType} (arrowless : type.arrows = 0)

include arrowless

/-- The last word of a type that has blanks in it is no `by`. -/
theorem KotlinType.not_ends_delegating (before : List Char) :
    type.text ≠ before ++ ' ' :: "by".toList := by
  intro same
  rcases type.solid_or_ends_of_arrowless arrowless with solid | ⟨c, listed, last⟩
  · have space := solid ' ' (by simp [same])
    cases space
  · rw [same, List.getLast?_append_of_ne_nil _ (List.cons_ne_nil _ _)] at last
    obtain rfl : 'y' = c := Option.some.inj last
    simp at listed

/-- No delegation begins within a type, whether a blank or nothing follows it. -/
theorem KotlinType.startsDelegation_inside {rest : List Char}
    (blank : ∀ c, rest.head? = some c → isBlank c = true) {part : List Char} (nonempty : part ≠ [])
    (suffix : part <:+ type.text) : startsDelegation (part ++ rest) = false := by
  rw [Bool.eq_false_iff, startsDelegation]
  intro starts
  obtain ⟨more, found⟩ := Option.isSome_iff_exists.mp starts
  obtain ⟨after, found, blanks⟩ := Option.bind_eq_some_iff.mp found
  obtain ⟨left, opens, found⟩ := Option.bind_eq_some_iff.mp found
  obtain ⟨-, c, first, isBlank⟩ := blanks?_eq_some blanks
  obtain ⟨front, split⟩ := suffix
  have spaced := type.isSpaced_of_arrowless arrowless
  have last : ∃ c, part.getLast? = some c ∧ Text.isBlank c = false := by
    have whole := type.getLast?_text
    rwa [← split, List.getLast?_append_of_ne_nil _ nonempty] at whole
  have word : IsSolid "by".toList := ⟨by decide, isBlank_eq_false_of_all (by decide)⟩
  have other : ∀ mark, mark = [','] → ∀ before, ¬mark <:+ before ++ ' ' :: "by".toList := by
    rintro mark rfl before closes
    have near : [','] <:+ ' ' :: "by".toList :=
      List.suffix_of_suffix_length_le closes (List.suffix_append _ _) (by decide)
    revert near
    decide
  rw [← split] at spaced
  rcases spaced.keyword_inside last blank word other opens found with
    ⟨d, head, solid⟩ | ⟨-, before, ends⟩
  · rw [head] at first
    obtain rfl := Option.some.inj first
    rw [isBlank] at solid
    cases solid
  · rw [split] at ends
    exact KotlinType.not_ends_delegating arrowless before ends

theorem KotlinType.dropDelegation_text {rest : List Char}
    (blank : ∀ c, rest.head? = some c → isBlank c = true) :
    dropDelegation (type.text ++ rest) = type.text ++ dropDelegation rest :=
  dropDelegation_append fun _ nonempty suffix =>
    KotlinType.startsDelegation_inside arrowless blank nonempty suffix

theorem KotlinType.collapse_text : collapse type.text = type.text := by
  have spaced : IsSpaced IsSolidMark type.text := by
    refine (type.isSpaced_of_arrowless arrowless).imp ?_
    rintro mark rfl
    exact ⟨[','], ⟨',', rfl, by decide⟩, List.suffix_rfl⟩
  exact spaced.collapse_eq type.getLast?_text

theorem KotlinType.cleanType_text : cleanType type.text = type.text := by
  have none := type.not_mem_text_of_arrowless arrowless
  have kept : dropDelegation (type.text ++ []) = type.text ++ dropDelegation [] :=
    KotlinType.dropDelegation_text arrowless (by simp)
  rw [List.append_nil, dropDelegation, List.append_nil] at kept
  rw [cleanType, dropArguments_of_not_mem none, kept, KotlinType.collapse_text arrowless]

theorem KotlinType.cleanType_arguments {inside : List Char} (oneLine : '\n' ∉ inside) :
    cleanType (type.text ++ '(' :: (inside ++ [')'])) = type.text := by
  have none := type.not_mem_text_of_arrowless arrowless
  have clean := KotlinType.cleanType_text arrowless
  rw [cleanType, dropArguments_of_not_mem none] at clean
  rw [cleanType, dropArguments_append none, dropArguments_parenthesized oneLine, List.append_nil,
    clean]

theorem KotlinType.cleanType_delegate (delegate : List Char) :
    cleanType (type.text ++ " by ".toList ++ delegate) = type.text := by
  have none : '(' ∉ type.text ++ " by ".toList := by
    simp [type.not_mem_text_of_arrowless arrowless]
  have starts (rest : List Char) : dropDelegation (" by ".toList ++ rest) = [] := by
    have first : startsDelegation (" by ".toList ++ rest) = true := rfl
    exact if_pos first
  rw [cleanType, dropArguments_append none, List.append_assoc,
    KotlinType.dropDelegation_text arrowless (by rintro c first; cases first; decide), starts,
    List.append_nil, KotlinType.collapse_text arrowless]

/-- A `by` that nothing follows is taken for a part of the name. -/
theorem KotlinType.cleanType_open_delegate :
    cleanType (type.text ++ " by".toList) = type.text ++ " by".toList := by
  have none : '(' ∉ type.text ++ " by".toList := by
    simp [type.not_mem_text_of_arrowless arrowless]
  have left : words type.text ≠ [] := by
    intro none
    obtain ⟨c, last, solid⟩ := type.getLast?_text
    rw [blank_of_words_eq_nil none c (List.mem_of_getLast? last)] at solid
    cases solid
  rw [cleanType, dropArguments_of_not_mem none,
    KotlinType.dropDelegation_text arrowless (by rintro c first; cases first; decide)]
  change collapse (type.text ++ ' ' :: "by".toList) = type.text ++ ' ' :: "by".toList
  rw [collapse_append_cons (by decide) left (by decide), KotlinType.collapse_text arrowless]
  rfl

end Cleaning

inductive Supplement where
  | nothing
  | arguments (text : List Char) (oneLine : '\n' ∉ text) (balanced : BracketsMatch text)
  | delegate (text : List Char) (balanced : BracketsMatch text)
    (hidden : hides (· == ',') 0 text = true)

namespace Supplement

def text : Supplement → List Char
  | nothing => []
  | arguments text _ _ => '(' :: (text ++ [')'])
  | delegate text _ _ => " by ".toList ++ text

def IsVisible : Supplement → Prop
  | delegate text _ _ => ∃ c ∈ text, isBlank c = false
  | _ => True

theorem isEnclosed : ∀ supplement : Supplement, IsEnclosed 0 supplement.text
  | nothing => isEnclosed_nil 0
  | arguments _ _ balanced => balanced.isEnclosed.between rfl rfl
  | delegate _ balanced hidden => by
      have front : IsEnclosed 0 " by ".toList := fun _ _ => ⟨rfl, rfl⟩
      exact front.append (balanced.isEnclosed_of_hides hidden)

end Supplement

structure KotlinSupertype where
  type : KotlinType
  arrowless : type.arrows = 0
  supplement : Supplement

namespace KotlinSupertype

variable (entry : KotlinSupertype)

def text : List Char :=
  entry.type.text ++ entry.supplement.text

def name : String :=
  String.ofList entry.type.text

theorem isEnclosed : IsEnclosed 0 entry.text :=
  (entry.type.isEnclosed_of_arrowless entry.arrowless).append entry.supplement.isEnclosed

/-- The name that is left of a supertype. Of a delegate that is blank it keeps the `by`. -/
theorem cleanType_trim :
    entry.supplement.IsVisible ∧ cleanType (trim entry.text) = entry.type.text ∨
      ¬entry.supplement.IsVisible ∧
        cleanType (trim entry.text) = entry.type.text ++ " by".toList := by
  have arrowless := entry.arrowless
  rw [text]
  cases entry.supplement with
  | nothing =>
      refine .inl ⟨trivial, ?_⟩
      rw [Supplement.text, List.append_nil, entry.type.trim_text,
        KotlinType.cleanType_text arrowless]
  | arguments inside oneLine balanced =>
      refine .inl ⟨trivial, ?_⟩
      rw [Supplement.text, entry.type.trim_arguments,
        KotlinType.cleanType_arguments arrowless oneLine]
  | delegate delegate balanced hidden =>
      rw [Supplement.text, ← List.append_assoc, entry.type.trim_delegate]
      by_cases visible : ∃ c ∈ delegate, isBlank c = false
      · refine .inl ⟨visible, ?_⟩
        obtain ⟨c, member, solid⟩ := visible
        obtain ⟨before, after, rfl⟩ := List.append_of_mem member
        rw [← List.cons_append, trimRight_append_cons solid]
        have read := KotlinType.cleanType_delegate arrowless (before ++ c :: trimRight after)
        simpa using read
      · refine .inr ⟨visible, ?_⟩
        have blank : ∀ c ∈ ' ' :: delegate, isBlank c = true := by
          refine List.forall_mem_cons.mpr ⟨by decide, fun c member => ?_⟩
          by_contra solid
          exact visible ⟨c, member, Bool.eq_false_iff.mpr solid⟩
        have nothing : trimRight (' ' :: delegate) = [] := trimRight_append_blanks [] blank
        rw [nothing, List.append_nil, KotlinType.cleanType_open_delegate arrowless]

theorem cleanType_trim_iff :
    cleanType (trim entry.text) = entry.type.text ↔ entry.supplement.IsVisible := by
  rcases entry.cleanType_trim with ⟨visible, read⟩ | ⟨blank, read⟩
  · simp [read, visible]
  · simp [read, blank]

theorem cleanType_trim_ne_nil : cleanType (trim entry.text) ≠ [] := by
  have named : entry.type.text ≠ [] := by
    intro none
    obtain ⟨c, first, -⟩ := entry.type.head?_text
    rw [none] at first
    cases first
  rcases entry.cleanType_trim with ⟨-, read⟩ | ⟨-, read⟩
  · rwa [read]
  · simp [read]

theorem trim_ne_nil : trim entry.text ≠ [] := by
  intro none
  apply entry.cleanType_trim_ne_nil
  rw [none]
  rfl

end KotlinSupertype

theorem kotlinSupertypes_commaList (entries : List KotlinSupertype) :
    kotlinSupertypes (some (commaList (entries.map KotlinSupertype.text))) =
      ⟨(entries.map fun entry => String.ofList (cleanType (trim entry.text))).head?,
        (entries.map fun entry => String.ofList (cleanType (trim entry.text))).tail⟩ := by
  have cut : splitCommas (commaList (entries.map KotlinSupertype.text)) =
      (entries.map KotlinSupertype.text).map trim := by
    apply splitCommas_commaList
    · exact List.forall_mem_map.mpr fun entry _ => entry.isEnclosed
    · exact List.forall_mem_map.mpr fun entry _ => entry.trim_ne_nil
  have shown : ((entries.map KotlinSupertype.text).map trim |>.map cleanType).filter
      (fun name => !name.isEmpty) = entries.map fun entry => cleanType (trim entry.text) := by
    rw [List.map_map, List.map_map, List.filter_eq_self.mpr]
    · rfl
    · refine List.forall_mem_map.mpr fun entry _ => ?_
      have named := entry.cleanType_trim_ne_nil
      simpa using named
  simp only [kotlinSupertypes, Option.map_some, Option.getD_some, cut, shown]
  simp [← List.map_drop, List.drop_one, Function.comp_def]

theorem kotlinSupertypes_commaList_iff (first : KotlinSupertype) (others : List KotlinSupertype) :
    kotlinSupertypes (some (commaList ((first :: others).map KotlinSupertype.text))) =
        ⟨some first.name, others.map KotlinSupertype.name⟩ ↔
      ∀ entry ∈ first :: others, entry.supplement.IsVisible := by
  rw [kotlinSupertypes_commaList, List.map_cons, List.head?_cons, List.tail_cons,
    List.forall_mem_cons, Supertypes.mk.injEq, Option.some.injEq, List.map_inj_left]
  simp only [KotlinSupertype.name, String.ofList_inj, KotlinSupertype.cleanType_trim_iff]

/-- Of a space for a delegate, the list reads the `by` as a part of the name. -/
theorem blank_delegate_kept : ∃ entry : KotlinSupertype,
    entry.text = "A by  ".toList ∧ entry.name = "A" ∧
      kotlinSupertypes (some (commaList [entry.text])) = ⟨some "A by", []⟩ := by
  have balanced : BracketsMatch [' '] := by
    refine ⟨fun front shorter => ?_, rfl⟩
    exact (shorter.sublist.countP_le).trans (Nat.zero_le _)
  have plain : ∀ c ∈ ['A'], isNamePart c = true := List.all_eq_true.mp (by decide)
  have read : kotlinSupertypes (some "A by  ".toList) = ⟨some "A by", []⟩ := by decide
  refine ⟨⟨.named ⟨⟨['A'], List.cons_ne_nil _ _, plain⟩, []⟩, rfl, .delegate [' '] balanced rfl⟩,
    rfl, rfl, ?_⟩
  rw [commaList_singleton]
  exact read

end MethodFlow.Header
