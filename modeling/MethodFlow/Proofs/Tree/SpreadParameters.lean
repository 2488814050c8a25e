import MethodFlow.Proofs.Header.JavaParameters
import MethodFlow.Tree.Classes
import Mathlib.Data.List.Flatten

/-!
A parameter that takes any number of arguments, as it is read off a syntax tree and off a line. In
the tree its text is cut at the spaces outside of brackets, on a line at all blanks. The two agree
if and only if neither finds a type and a name, or the pieces of the one cut into the words of the
other without a change to what they mean (`spread_parameter_iff`).
-/
namespace MethodFlow.Tree

open Text Header

/-- The parts of a parameter that are cut apart at spaces outside of brackets. -/
def spacedPieces (text : List Char) : List (List Char) :=
  splitTopLevel (· == ' ') text

/-- Whether pieces of a parameter mean the same as their words: the name is one word, the pieces of
the type have single spaces between words that are kept, and no word of a modifier is kept. -/
structure KeepsWords (pieces : List (List Char)) : Prop where
  name : ∀ piece ∈ (pieces.filter isKept).getLast?, ∀ c ∈ piece, isBlank c = false
  type : ∀ piece ∈ pieces, isKept piece = true →
    collapse piece = piece ∧ ∀ word ∈ words piece, isKept word = true
  modifiers : ∀ piece ∈ pieces, isKept piece = false → ∀ word ∈ words piece, isKept word = false

instance (pieces : List (List Char)) : Decidable (KeepsWords pieces) :=
  decidable_of_iff
    ((∀ piece ∈ (pieces.filter isKept).getLast?, piece.all (!isBlank ·) = true) ∧
      (∀ piece ∈ pieces, isKept piece = true →
        collapse piece = piece ∧ ∀ word ∈ words piece, isKept word = true) ∧
      ∀ piece ∈ pieces, isKept piece = false → ∀ word ∈ words piece, isKept word = false)
    ⟨fun ⟨name, type, modifiers⟩ =>
        ⟨fun piece last => isBlank_eq_false_of_all (name piece last), type, modifiers⟩,
      fun keeps => ⟨by simpa using keeps.name, keeps.type, keeps.modifiers⟩⟩

section Pieces

theorem unwords_topLevelPieces (depth : Nat) (text : List Char) :
    unwords (topLevelPieces (· == ' ') depth text) = text := by
  induction text generalizing depth with
  | nil => rfl
  | cons c text ih =>
      have others := ih (depthAfter depth c)
      have some := topLevelPieces_ne_nil (· == ' ') (depthAfter depth c) text
      rw [topLevelPieces]
      split
      · rename_i separates
        rw [unwords_cons some, others, (beq_iff_eq.mp (Bool.and_eq_true_iff.mp separates).1)]
        rfl
      · cases parts : topLevelPieces (· == ' ') (depthAfter depth c) text with
        | nil => exact absurd parts some
        | cons piece rest =>
            rw [parts] at others
            by_cases single : rest = []
            · subst single
              simpa using others
            · rw [unwords_cons single] at others ⊢
              rw [List.cons_append, others]

theorem flatMap_spacedPieces (text : List Char) :
    (spacedPieces text).flatMap words = words text := by
  have shown (list : List (List Char)) :
      ((list.map trim).filter fun piece => !piece.isEmpty).flatMap words = list.flatMap words := by
    induction list with
    | nil => rfl
    | cons piece rest ih =>
        rw [List.map_cons, List.filter_cons, List.flatMap_cons, ← ih, ← words_trim piece]
        split
        · rfl
        · rename_i blank
          have none : trim piece = [] := by simpa using blank
          rw [none]
          rfl
  have cut := words_unwords (topLevelPieces (· == ' ') 0 text)
  rw [unwords_topLevelPieces] at cut
  rw [cut]
  exact shown _

theorem words_ne_nil_of_mem {text piece : List Char} (member : piece ∈ spacedPieces text) :
    words piece ≠ [] := by
  obtain ⟨trimmed, visible⟩ := List.mem_filter.mp member
  obtain ⟨part, -, rfl⟩ := List.mem_map.mp trimmed
  intro none
  rw [words_trim] at none
  rw [trim_of_blanks (blank_of_words_eq_nil none)] at visible
  cases visible

end Pieces

section Agreement

variable {pieces : List (List Char)}

theorem dropped_of_flatMap_eq {keep : List Char → Bool} {read : List Char → List (List Char)}
    (same : pieces.flatMap read = (pieces.filter keep).flatMap read) :
    ∀ piece ∈ pieces, keep piece = false → read piece = [] := by
  induction pieces with
  | nil => simp
  | cons piece pieces ih =>
      cases kept : keep piece with
      | true =>
          rw [List.filter_cons_of_pos kept, List.flatMap_cons, List.flatMap_cons,
            List.append_cancel_left_eq] at same
          rw [List.forall_mem_cons, kept]
          exact ⟨fun dropped => Bool.noConfusion dropped, ih same⟩
      | false =>
          rw [List.filter_cons_of_neg (by simp [kept]), List.flatMap_cons] at same
          have fewer := ((List.filter_sublist (p := keep)).flatMap read : List.Sublist _
            (pieces.flatMap read)).length_le
          have lengths := congrArg List.length same
          rw [List.length_append] at lengths
          have none : read piece = [] := List.length_eq_zero_iff.mp (by omega)
          rw [none, List.nil_append] at same
          exact List.forall_mem_cons.mpr ⟨fun _ => none, ih same⟩

theorem filter_flatMap_words
    (kept : ∀ piece ∈ pieces, isKept piece = true → ∀ word ∈ words piece, isKept word = true)
    (dropped : ∀ piece ∈ pieces, isKept piece = false →
      ∀ word ∈ words piece, isKept word = false) :
    (pieces.flatMap words).filter isKept = (pieces.filter isKept).flatMap words := by
  induction pieces with
  | nil => rfl
  | cons piece pieces ih =>
      rw [List.forall_mem_cons] at kept dropped
      rw [List.flatMap_cons, List.filter_append, ih kept.2 dropped.2]
      cases here : isKept piece with
      | true =>
          rw [List.filter_eq_self.mpr (kept.1 here), List.filter_cons_of_pos here,
            List.flatMap_cons]
      | false =>
          have none : (words piece).filter isKept = [] := by
            rw [List.filter_eq_nil_iff]
            intro word member
            simp [dropped.1 here word member]
          rw [none, List.filter_cons_of_neg (by simp [here])]
          rfl

variable (visible : ∀ piece ∈ pieces, words piece ≠ [])

include visible

theorem collapse_type {type : List (List Char)} (part : ∀ piece ∈ type, piece ∈ pieces) :
    unwords (type.flatMap words) = unwords type ↔ ∀ piece ∈ type, collapse piece = piece := by
  rw [← words_unwords]
  exact collapse_unwords_iff fun piece member => visible piece (part piece member)

theorem KeepsWords.parameter_eq (keeps : KeepsWords pieces) :
    parameterOfWords? pieces = parameterOfWords? (pieces.flatMap words) := by
  have kept := filter_flatMap_words (fun piece member here => (keeps.type piece member here).2)
    keeps.modifiers
  rcases List.eq_nil_or_concat (pieces.filter isKept) with none | ⟨type, name, split⟩
  · rw [parameterOfWords?_eq_none (by simp [none]), parameterOfWords?_eq_none (by simp [kept, none])]
  · rw [List.concat_eq_append] at split
    have part : ∀ piece ∈ type ++ [name], piece ∈ pieces ∧ isKept piece = true := by
      intro piece member
      exact List.mem_filter.mp (split ▸ member)
    have single : words name = [name] := by
      have last := keeps.name name (by simp [split])
      have shown := visible name (part name (by simp)).1
      exact IsSolid.words_eq ⟨fun empty => shown (by rw [empty]; rfl), last⟩
    have filtered : (pieces.flatMap words).filter isKept = type.flatMap words ++ [name] := by
      rw [kept, split, List.flatMap_append, List.flatMap_singleton, single]
    by_cases untyped : type = []
    · rw [parameterOfWords?_eq_none (by simp [split, untyped]),
        parameterOfWords?_eq_none (by simp [filtered, untyped])]
    · have typed : type.flatMap words ≠ [] := by
        obtain ⟨first, rest, rfl⟩ := List.exists_cons_of_ne_nil untyped
        simp [visible first (part first (by simp)).1]
      have same : unwords (type.flatMap words) = unwords type := by
        rw [collapse_type visible fun piece member => (part piece (by simp [member])).1]
        intro piece member
        obtain ⟨inside, here⟩ := part piece (by simp [member])
        exact (keeps.type piece inside here).1
      rw [parameterOfWords?_of_kept split untyped, parameterOfWords?_of_kept filtered typed, same]

theorem KeepsWords.of_eq (long : 2 ≤ (pieces.filter isKept).length)
    (same : parameterOfWords? pieces = parameterOfWords? (pieces.flatMap words)) :
    KeepsWords pieces := by
  obtain ⟨type, name, split, untyped⟩ := exists_type_name long
  rw [parameterOfWords?_of_kept split untyped] at same
  have longer : 2 ≤ ((pieces.flatMap words).filter isKept).length := by
    by_contra short
    rw [parameterOfWords?_eq_none (by omega)] at same
    cases same
  obtain ⟨typeWords, nameWord, filtered, typed⟩ := exists_type_name longer
  rw [parameterOfWords?_of_kept filtered typed, Option.some.injEq, Parameter.mk.injEq] at same
  obtain rfl := String.ofList_injective same.1
  have text := String.ofList_injective same.2
  have solid : ∀ word ∈ typeWords ++ [name], IsSolid word := by
    intro word member
    rw [← filtered] at member
    obtain ⟨piece, -, inside⟩ := List.mem_flatMap.mp (List.mem_filter.mp member).1
    exact isSolid_of_mem inside
  have single : words name = [name] := (solid name (by simp)).words_eq
  -- the words of the type are those of its pieces
  have retyped : type.flatMap words = typeWords := by
    rw [← words_unwords, text, words_unwords]
    exact flatMap_words fun word member => solid word (by simp [member])
  have kept : (pieces.flatMap words).filter isKept = (pieces.filter isKept).flatMap words := by
    rw [filtered, split, List.flatMap_append, List.flatMap_singleton, single, retyped]
  have part : ∀ piece ∈ type ++ [name], piece ∈ pieces := by
    intro piece member
    exact (List.mem_filter.mp (split ▸ member)).1
  refine ⟨?_, ?_, ?_⟩
  · intro piece last
    rw [split, List.getLast?_concat] at last
    obtain rfl := Option.some.inj last
    exact (solid name (by simp)).solid
  · intro piece member here
    have inside : piece ∈ pieces.filter isKept := List.mem_filter.mpr ⟨member, here⟩
    refine ⟨?_, fun word inWords => ?_⟩
    · rw [split, List.mem_append, List.mem_singleton] at inside
      rcases inside with inType | rfl
      · have collapsed := (collapse_type visible fun other more => part other (by simp [more])).mp
          (by rw [retyped, text] : unwords (type.flatMap words) = unwords type)
        exact collapsed piece inType
      · rw [collapse, single, unwords_singleton]
    · have inKept : word ∈ (pieces.flatMap words).filter isKept := by
        rw [kept]
        exact List.mem_flatMap.mpr ⟨piece, inside, inWords⟩
      exact (List.mem_filter.mp inKept).2
  · have read : pieces.flatMap (fun piece => (words piece).filter isKept) =
        (pieces.filter isKept).flatMap fun piece => (words piece).filter isKept := by
      rw [← List.filter_flatMap, ← List.filter_flatMap, ← kept, List.filter_filter]
      simp
    intro piece member here word inWords
    have none := dropped_of_flatMap_eq read piece member here
    rw [List.filter_eq_nil_iff] at none
    simpa using none word inWords

end Agreement

theorem spread_parameter_iff (bytes : List UInt8) (node : Node)
    (spread : node.kind = "spread_parameter")
    (single : hides (· == ',') 0 (node.chars bytes) = true) :
    (parameter? bytes node).toList = parameters .java (node.chars bytes) ↔
      ((spacedPieces (node.chars bytes)).filter isKept).length < 2 ∧
          ((words (node.chars bytes)).filter isKept).length < 2 ∨
        KeepsWords (spacedPieces (node.chars bytes)) := by
  have visible : ∀ piece ∈ spacedPieces (node.chars bytes), words piece ≠ [] :=
    fun piece member => words_ne_nil_of_mem member
  have read : parameter? bytes node = parameterOfWords? (spacedPieces (node.chars bytes)) := by
    rw [parameter?, spread]
    rfl
  have injective {first second : Option Parameter} :
      first.toList = second.toList ↔ first = second := by
    cases first <;> cases second <;> simp
  rw [read, java_parameters_single single, injective, ← flatMap_spacedPieces (node.chars bytes)]
  generalize spacedPieces (node.chars bytes) = pieces at visible
  constructor
  · intro same
    by_cases long : 2 ≤ (pieces.filter isKept).length
    · exact Or.inr (KeepsWords.of_eq visible long same)
    · refine Or.inl ⟨by omega, ?_⟩
      rw [parameterOfWords?_eq_none (by omega)] at same
      by_contra longer
      obtain ⟨type, name, split, typed⟩ := exists_type_name (Nat.le_of_not_lt longer)
      rw [parameterOfWords?_of_kept split typed] at same
      cases same
  · rintro (⟨short, shortWords⟩ | keeps)
    · rw [parameterOfWords?_eq_none short, parameterOfWords?_eq_none shortWords]
    · exact keeps.parameter_eq visible

def spreadNode (bytes : List UInt8) : Node where
  kind := "spread_parameter"
  named := true
  start := 0
  stop := bytes.length
  row := 0
  field := none
  children := []

def annotatedSpread : List UInt8 :=
  "final @A Map<K, ? super V>...  all".toList.map fun c => c.toNat.toUInt8

theorem annotatedSpread_agrees :
    (spreadNode annotatedSpread).kind = "spread_parameter" ∧
      hides (· == ',') 0 ((spreadNode annotatedSpread).chars annotatedSpread) = true ∧
      (parameter? annotatedSpread (spreadNode annotatedSpread)).toList =
        parameters .java ((spreadNode annotatedSpread).chars annotatedSpread) :=
  ⟨rfl, by decide, (spread_parameter_iff annotatedSpread (spreadNode annotatedSpread) rfl
    (by decide)).mpr (Or.inr (by decide))⟩

def tabbedSpread : List UInt8 :=
  "String...\targs".toList.map fun c => c.toNat.toUInt8

theorem tabbedSpread_differs :
    hides (· == ',') 0 ((spreadNode tabbedSpread).chars tabbedSpread) = true ∧
      parameter? tabbedSpread (spreadNode tabbedSpread) = none ∧
      parameters .java ((spreadNode tabbedSpread).chars tabbedSpread) = [⟨"args", "String..."⟩] := by
  decide

end MethodFlow.Tree
