import MethodFlow.Proofs.Header.Items
import Mathlib.Data.List.Infix

/-!
Lists that are split at a separator outside of brackets. Items that keep the separator in brackets
are joined and split again without a loss, and of any text, whether its brackets match or not, only
blanks and the separators outside of brackets are lost (`splitTopLevel_laws`).
-/
namespace MethodFlow.Header

open Text

section Outside

/-- No bracket is open behind a text: no end of it opens more brackets than it closes. -/
def IsOutside (text : List Char) : Prop :=
  ∀ part, part <:+ text → part.countP opensBracket ≤ part.countP closesBracket

instance (text : List Char) : Decidable (IsOutside text) :=
  decidable_of_iff
    (∀ part ∈ text.tails, part.countP opensBracket ≤ part.countP closesBracket)
    ⟨fun checked part ending => checked part ((List.mem_tails _ _).mpr ending),
      fun outside part member => outside part ((List.mem_tails _ _).mp member)⟩

/-- The bracket depth is what the best end of the text opens more than it closes. -/
theorem depthThrough_le_iff (text : List Char) (bound : Nat) :
    depthThrough 0 text ≤ bound ↔
      ∀ part, part <:+ text → part.countP opensBracket ≤ part.countP closesBracket + bound := by
  -- From the right, since the condition is one on the ends of the text.
  induction text using List.reverseRecOn generalizing bound with
  | nil => simp
  | append_singleton text c ih =>
      have ends (holds : List Char → Prop) :
          (∀ part, part <:+ text ++ [c] → holds part) ↔
            holds [] ∧ ∀ part, part <:+ text → holds (part ++ [c]) := by
        simp only [List.suffix_concat_iff]
        constructor
        · intro all
          exact ⟨all [] (.inl rfl), fun part inside => all _ (.inr ⟨part, rfl, inside⟩)⟩
        · rintro ⟨empty, longer⟩ part (rfl | ⟨front, rfl, inside⟩)
          · exact empty
          · exact longer front inside
      rw [ends, depthThrough_append, depthThrough_cons, depthThrough_nil]
      simp only [List.countP_append, List.countP_singleton, List.countP_nil, Nat.zero_add,
        Nat.zero_le, true_and]
      cases opens : opensBracket c with
      | true =>
          rw [depthAfter_opening opens, closesBracket_of_opensBracket opens]
          simp only [if_true, Bool.false_eq_true, if_false, Nat.add_zero]
          cases bound with
          | zero =>
              refine iff_of_false (Nat.not_succ_le_zero _) fun all => ?_
              exact absurd (all [] List.nil_suffix) (by simp)
          | succ bound =>
              rw [Nat.add_le_add_iff_right, ih]
              refine forall_congr' fun part => imp_congr_right fun _ => ?_
              omega
      | false =>
          cases closes : closesBracket c with
          | true =>
              rw [depthAfter_closing closes, Nat.sub_le_iff_le_add, ih]
              refine forall_congr' fun part => imp_congr_right fun _ => ?_
              simp only [if_true, Bool.false_eq_true, if_false]
              omega
          | false =>
              rw [depthAfter_plain (by rw [isBracket, opens, closes]; rfl), ih]
              simp only [Bool.false_eq_true, if_false, Nat.add_zero]

theorem depthThrough_eq_zero_iff (text : List Char) : depthThrough 0 text = 0 ↔ IsOutside text := by
  rw [← Nat.le_zero, depthThrough_le_iff]
  rfl

/-- A text without its separators outside of brackets, behind the text `before`. -/
def withoutOutside (separator : Char) : (before : List Char) → List Char → List Char
  | _, [] => []
  | before, c :: text =>
    if c = separator ∧ IsOutside (before ++ [c]) then withoutOutside separator (before ++ [c]) text
    else c :: withoutOutside separator (before ++ [c]) text

theorem flatten_topLevelPieces (separator : Char) (before text : List Char) :
    (topLevelPieces (· == separator) (depthThrough 0 before) text).flatten =
      withoutOutside separator before text := by
  induction text generalizing before with
  | nil => rfl
  | cons c text ih =>
      have depth : depthAfter (depthThrough 0 before) c = depthThrough 0 (before ++ [c]) := by simp
      have cuts : (c == separator && depthThrough 0 (before ++ [c]) == 0) = true ↔
          c = separator ∧ IsOutside (before ++ [c]) := by
        rw [Bool.and_eq_true, beq_iff_eq, beq_iff_eq, depthThrough_eq_zero_iff]
      have others := ih (before ++ [c])
      rw [topLevelPieces, depth, withoutOutside]
      by_cases cut : c = separator ∧ IsOutside (before ++ [c])
      · rw [if_pos (cuts.mpr cut), if_pos cut, List.flatten_cons, List.nil_append, others]
      · rw [if_neg (mt cuts.mp cut), if_neg cut]
        cases parts : topLevelPieces (· == separator) (depthThrough 0 (before ++ [c])) text with
        | nil => exact absurd parts (topLevelPieces_ne_nil _ _ _)
        | cons piece rest =>
            rw [parts, List.flatten_cons] at others
            rw [List.flatten_cons, List.cons_append, others]

end Outside

section Pieces

/-- An item of a list: its brackets match, and the separator stands in brackets only. -/
structure IsItem (separator : Char) (item : List Char) : Prop where
  balanced : BracketsMatch item
  enclosed : ∀ before, before ++ [separator] <+: item →
    before.countP closesBracket < before.countP opensBracket

instance (text : List Char) : Decidable (BracketsMatch text) :=
  decidable_of_iff
    ((∀ front ∈ text.inits, front.countP closesBracket ≤ front.countP opensBracket) ∧
      text.countP opensBracket = text.countP closesBracket)
    ⟨fun ⟨opened, closed⟩ =>
        ⟨fun front shorter => opened front ((List.mem_inits _ _).mpr shorter), closed⟩,
      fun balanced =>
        ⟨fun front member => balanced.opened front ((List.mem_inits _ _).mp member),
          balanced.closed⟩⟩

instance (separator : Char) (item : List Char) : Decidable (IsItem separator item) :=
  decidable_of_iff
    (BracketsMatch item ∧ ∀ front ∈ item.inits, front.getLast? = some separator →
      front.dropLast.countP closesBracket < front.dropLast.countP opensBracket)
    ⟨fun ⟨balanced, enclosed⟩ => ⟨balanced, fun before shorter => by
        simpa using enclosed _ ((List.mem_inits _ _).mpr shorter)⟩,
      fun isItem => ⟨isItem.balanced, fun front member last => by
        obtain ⟨before, rfl⟩ := List.getLast?_eq_some_iff.mp last
        simpa using isItem.enclosed before ((List.mem_inits _ _).mp member)⟩⟩

variable {separator : Char} {item : List Char}

theorem IsItem.hides (plain : isBracket separator = false) (isItem : IsItem separator item) :
    hides (· == separator) 0 item = true := by
  by_contra exposed
  obtain ⟨before, c, after, split, -, separates, outside⟩ :=
    exists_exposed (Bool.eq_false_iff.mpr exposed)
  obtain rfl : c = separator := beq_iff_eq.mp separates
  have shorter : before ++ [c] <+: item := ⟨after, by rw [split]; simp⟩
  have level := isItem.balanced.depthThrough_front ((List.prefix_append before [c]).trans shorter) 0
  rw [depthAfter_plain plain] at outside
  have inside := isItem.enclosed before shorter
  omega

theorem splitTopLevel_of_hides {separates : Char → Bool} (hidden : hides separates 0 item = true) :
    splitTopLevel separates item = ([item].map trim).filter (!·.isEmpty) := by
  rw [splitTopLevel, topLevelPieces_single hidden]

theorem splitTopLevel_intercalate (plain : isBracket separator = false) {items : List (List Char)}
    (areItems : ∀ item ∈ items, IsItem separator item) :
    splitTopLevel (· == separator) ([separator].intercalate items) =
      (items.map trim).filter (!·.isEmpty) := by
  induction items with
  | nil => rfl
  | cons item items ih =>
      obtain ⟨first, others⟩ := List.forall_mem_cons.mp areItems
      have hidden := first.hides plain
      cases items with
      | nil =>
          rw [List.intercalate_singleton]
          exact splitTopLevel_of_hides hidden
      | cons next items =>
          have bottom : depthAfter (depthThrough 0 item) separator = 0 := by
            rw [depthAfter_plain plain, first.balanced.depthThrough_eq]
          rw [List.intercalate_cons_cons, List.append_assoc, List.singleton_append,
            splitTopLevel_append hidden (beq_self_eq_true separator) bottom, ih others,
            splitTopLevel_of_hides hidden, ← List.filter_append, ← List.map_append]
          rfl

end Pieces

section Remainders

theorem filter_flatten_trimmed (pieces : List (List Char)) :
    ((pieces.map trim).filter (!·.isEmpty)).flatten.filter (!isBlank ·) =
      pieces.flatten.filter (!isBlank ·) := by
  induction pieces with
  | nil => rfl
  | cons piece pieces ih =>
      rw [List.map_cons, List.flatten_cons, List.filter_append, ← ih, ← filter_trim piece,
        List.filter_cons]
      split
      · rw [List.flatten_cons, List.filter_append]
      · rename_i blank
        have none : trim piece = [] := by simpa using blank
        rw [none]
        rfl

theorem trimmed_of_mem_splitTopLevel {separates : Char → Bool} {text piece : List Char}
    (member : piece ∈ splitTopLevel separates text) : piece ≠ [] ∧ trim piece = piece := by
  obtain ⟨listed, visible⟩ := List.mem_filter.mp member
  obtain ⟨raw, -, rfl⟩ := List.mem_map.mp listed
  exact ⟨by simpa using visible, trim_trim raw⟩

end Remainders

/-- Splitting undoes joining, and loses nothing but blanks and separators outside of brackets. -/
theorem splitTopLevel_laws (separator : Char) :
    (isBracket separator = false → ∀ items : List (List Char),
      (∀ item ∈ items, IsItem separator item) →
      splitTopLevel (· == separator) ([separator].intercalate items) =
        (items.map trim).filter (!·.isEmpty)) ∧
    ∀ text : List Char,
      (∀ piece ∈ splitTopLevel (· == separator) text, piece ≠ [] ∧ trim piece = piece) ∧
      (splitTopLevel (· == separator) text).flatten.filter (!isBlank ·) =
        (withoutOutside separator [] text).filter (!isBlank ·) := by
  refine ⟨fun plain items => splitTopLevel_intercalate plain, fun text => ⟨?_, ?_⟩⟩
  · intro piece member
    exact trimmed_of_mem_splitTopLevel member
  · rw [splitTopLevel, filter_flatten_trimmed, ← flatten_topLevelPieces]
    rfl

theorem nestedItems_split :
    let items := ["Map<K, List<V>> m".toList, " ".toList, "\tf(a, [b, c])".toList]
    let stray := "a >, b<, c".toList
    isBracket ',' = false ∧ (∀ item ∈ items, IsItem ',' item) ∧
      splitTopLevel (· == ',') ([','].intercalate items) =
        ["Map<K, List<V>> m".toList, "f(a, [b, c])".toList] ∧
      (splitTopLevel (· == ',') stray).flatten.filter (!isBlank ·) = "a>b<,c".toList := by
  intro items stray
  obtain ⟨joined, whole⟩ := splitTopLevel_laws ','
  have plain : isBracket ',' = false := by decide
  have areItems : ∀ item ∈ items, IsItem ',' item := by decide +kernel
  refine ⟨plain, areItems, (joined plain items areItems).trans (by decide +kernel), ?_⟩
  exact (whole stray).2.trans (by decide +kernel)

end MethodFlow.Header
