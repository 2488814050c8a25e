import MethodFlow.Header.Parameters
import MethodFlow.Proofs.Text.Word
import Mathlib.Data.List.Induction

/-!
Items of a list between separators outside of brackets. A text is cut at the separators that stand
at bracket depth zero, and so a text in which all of them stand deeper is one item.
-/
namespace MethodFlow.Header

open Text

section Depth

def depthThrough (depth : Nat) (text : List Char) : Nat :=
  text.foldl depthAfter depth

@[simp] theorem depthThrough_nil (depth : Nat) : depthThrough depth [] = depth :=
  rfl

@[simp] theorem depthThrough_cons (depth : Nat) (c : Char) (text : List Char) :
    depthThrough depth (c :: text) = depthThrough (depthAfter depth c) text :=
  rfl

@[simp] theorem depthThrough_append (depth : Nat) (left right : List Char) :
    depthThrough depth (left ++ right) = depthThrough (depthThrough depth left) right :=
  List.foldl_append

def isBracket (c : Char) : Bool :=
  opensBracket c || closesBracket c

theorem depthAfter_plain {c : Char} (plain : isBracket c = false) (depth : Nat) :
    depthAfter depth c = depth := by
  rw [isBracket, Bool.or_eq_false_iff] at plain
  simp [depthAfter, plain.1, plain.2]

theorem depthThrough_plain {text : List Char} (plain : ∀ c ∈ text, isBracket c = false)
    (depth : Nat) : depthThrough depth text = depth := by
  induction text with
  | nil => rfl
  | cons c text ih =>
      rw [depthThrough_cons, depthAfter_plain (plain c List.mem_cons_self)]
      exact ih fun d member => plain d (List.mem_cons_of_mem c member)

theorem isBracket_of_isBlank {c : Char} (blank : isBlank c = true) : isBracket c = false := by
  rw [Bool.eq_false_iff]
  intro bracket
  simp only [isBracket, opensBracket, closesBracket, Bool.or_eq_true, beq_iff_eq] at bracket
  rcases bracket with ((rfl | rfl) | rfl) | ((rfl | rfl) | rfl)
  all_goals cases blank

end Depth

section Hiding

variable (separator : Char → Bool)

/-- Whether a text that begins at this depth has all its separators in brackets. -/
def hides : (depth : Nat) → List Char → Bool
  | _, [] => true
  | depth, c :: text =>
    !(separator c && depthAfter depth c == 0) && hides (depthAfter depth c) text

@[simp] theorem hides_nil (depth : Nat) : hides separator depth [] = true :=
  rfl

@[simp] theorem hides_cons (depth : Nat) (c : Char) (text : List Char) :
    hides separator depth (c :: text) =
      (!(separator c && depthAfter depth c == 0) &&
        hides separator (depthAfter depth c) text) :=
  rfl

@[simp] theorem hides_append (depth : Nat) (left right : List Char) :
    hides separator depth (left ++ right) =
      (hides separator depth left && hides separator (depthThrough depth left) right) := by
  induction left generalizing depth with
  | nil => simp
  | cons c left ih => simp [ih, Bool.and_assoc]

variable {separator}

theorem hides_of_none {text : List Char} (none : ∀ c ∈ text, separator c = false) (depth : Nat) :
    hides separator depth text = true := by
  induction text generalizing depth with
  | nil => rfl
  | cons c text ih =>
      rw [hides_cons, none c List.mem_cons_self]
      exact ih (fun d member => none d (List.mem_cons_of_mem c member)) _

theorem exists_exposed {depth : Nat} {text : List Char}
    (exposed : hides separator depth text = false) :
    ∃ before c after, text = before ++ c :: after ∧ hides separator depth before = true ∧
      separator c = true ∧ depthAfter (depthThrough depth before) c = 0 := by
  induction text generalizing depth with
  | nil => cases exposed
  | cons c text ih =>
      cases here : separator c && depthAfter depth c == 0 with
      | true =>
          rw [Bool.and_eq_true, beq_iff_eq] at here
          exact ⟨[], c, text, rfl, rfl, here.1, here.2⟩
      | false =>
          have later : hides separator (depthAfter depth c) text = false := by
            rwa [hides_cons, here] at exposed
          obtain ⟨before, d, after, rfl, hidden, separates, outside⟩ := ih later
          refine ⟨c :: before, d, after, rfl, ?_, separates, outside⟩
          rw [hides_cons, here, hidden]
          rfl

end Hiding

section Enclosure

/-- From this level on, brackets are closed in the text and its commas stand in brackets. -/
def IsEnclosed (level : Nat) (text : List Char) : Prop :=
  ∀ depth, level ≤ depth → depthThrough depth text = depth ∧ hides (· == ',') depth text = true

variable {level : Nat} {left right : List Char}

theorem isEnclosed_nil (level : Nat) : IsEnclosed level [] :=
  fun _ _ => ⟨rfl, rfl⟩

theorem isEnclosed_plain {text : List Char} (plain : ∀ c ∈ text, isBracket c = false)
    (none : ',' ∉ text) (level : Nat) : IsEnclosed level text := by
  intro depth _
  refine ⟨depthThrough_plain plain depth, hides_of_none (fun c member => ?_) depth⟩
  exact beq_eq_false_iff_ne.mpr fun same => none (same ▸ member)

theorem isEnclosed_comma : IsEnclosed 1 [','] := by
  intro depth inside
  have deep : depth ≠ 0 := by omega
  exact ⟨rfl, by simp [depthAfter, opensBracket, closesBracket, deep]⟩

theorem IsEnclosed.raise {higher : Nat} (balanced : IsEnclosed level left)
    (above : level ≤ higher) : IsEnclosed higher left :=
  fun depth inside => balanced depth (above.trans inside)

theorem IsEnclosed.append (first : IsEnclosed level left) (second : IsEnclosed level right) :
    IsEnclosed level (left ++ right) := by
  intro depth inside
  obtain ⟨closed, hidden⟩ := first depth inside
  obtain ⟨closedAfter, hiddenAfter⟩ := second depth inside
  rw [depthThrough_append, hides_append, closed, hidden, hiddenAfter]
  exact ⟨closedAfter, rfl⟩

theorem closesBracket_of_opensBracket {c : Char} (opens : opensBracket c = true) :
    closesBracket c = false := by
  simp only [opensBracket, Bool.or_eq_true, beq_iff_eq] at opens
  rcases opens with (rfl | rfl) | rfl
  all_goals rfl

theorem depthAfter_opening {c : Char} (opens : opensBracket c = true) (depth : Nat) :
    depthAfter depth c = depth + 1 := by
  simp [depthAfter, opens]

theorem depthAfter_closing {c : Char} (closes : closesBracket c = true) (depth : Nat) :
    depthAfter depth c = depth - 1 := by
  have other : opensBracket c = false := by
    rw [Bool.eq_false_iff]
    intro opens
    rw [closesBracket_of_opensBracket opens] at closes
    cases closes
  simp [depthAfter, other, closes]

theorem IsEnclosed.between {opening closing : Char} (opens : opensBracket opening = true)
    (closes : closesBracket closing = true) (inside : IsEnclosed (level + 1) left) :
    IsEnclosed level (opening :: (left ++ [closing])) := by
  intro depth above
  obtain ⟨closed, hidden⟩ := inside (depth + 1) (by omega)
  have opened : (opening == ',') = false := by
    rw [beq_eq_false_iff_ne]
    rintro rfl
    cases opens
  have ended : (closing == ',') = false := by
    rw [beq_eq_false_iff_ne]
    rintro rfl
    cases closes
  constructor
  · rw [depthThrough_cons, depthAfter_opening opens, depthThrough_append, closed,
      depthThrough_cons, depthAfter_closing closes]
    rfl
  · rw [hides_cons, depthAfter_opening opens, hides_append, hidden, opened, hides_cons, ended]
    rfl

theorem IsEnclosed.enclose (inside : IsEnclosed (level + 1) left) :
    IsEnclosed level ('<' :: (left ++ ['>'])) :=
  inside.between rfl rfl

end Enclosure

section Balance

/-- No bracket is closed before one is opened, and all are closed in the end. One bracket is as good
as another. -/
structure BracketsMatch (text : List Char) : Prop where
  opened : ∀ front, front <+: text → front.countP closesBracket ≤ front.countP opensBracket
  closed : text.countP opensBracket = text.countP closesBracket

variable {text : List Char}

theorem depthThrough_add_countP {depth : Nat} (opened : ∀ front, front <+: text →
      front.countP closesBracket ≤ depth + front.countP opensBracket) :
    depthThrough depth text + text.countP closesBracket = depth + text.countP opensBracket := by
  -- From the right, since the condition is one on the fronts of the text.
  induction text using List.reverseRecOn with
  | nil => rfl
  | append_singleton text c ih =>
      have before := ih fun front shorter => opened front (shorter.trans (List.prefix_append _ _))
      have whole := opened (text ++ [c]) List.prefix_rfl
      rw [List.countP_append, List.countP_append, List.countP_singleton, List.countP_singleton]
        at whole
      rw [depthThrough_append, depthThrough_cons, depthThrough_nil, List.countP_append,
        List.countP_append, List.countP_singleton, List.countP_singleton]
      cases opens : opensBracket c with
      | true =>
          rw [depthAfter_opening opens, closesBracket_of_opensBracket opens]
          simp only [Bool.false_eq_true, if_true, if_false]
          omega
      | false =>
          cases closes : closesBracket c with
          | true =>
              rw [opens, closes] at whole
              rw [depthAfter_closing closes]
              simp only [Bool.false_eq_true, if_true, if_false] at whole ⊢
              omega
          | false =>
              rw [depthAfter_plain (by rw [isBracket, opens, closes]; rfl)]
              simpa using before

theorem BracketsMatch.depthThrough_front (balanced : BracketsMatch text) {front : List Char}
    (shorter : front <+: text) (depth : Nat) :
    depthThrough depth front + front.countP closesBracket = depth + front.countP opensBracket :=
  depthThrough_add_countP fun part inside =>
    (balanced.opened part (inside.trans shorter)).trans (Nat.le_add_left _ _)

theorem BracketsMatch.depthThrough_eq (balanced : BracketsMatch text) (depth : Nat) :
    depthThrough depth text = depth := by
  have whole := balanced.depthThrough_front List.prefix_rfl depth
  rw [balanced.closed] at whole
  omega

theorem BracketsMatch.isEnclosed (balanced : BracketsMatch text) : IsEnclosed 1 text := by
  intro depth inside
  refine ⟨balanced.depthThrough_eq depth, ?_⟩
  by_contra exposed
  obtain ⟨before, c, after, split, -, -, outside⟩ := exists_exposed (Bool.eq_false_iff.mpr exposed)
  have shorter : before ++ [c] <+: text := ⟨after, by rw [split]; simp⟩
  have level := balanced.depthThrough_front shorter depth
  have opened := balanced.opened (before ++ [c]) shorter
  rw [depthThrough_append, depthThrough_cons, outside, depthThrough_nil] at level
  omega

theorem BracketsMatch.isEnclosed_of_hides (balanced : BracketsMatch text)
    (hidden : hides (· == ',') 0 text = true) : IsEnclosed 0 text := by
  intro depth _
  rcases Nat.eq_zero_or_pos depth with rfl | inside
  · exact ⟨balanced.depthThrough_eq 0, hidden⟩
  · exact balanced.isEnclosed depth inside

end Balance

section Splitting

variable {separator : Char → Bool} {depth : Nat} {item : List Char}

theorem topLevelPieces_ne_nil (separator : Char → Bool) (depth : Nat) (text : List Char) :
    topLevelPieces separator depth text ≠ [] := by
  cases text with
  | nil => simp [topLevelPieces]
  | cons c text =>
      rw [topLevelPieces]
      split
      · simp
      · split <;> simp

theorem topLevelPieces_append (hidden : hides separator depth item = true) (text : List Char) :
    topLevelPieces separator depth (item ++ text) =
      (topLevelPieces separator (depthThrough depth item) text).modifyHead (item ++ ·) := by
  induction item generalizing depth with
  | nil =>
      change _ = (topLevelPieces separator depth text).modifyHead id
      rw [List.modifyHead_id]
      rfl
  | cons c item ih =>
      rw [hides_cons, Bool.and_eq_true, Bool.not_eq_true'] at hidden
      rw [List.cons_append, topLevelPieces, if_neg (by simp [hidden.1]), ih hidden.2,
        depthThrough_cons]
      cases parts : topLevelPieces separator (depthThrough (depthAfter depth c) item) text with
      | nil => exact absurd parts (topLevelPieces_ne_nil _ _ _)
      | cons piece rest => rfl

theorem topLevelPieces_single (hidden : hides separator depth item = true) :
    topLevelPieces separator depth item = [item] := by
  have whole := topLevelPieces_append hidden []
  rw [List.append_nil] at whole
  rw [whole]
  simp [topLevelPieces]

theorem topLevelPieces_cut (hidden : hides separator depth item = true) {c : Char}
    (separates : separator c = true) (outside : depthAfter (depthThrough depth item) c = 0)
    (text : List Char) :
    topLevelPieces separator depth (item ++ c :: text) =
      item :: topLevelPieces separator 0 text := by
  rw [topLevelPieces_append hidden, topLevelPieces, outside, if_pos (by simp [separates])]
  simp

theorem splitTopLevel_single (hidden : hides separator 0 item = true)
    (visible : trim item ≠ []) : splitTopLevel separator item = [trim item] := by
  rw [splitTopLevel, topLevelPieces_single hidden]
  simp [visible]

theorem splitTopLevel_append (hidden : hides separator 0 item = true) {c : Char}
    (separates : separator c = true) (outside : depthAfter (depthThrough 0 item) c = 0)
    (text : List Char) :
    splitTopLevel separator (item ++ c :: text) =
      splitTopLevel separator item ++ splitTopLevel separator text := by
  simp only [splitTopLevel, topLevelPieces_cut hidden separates outside,
    topLevelPieces_single hidden, ← List.filter_append, ← List.map_append]
  rfl

theorem parameters_append (dialect : Dialect) (hidden : hides (· == ',') 0 item = true)
    (outside : depthThrough 0 item = 0) (text : List Char) :
    parameters dialect (item ++ ',' :: text) = parameters dialect item ++ parameters dialect text := by
  have bottom : depthAfter (depthThrough 0 item) ',' = 0 := by
    rw [outside]
    rfl
  rw [parameters, splitCommas, splitTopLevel_append hidden rfl bottom, List.filterMap_append]
  rfl

theorem splitTopLevel_blank {c : Char} (blank : isBlank c = true) (other : separator c = false)
    (text : List Char) : splitTopLevel separator (c :: text) = splitTopLevel separator text := by
  have plain := depthAfter_plain (isBracket_of_isBlank blank) 0
  rw [splitTopLevel, splitTopLevel, topLevelPieces, plain, if_neg (by simp [other])]
  cases parts : topLevelPieces separator 0 text with
  | nil => exact absurd parts (topLevelPieces_ne_nil _ _ _)
  | cons piece rest =>
      have same : trim (c :: piece) = trim piece := by
        rw [trim, trimLeft, List.dropWhile_cons_of_pos blank]
        rfl
      rw [List.map_cons, List.map_cons, same]

def commaList (items : List (List Char)) : List Char :=
  [',', ' '].intercalate items

@[simp] theorem commaList_singleton (item : List Char) : commaList [item] = item := by
  simp [commaList]

theorem commaList_cons_cons (item next : List Char) (items : List (List Char)) :
    commaList (item :: next :: items) = item ++ ',' :: ' ' :: commaList (next :: items) := by
  simp [commaList, List.intercalate_cons_cons]

theorem commaList_of_items {motive : List Char → Prop}
    (comma : ∀ {left right}, motive left → motive right → motive (left ++ ',' :: ' ' :: right))
    {items : List (List Char)} (nonempty : items ≠ []) (inside : ∀ item ∈ items, motive item) :
    motive (commaList items) := by
  induction items with
  | nil => exact absurd rfl nonempty
  | cons item items ih =>
      obtain ⟨first, others⟩ := List.forall_mem_cons.mp inside
      cases items with
      | nil =>
          rw [commaList_singleton]
          exact first
      | cons next items =>
          rw [commaList_cons_cons]
          exact comma first (ih (List.cons_ne_nil next items) others)

theorem splitCommas_commaList {items : List (List Char)}
    (enclosed : ∀ item ∈ items, IsEnclosed 0 item) (visible : ∀ item ∈ items, trim item ≠ []) :
    splitCommas (commaList items) = items.map trim := by
  induction items with
  | nil => rfl
  | cons item items ih =>
      obtain ⟨closed, hidden⟩ := enclosed item List.mem_cons_self 0 (Nat.le_refl 0)
      have first : splitCommas item = [trim item] :=
        splitTopLevel_single hidden (visible item List.mem_cons_self)
      have others := ih (fun other member => enclosed other (List.mem_cons_of_mem item member))
        fun other member => visible other (List.mem_cons_of_mem item member)
      cases items with
      | nil =>
          rw [commaList_singleton]
          exact first
      | cons next items =>
          have bottom : depthAfter (depthThrough 0 item) ',' = 0 := by
            rw [closed]
            rfl
          rw [splitCommas] at first others ⊢
          rw [commaList_cons_cons, splitTopLevel_append hidden rfl bottom,
            splitTopLevel_blank (by decide) rfl, first, others]
          rfl

end Splitting

end MethodFlow.Header
