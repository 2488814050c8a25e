import MethodFlow.Parenthesis
import Mathlib.Data.List.Infix

/-!
Parentheses. The one that closes another is found by counting, so it is the first one that a text
with balanced parentheses stands before.
-/
namespace MethodFlow

def parenBalance (text : List Char) : Int :=
  text.count '(' - text.count ')'

/-- Whether as many parentheses are closed as opened, and in no front of the text more. -/
def IsBalanced (text : List Char) : Prop :=
  parenBalance text = 0 ∧ ∀ front, front <+: text → 0 ≤ parenBalance front

instance (text : List Char) : Decidable (IsBalanced text) :=
  decidable_of_iff (parenBalance text = 0 ∧ ∀ front ∈ text.inits, 0 ≤ parenBalance front)
    (by simp [IsBalanced])

section Balance

theorem parenBalance_append (left right : List Char) :
    parenBalance (left ++ right) = parenBalance left + parenBalance right := by
  simp only [parenBalance, List.count_append]
  omega

theorem parenBalance_cons (c : Char) (text : List Char) :
    parenBalance (c :: text) = parenBalance [c] + parenBalance text :=
  parenBalance_append [c] text

theorem parenBalance_singleton (c : Char) :
    parenBalance [c] = if c = '(' then 1 else if c = ')' then -1 else 0 := by
  by_cases opens : c = '('
  · subst opens
    decide
  · by_cases closes : c = ')'
    · subst closes
      decide
    · simp [parenBalance, opens, closes]

theorem closingOffset_step (depth : Int) (c : Char) :
    (c = ')' ∧ ∀ text, closingOffset depth (c :: text) = some 0) ∨
      ∃ next, ∀ text, closingOffset depth (c :: text) = (closingOffset next text).map (· + 1) := by
  by_cases opens : c = '('
  · exact .inr ⟨depth + 1, fun text => by rw [closingOffset, if_pos opens]⟩
  · by_cases closes : c = ')'
    · by_cases last : depth = 1
      · exact .inl ⟨closes, fun text => by
          rw [closingOffset, if_neg opens, if_pos closes, if_pos last]⟩
      · exact .inr ⟨depth - 1, fun text => by
          rw [closingOffset, if_neg opens, if_pos closes, if_neg last]⟩
    · exact .inr ⟨depth, fun text => by rw [closingOffset, if_neg opens, if_neg closes]⟩

theorem closingOffset_cons {depth : Int} {c : Char} (held : 1 ≤ depth + parenBalance [c])
    (text : List Char) :
    closingOffset depth (c :: text) =
      (closingOffset (depth + parenBalance [c]) text).map (· + 1) := by
  rw [parenBalance_singleton] at held ⊢
  rw [closingOffset]
  split
  · rfl
  · rename_i other
    rw [if_neg other] at held
    split
    · rename_i closes
      rw [if_pos closes] at held
      rw [if_neg (by omega)]
      rfl
    · rw [Int.add_zero]

theorem closingOffset_append {depth : Int} {inside : List Char}
    (held : ∀ front, front <+: inside → 1 ≤ depth + parenBalance front) (rest : List Char) :
    closingOffset depth (inside ++ rest) =
      (closingOffset (depth + parenBalance inside) rest).map (· + inside.length) := by
  induction inside generalizing depth with
  | nil => simp [parenBalance]
  | cons c inside ih =>
      have here := held [c] (List.cons_prefix_cons.mpr ⟨rfl, List.nil_prefix⟩)
      have further : ∀ front, front <+: inside →
          1 ≤ depth + parenBalance [c] + parenBalance front := by
        intro front within
        have bound := held (c :: front) (List.cons_prefix_cons.mpr ⟨rfl, within⟩)
        rw [parenBalance_cons] at bound
        omega
      rw [List.cons_append, closingOffset_cons here, ih further, parenBalance_cons c inside,
        Option.map_map, Int.add_assoc]
      rfl

namespace IsBalanced

variable {inside : List Char} (balanced : IsBalanced inside)

include balanced

theorem held {front : List Char} (within : front <+: inside) : 1 ≤ 1 + parenBalance front := by
  have bound := balanced.2 front within
  omega

theorem closingOffset_inside (rest : List Char) :
    closingOffset 1 (inside ++ ')' :: rest) = some inside.length := by
  rw [closingOffset_append fun _ => balanced.held, balanced.1]
  simp [closingOffset]

theorem closingOffset_front {front : List Char} (within : front <+: inside) :
    closingOffset 1 front = none := by
  have whole := closingOffset_append (fun _ begins => balanced.held (begins.trans within)) []
  simpa [closingOffset] using whole

theorem closingOffset_eq (rest : List Char) :
    closingOffset 0 ('(' :: (inside ++ ')' :: rest)) = some (inside.length + 1) := by
  rw [closingOffset, if_pos rfl, Int.zero_add, balanced.closingOffset_inside]
  rfl

end IsBalanced

end Balance

end MethodFlow
