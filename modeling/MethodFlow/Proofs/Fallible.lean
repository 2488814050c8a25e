import Mathlib.Control.Monad.Basic

/-!
Computations that may fail: what their steps do if the whole gives a value or an error, and that
they give a value (`Yields`).
-/
namespace MethodFlow

section Steps

variable {ε α β : Type} {first : Except ε α} {next : α → Except ε β}

theorem bind_eq_ok {value : β} :
    first >>= next = .ok value ↔ ∃ between, first = .ok between ∧ next between = .ok value := by
  cases first with
  | error failure => simp [bind, Except.bind]
  | ok between => simp [bind, Except.bind]

theorem bind_eq_error {failure : ε} :
    first >>= next = .error failure ↔
      first = .error failure ∨
        ∃ between, first = .ok between ∧ next between = .error failure := by
  cases first with
  | error other => simp [bind, Except.bind]
  | ok between => simp [bind, Except.bind]

theorem bind_congr_ok {next' : α → Except ε β}
    (same : ∀ value, first = .ok value → next value = next' value) :
    first >>= next = first >>= next' := by
  cases first with
  | error failure => rfl
  | ok value => exact same value rfl

end Steps

/-- That a computation gives a value, and what holds of it. -/
def Yields {ε α : Type} (holds : α → Prop) (computed : Except ε α) : Prop :=
  ∃ value, computed = .ok value ∧ holds value

namespace Yields

variable {ε α β : Type} {holds : α → Prop} {result : β → Prop}

theorem ok {value : α} (held : holds value) : Yields holds (.ok value : Except ε α) :=
  ⟨value, rfl, held⟩

theorem bind {first : Except ε α} {next : α → Except ε β} (yields : Yields holds first)
    (continues : ∀ value, holds value → Yields result (next value)) :
    Yields result (first >>= next) := by
  obtain ⟨value, given, held⟩ := yields
  rw [given]
  exact continues value held

theorem map {first : Except ε α} {change : α → β} (yields : Yields holds first)
    (changes : ∀ value, holds value → result (change value)) :
    Yields result (change <$> first) := by
  obtain ⟨value, given, held⟩ := yields
  rw [given]
  exact ⟨change value, rfl, changes value held⟩

theorem mapError {δ : Type} {first : Except ε α} (yields : Yields holds first) (change : ε → δ) :
    Yields holds (first.mapError change) := by
  obtain ⟨value, given, held⟩ := yields
  rw [given]
  exact ok held

theorem none : Yields (∀ value ∈ ·, holds value) (.ok [] : Except ε (List α)) :=
  ok fun _ member => nomatch member

theorem mapM {read : α → Except ε β} {items : List α}
    (each : ∀ item ∈ items, Yields result (read item)) :
    Yields (fun values => ∀ value ∈ values, result value) (items.mapM read) := by
  induction items with
  | nil => exact none
  | cons item items ih =>
      rw [List.mapM_cons]
      apply (each item List.mem_cons_self).bind
      intro value held
      apply (ih fun other member => each other (List.mem_cons_of_mem _ member)).bind
      intro values rest
      exact ok (List.forall_mem_cons.mpr ⟨held, rest⟩)

theorem append {first second : Except ε (List α)} (yields : Yields (∀ value ∈ ·, holds value) first)
    (later : Yields (∀ value ∈ ·, holds value) second) :
    Yields (∀ value ∈ ·, holds value) (do return (← first) ++ (← second)) := by
  apply yields.bind
  intro values held
  apply later.bind
  intro others othersHeld
  exact ok (List.forall_mem_append.mpr ⟨held, othersHeld⟩)

end Yields

theorem mapM_total {ε α β : Type} {read : α → Except ε β} {items : List α}
    (total : ∀ item ∈ items, ∃ value, read item = .ok value) :
    ∃ values, items.mapM read = .ok values := by
  have each : ∀ item ∈ items, Yields (fun _ => True) (read item) := by
    intro item member
    obtain ⟨value, given⟩ := total item member
    exact ⟨value, given, trivial⟩
  obtain ⟨values, given, -⟩ := Yields.mapM each
  exact ⟨values, given⟩

end MethodFlow
