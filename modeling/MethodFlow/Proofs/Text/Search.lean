import MethodFlow.Text.Search
import Mathlib.Data.List.Basic

/-!
What a search through a text finds, for any reader that takes something where it reads: places that
read, from left to right and without overlap (`findAll_reads`, `findAll_ordered`), and every place
that reads begins in one of them (`exists_findAll_covers`). More text behind a text leaves alone what
is found in it, where it leaves the readings alone (`findAllFrom_append`).
-/
namespace MethodFlow.Text

theorem after?_eq_some_iff {word text rest : List Char} :
    after? word text = some rest ↔ text = word ++ rest := by
  induction word generalizing text with
  | nil => simp [after?, eq_comm]
  | cons w word ih =>
      cases text with
      | nil => simp [after?]
      | cons c text =>
          by_cases same : w = c
          · simp [after?, same, ih]
          · simp [after?, same, Ne.symm same]

variable {α : Type} {read? : Option Char → List Char → Option (α × Nat)}

def ReadsIn (read? : Option Char → List Char → Option (α × Nat)) (text : List Char)
    (found : Found α) : Prop :=
  ∃ left rest, text = left ++ rest ∧ found.start = left.length ∧ found.before = left.getLast? ∧
    read? found.before rest = some (found.value, found.length)

/-- The places are those with a property, each of them once, from left to right and without
overlap. -/
structure Enumerates (places : List (Found α)) (stands : Found α → Prop) : Prop where
  ordered : places.Pairwise fun found later => found.start < later.start ∧ found.stop ≤ later.start
  mem_iff : ∀ found, found ∈ places ↔ stands found

theorem ReadsIn.eq_of_start {text : List Char} {found other : Found α}
    (reads : ReadsIn read? text found) (readsOther : ReadsIn read? text other)
    (same : found.start = other.start) : found = other := by
  obtain ⟨left, rest, split, start, before, read⟩ := reads
  obtain ⟨left', rest', split', start', before', read'⟩ := readsOther
  obtain ⟨rfl, rfl⟩ : left = left' ∧ rest = rest' :=
    List.append_inj (split.symm.trans split') (by omega)
  rw [before] at read
  rw [before', read] at read'
  obtain ⟨value, start, length, before⟩ := found
  obtain ⟨value', start', length', before'⟩ := other
  simp_all

def Advances (read? : Option Char → List Char → Option (α × Nat)) : Prop :=
  ∀ before text value length, read? before text = some (value, length) →
    text ≠ [] ∧ 0 < length

theorem ReadsIn.start_lt_stop (advances : Advances read?) {text : List Char} {found : Found α}
    (reads : ReadsIn read? text found) : found.start < found.stop := by
  obtain ⟨left, rest, -, -, -, read⟩ := reads
  exact Nat.lt_add_of_pos_right (advances _ _ _ _ read).2

section From

theorem findAllFrom_next (passed : List Char) (c : Char) (skip : Nat) (text : List Char) :
    findAllFrom read? (passed.length + 1) skip (some c) text =
      findAllFrom read? (passed ++ [c]).length skip (passed ++ [c]).getLast? text := by
  simp

theorem findAllFrom_reads (passed text : List Char) (skip : Nat) {found : Found α}
    (member : found ∈ findAllFrom read? passed.length skip passed.getLast? text) :
    ReadsIn read? (passed ++ text) found ∧ passed.length + skip ≤ found.start := by
  induction text generalizing passed skip with
  | nil => simp at member
  | cons c text ih =>
      rw [List.append_cons]
      have further (skip : Nat)
          (member : found ∈ findAllFrom read? (passed.length + 1) skip (some c) text) :
          ReadsIn read? (passed ++ [c] ++ text) found ∧ passed.length + 1 + skip ≤ found.start := by
        rw [findAllFrom_next] at member
        have later := ih _ _ member
        rwa [List.length_append, List.length_singleton] at later
      cases skip with
      | succ skip =>
          obtain ⟨reads, bound⟩ := further skip member
          exact ⟨reads, by omega⟩
      | zero =>
          rw [findAllFrom] at member
          split at member
          · rename_i value length read
            rcases List.mem_cons.mp member with rfl | member
            · exact ⟨⟨passed, c :: text, by simp, rfl, rfl, read⟩, by simp⟩
            · obtain ⟨reads, bound⟩ := further _ member
              exact ⟨reads, by omega⟩
          · obtain ⟨reads, bound⟩ := further 0 member
            exact ⟨reads, by omega⟩

theorem findAllFrom_pairwise (passed text : List Char) (skip : Nat) :
    (findAllFrom read? passed.length skip passed.getLast? text).Pairwise
      fun found later => found.stop ≤ later.start := by
  induction text generalizing passed skip with
  | nil => exact .nil
  | cons c text ih =>
      cases skip with
      | succ skip =>
          rw [findAllFrom, findAllFrom_next]
          exact ih _ _
      | zero =>
          rw [findAllFrom]
          split
          · rename_i value length read
            rw [findAllFrom_next]
            refine .cons (fun later member => ?_) (ih _ _)
            have bound := (findAllFrom_reads _ _ _ member).2
            rw [List.length_append, List.length_singleton] at bound
            show passed.length + length ≤ later.start
            omega
          · rw [findAllFrom_next]
            exact ih _ _

theorem exists_findAllFrom_covers (advances : Advances read?) (passed text : List Char) (skip : Nat)
    {found : Found α} (reads : ReadsIn read? (passed ++ text) found)
    (ahead : passed.length + skip ≤ found.start) :
    ∃ other ∈ findAllFrom read? passed.length skip passed.getLast? text,
      other.start ≤ found.start ∧ found.start < other.stop := by
  induction text generalizing passed skip with
  | nil =>
      obtain ⟨left, rest, split, start, -, read⟩ := reads
      have proper := List.length_pos_iff.mpr (advances _ _ _ _ read).1
      have lengths := congrArg List.length split
      simp only [List.length_append, List.length_nil] at lengths
      omega
  | cons c text ih =>
      rw [List.append_cons] at reads
      have further {skip : Nat} (ahead : passed.length + 1 + skip ≤ found.start) :
          ∃ other ∈ findAllFrom read? (passed.length + 1) skip (some c) text,
            other.start ≤ found.start ∧ found.start < other.stop := by
        rw [findAllFrom_next]
        exact ih _ _ reads (by simpa using ahead)
      cases skip with
      | succ skip => exact further (by omega)
      | zero =>
          rw [findAllFrom]
          split
          · -- What is read here covers the places that are skipped, and no others.
            rename_i value length read
            have taken := (advances _ _ _ _ read).2
            by_cases inside : found.start < passed.length + length
            · exact ⟨_, List.mem_cons_self, by simpa using ahead, inside⟩
            · obtain ⟨other, member, covers⟩ := @further (length - 1) (by omega)
              exact ⟨other, List.mem_cons_of_mem _ member, covers⟩
          · rename_i unread
            refine further ?_
            by_contra early
            obtain ⟨left, rest, split, start, before, read⟩ := reads
            have here : passed.length = left.length := by omega
            rw [← List.append_cons] at split
            obtain ⟨rfl, rfl⟩ := List.append_inj split here
            rw [before, unread] at read
            cases read

/-- What is found in a text is found in it with more text after it, if the readings stay the same.
What is found in the rest comes after that. -/
theorem findAllFrom_append {more : List Char}
    (bounded : ∀ before text value length, read? before text = some (value, length) →
      length ≤ text.length)
    (unaffected : ∀ before c text, read? before (c :: text ++ more) = read? before (c :: text))
    (passed text : List Char) (skip : Nat) (inside : skip ≤ text.length) :
    findAllFrom read? passed.length skip passed.getLast? (text ++ more) =
      findAllFrom read? passed.length skip passed.getLast? text ++
        findAllFrom read? (passed ++ text).length 0 (passed ++ text).getLast? more := by
  induction text generalizing passed skip with
  | nil =>
      obtain rfl := Nat.le_zero.mp inside
      rw [List.append_nil]
      rfl
  | cons c text ih =>
      have further (skip : Nat) (inside : skip ≤ text.length) :
          findAllFrom read? (passed.length + 1) skip (some c) (text ++ more) =
            findAllFrom read? (passed.length + 1) skip (some c) text ++
              findAllFrom read? (passed ++ c :: text).length 0 (passed ++ c :: text).getLast?
                more := by
        rw [findAllFrom_next, findAllFrom_next, List.append_cons passed c text]
        exact ih _ _ inside
      cases skip with
      | succ skip => exact further skip (Nat.le_of_succ_le_succ inside)
      | zero =>
          have same := unaffected passed.getLast? c text
          rw [List.cons_append] at same ⊢
          rw [findAllFrom, findAllFrom, same]
          split
          · rename_i value length read
            have bound := bounded _ _ _ _ read
            rw [List.length_cons] at bound
            rw [further (length - 1) (by omega), List.cons_append]
          · exact further 0 (Nat.zero_le _)

theorem filterMap_findAllFrom {β : Type} {f : Found α → Option β}
    (still : ∀ value start start' length before,
      f ⟨value, start, length, before⟩ = f ⟨value, start', length, before⟩)
    (position position' skip : Nat) (before : Option Char) (text : List Char) :
    (findAllFrom read? position skip before text).filterMap f =
      (findAllFrom read? position' skip before text).filterMap f := by
  induction text generalizing position position' skip before with
  | nil => rfl
  | cons c text ih =>
      cases skip with
      | succ skip => exact ih _ _ _ _
      | zero =>
          rw [findAllFrom, findAllFrom]
          split
          · rename_i value length read
            rw [List.filterMap_cons, List.filterMap_cons, still value position position',
              ih (position + 1) (position' + 1)]
          · exact ih _ _ _ _

end From

theorem findAll_reads {text : List Char} {found : Found α} (member : found ∈ findAll read? text) :
    ReadsIn read? text found :=
  (findAllFrom_reads [] text 0 member).1

theorem findAll_pairwise (text : List Char) :
    (findAll read? text).Pairwise fun found later => found.stop ≤ later.start :=
  findAllFrom_pairwise [] text 0

theorem findAll_ordered (advances : Advances read?) (text : List Char) :
    (findAll read? text).Pairwise fun found later =>
      found.start < later.start ∧ found.stop ≤ later.start := by
  refine (findAll_pairwise text).imp_of_mem fun member _ ordered => ⟨?_, ordered⟩
  exact Nat.lt_of_lt_of_le ((findAll_reads member).start_lt_stop advances) ordered

theorem exists_findAll_covers (advances : Advances read?) {text : List Char} {found : Found α}
    (reads : ReadsIn read? text found) :
    ∃ other ∈ findAll read? text, other.start ≤ found.start ∧ found.start < other.stop :=
  exists_findAllFrom_covers advances [] text 0 reads (Nat.zero_le _)

end MethodFlow.Text
