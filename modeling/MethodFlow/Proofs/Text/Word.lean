import MethodFlow.Text.Blank
import MethodFlow.Text.Alphanumeric
import Mathlib.Data.List.TakeWhile

/-!
Word characters are no blanks. A text without blanks is trimmed as it stands, and any text keeps all
its other characters when it is trimmed.
-/
namespace MethodFlow.Text

theorem inRanges_mem {ranges : List (Nat × Nat)} {n : Nat} (inside : inRanges ranges n = true) :
    ∃ range ∈ ranges, range.1 ≤ n ∧ n ≤ range.2 := by
  induction ranges with
  | nil => cases inside
  | cons range ranges ih =>
      simp only [inRanges, Bool.and_eq_true, Bool.not_eq_true', decide_eq_false_iff_not,
        Nat.not_lt, Bool.or_eq_true, decide_eq_true_eq] at inside
      obtain ⟨first, last | later⟩ := inside
      · exact ⟨range, List.mem_cons_self, first, last⟩
      · obtain ⟨other, member, bounds⟩ := ih later
        exact ⟨other, List.mem_cons_of_mem _ member, bounds⟩

theorem blankRanges_apart : ∀ blank ∈ blankRanges, ∀ range ∈ (95, 95) :: alphanumericRanges,
    blank.2 < range.1 ∨ range.2 < blank.1 := by
  have checked : (blankRanges.all fun blank => ((95, 95) :: alphanumericRanges).all fun range =>
      Nat.blt blank.2 range.1 || Nat.blt range.2 blank.1) = true := by
    decide +kernel
  intro blank inBlank range inRange
  have apart := List.all_eq_true.mp (List.all_eq_true.mp checked blank inBlank) range inRange
  simpa [Nat.blt_eq] using apart

theorem isWord_mem_ranges {c : Char} (word : isWord c = true) :
    ∃ range ∈ (95, 95) :: alphanumericRanges, range.1 ≤ c.toNat ∧ c.toNat ≤ range.2 := by
  rcases Bool.or_eq_true_iff.mp word with underscore | alphanumeric
  · obtain rfl := beq_iff_eq.mp underscore
    exact ⟨(95, 95), List.mem_cons_self, by decide, by decide⟩
  · obtain ⟨range, member, bounds⟩ := inRanges_mem alphanumeric
    exact ⟨range, List.mem_cons_of_mem _ member, bounds⟩

theorem isBlank_eq_false_of_isWord {c : Char} (word : isWord c = true) : isBlank c = false := by
  rw [Bool.eq_false_iff]
  intro blank
  obtain ⟨range, member, first, last⟩ := isWord_mem_ranges word
  obtain ⟨other, otherMember, otherFirst, otherLast⟩ := inRanges_mem blank
  have apart := blankRanges_apart other otherMember range member
  omega

theorem isAlphanumeric_of_isAlpha {c : Char} (letter : c.isAlpha = true) :
    isAlphanumeric c = true := by
  obtain ⟨ranges, same⟩ :
      ∃ ranges, alphanumericRanges = (0x30, 0x39) :: (0x41, 0x5a) :: (0x61, 0x7a) :: ranges :=
    ⟨_, rfl⟩
  have bounds : 0x41 ≤ c.toNat ∧ c.toNat ≤ 0x5a ∨ 0x61 ≤ c.toNat ∧ c.toNat ≤ 0x7a := by
    rcases Bool.or_eq_true_iff.mp letter with upper | lower
    · have bounds : 'A'.val ≤ c.val ∧ c.val ≤ 'Z'.val := of_decide_eq_true upper
      exact .inl (bounds.imp UInt32.le_iff_toNat_le.mp UInt32.le_iff_toNat_le.mp)
    · have bounds := Bool.and_eq_true_iff.mp lower
      have first : 'a'.val ≤ c.val := of_decide_eq_true bounds.1
      have last : c.val ≤ 'z'.val := of_decide_eq_true bounds.2
      exact .inr ⟨UInt32.le_iff_toNat_le.mp first, UInt32.le_iff_toNat_le.mp last⟩
  simp only [isAlphanumeric, same, inRanges, Bool.and_eq_true, Bool.or_eq_true, Bool.not_eq_true',
    decide_eq_true_eq, decide_eq_false_iff_not]
  omega

theorem isIdentifierPart_of_start {c : Char} (start : isIdentifierStart c = true) :
    isIdentifierPart c = true := by
  simp only [isIdentifierStart, Bool.or_eq_true, beq_iff_eq] at start
  rcases start with (letter | rfl) | rfl
  · simp [isIdentifierPart, isWord, isAlphanumeric_of_isAlpha letter]
  · decide
  · decide

theorem isBlank_eq_false_of_part {c : Char} (part : isIdentifierPart c = true) :
    isBlank c = false := by
  rcases Bool.or_eq_true_iff.mp part with word | dollar
  · exact isBlank_eq_false_of_isWord word
  · obtain rfl := beq_iff_eq.mp dollar
    decide

theorem isIdentifierPart_eq_false_of_blank {c : Char} (blank : isBlank c = true) :
    isIdentifierPart c = false := by
  rw [Bool.eq_false_iff]
  intro part
  rw [isBlank_eq_false_of_part part] at blank
  cases blank

theorem span_append {p : Char → Bool} {run rest : List Char} (inside : ∀ c ∈ run, p c = true)
    (ends : ∀ c, rest.head? = some c → p c = false) :
    (run ++ rest).takeWhile p = run ∧ (run ++ rest).dropWhile p = rest := by
  rw [List.takeWhile_append_of_pos inside, List.dropWhile_append_of_pos inside]
  cases rest with
  | nil => simp
  | cons c rest => simp [ends c rfl]

theorem trim_eq_self {text : List Char} (solid : ∀ c ∈ text, isBlank c = false) :
    trim text = text := by
  have kept {text : List Char} (solid : ∀ c ∈ text, isBlank c = false) :
      text.dropWhile isBlank = text := by
    cases text with
    | nil => rfl
    | cons c text => simp [solid c List.mem_cons_self]
  have reversed : text.reverse.dropWhile isBlank = text.reverse :=
    kept fun c member => solid c (List.mem_reverse.mp member)
  rw [trim, trimLeft, kept solid, trimRight, reversed, List.reverse_reverse]

theorem trimLeft_blanks_append {blanks : List Char} (blank : ∀ c ∈ blanks, isBlank c = true)
    (text : List Char) : trimLeft (blanks ++ text) = trimLeft text :=
  List.dropWhile_append_of_pos blank

theorem trimRight_append_blanks {blanks : List Char} (text : List Char)
    (blank : ∀ c ∈ blanks, isBlank c = true) : trimRight (text ++ blanks) = trimRight text := by
  have reversed := trimLeft_blanks_append (fun c member => blank c (List.mem_reverse.mp member))
    text.reverse
  rw [trimRight, List.reverse_append]
  exact congrArg List.reverse reversed

theorem trim_of_blanks {blanks : List Char} (blank : ∀ c ∈ blanks, isBlank c = true) :
    trim blanks = [] := by
  rw [trim, trimLeft, List.dropWhile_eq_nil_iff.mpr blank]
  rfl

theorem trim_append_blanks {blanks : List Char} (text : List Char)
    (blank : ∀ c ∈ blanks, isBlank c = true) : trim (text ++ blanks) = trim text := by
  have none : trimLeft blanks = [] := List.dropWhile_eq_nil_iff.mpr blank
  rw [trim, trim, trimLeft, List.dropWhile_append]
  split
  · rename_i empty
    rw [← trimLeft, none, trimLeft, List.isEmpty_iff.mp empty]
  · exact trimRight_append_blanks _ blank

theorem exists_trimRight_append (text : List Char) :
    ∃ blanks, (∀ c ∈ blanks, isBlank c = true) ∧ text = trimRight text ++ blanks := by
  refine ⟨(text.reverse.takeWhile isBlank).reverse, fun c member => ?_, ?_⟩
  · exact List.mem_takeWhile_imp (List.mem_reverse.mp member)
  · rw [trimRight, ← List.reverse_append, List.takeWhile_append_dropWhile, List.reverse_reverse]

theorem isBlank_of_getLast?_trimRight {text : List Char} {c : Char}
    (last : (trimRight text).getLast? = some c) : isBlank c = false := by
  rw [trimRight, List.getLast?_reverse] at last
  have solid := List.head?_dropWhile_not isBlank text.reverse
  rw [last] at solid
  simpa using solid

theorem trimLeft_append_cons {c : Char} (solid : isBlank c = false) (left right : List Char) :
    trimLeft (left ++ c :: right) = trimLeft left ++ c :: right := by
  rw [trimLeft, List.dropWhile_append]
  split
  · rename_i empty
    rw [trimLeft, List.isEmpty_iff.mp empty]
    simp [solid]
  · rfl

theorem trimLeft_append_of_first {text : List Char}
    (first : ∃ c, text.head? = some c ∧ isBlank c = false) (rest : List Char) :
    trimLeft (text ++ rest) = text ++ rest := by
  obtain ⟨c, begins, solid⟩ := first
  obtain ⟨back, rfl⟩ := List.head?_eq_some_iff.mp begins
  exact trimLeft_append_cons solid [] (back ++ rest)

theorem trimRight_append_cons {c : Char} (solid : isBlank c = false) (left right : List Char) :
    trimRight (left ++ c :: right) = left ++ c :: trimRight right := by
  have reversed := trimLeft_append_cons solid right.reverse left.reverse
  rw [trimRight, List.reverse_append, List.reverse_cons, List.append_assoc, List.singleton_append,
    ← trimLeft, reversed, List.reverse_append, List.reverse_cons, List.reverse_reverse,
    List.append_assoc, List.singleton_append]
  rfl

theorem trim_append_cons {c : Char} (solid : isBlank c = false) (left right : List Char) :
    trim (left ++ c :: right) = trimLeft left ++ c :: trimRight right := by
  rw [trim, trimLeft_append_cons solid, trimRight_append_cons solid]

theorem trim_trim (text : List Char) : trim (trim text) = trim text := by
  have right (text : List Char) : trimRight (trimRight text) = trimRight text := by
    obtain ⟨blanks, blank, split⟩ := exists_trimRight_append (trimRight text)
    cases last : blanks.getLast? with
    | none =>
        rw [List.getLast?_eq_none_iff.mp last, List.append_nil] at split
        exact split.symm
    | some c =>
        have ends : (trimRight text).getLast? = some c := by
          rw [split, List.getLast?_append, last]
          rfl
        have solid := isBlank_of_getLast?_trimRight ends
        rw [blank c (List.mem_of_getLast? last)] at solid
        cases solid
  cases begins : trimLeft text with
  | nil =>
      rw [trim, trim, begins]
      rfl
  | cons c rest =>
      have solid : isBlank c = false := by
        have first := List.head?_dropWhile_not isBlank text
        rw [← trimLeft, begins] at first
        simpa using first
      have whole : trim text = c :: trimRight rest := by
        rw [trim, begins]
        exact trimRight_append_cons solid [] rest
      have again := trim_append_cons solid [] (trimRight rest)
      rw [right] at again
      rw [whole]
      exact again

theorem filter_trim (text : List Char) :
    (trim text).filter (!isBlank ·) = text.filter (!isBlank ·) := by
  have none {blanks : List Char} (blank : ∀ c ∈ blanks, isBlank c = true) :
      blanks.filter (!isBlank ·) = [] := by
    rw [List.filter_eq_nil_iff]
    intro c member
    simp [blank c member]
  obtain ⟨blanks, blank, split⟩ := exists_trimRight_append (trimLeft text)
  have left := congrArg (List.filter (!isBlank ·)) (text.takeWhile_append_dropWhile (p := isBlank))
  have right := congrArg (List.filter (!isBlank ·)) split
  rw [List.filter_append, none fun c member => List.mem_takeWhile_imp member,
    List.nil_append] at left
  rw [List.filter_append, none blank, List.append_nil] at right
  exact right.symm.trans left

theorem count_trimLeft {c : Char} (solid : isBlank c = false) (text : List Char) :
    (trimLeft text).count c = text.count c := by
  have dropped : (text.takeWhile isBlank).count c = 0 := by
    apply List.count_eq_zero_of_not_mem
    intro member
    have blank := List.mem_takeWhile_imp member
    rw [solid] at blank
    cases blank
  have split := congrArg (List.count c) (text.takeWhile_append_dropWhile (p := isBlank))
  rw [List.count_append, dropped, Nat.zero_add] at split
  exact split

theorem count_trim {c : Char} (solid : isBlank c = false) (text : List Char) :
    (trim text).count c = text.count c := by
  have right (text : List Char) : (trimRight text).count c = text.count c := by
    have reversed := count_trimLeft solid text.reverse
    rw [List.count_reverse] at reversed
    rw [trimRight, List.count_reverse]
    exact reversed
  rw [trim, right, count_trimLeft solid]

end MethodFlow.Text
