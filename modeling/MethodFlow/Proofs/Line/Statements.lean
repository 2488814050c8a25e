import MethodFlow.LineStatements
import MethodFlow.Proofs.Line.CallSites

/-!
The statements of a line are those that are written in it: a call for each parenthesis that a name
stands before, filtered and from left to right, then a branch for each `if` and a loop for each
`for`, `while` or `do` that stands alone before a parenthesis.
-/
namespace MethodFlow.LineStatements

open Text

/-- One of the words is written in the text, where it is found, with a parenthesis after it and no
word character before it. -/
def HeadedIn (words : List String) (mask : List Char) (found : Found String) : Prop :=
  found.value ∈ words ∧ ∃ left blanks right,
    mask = left ++ (found.value.toList ++ (blanks ++ '(' :: right)) ∧
    (∀ c ∈ blanks, isBlank c = true) ∧ wordMayBegin left.getLast? = true ∧
    found.start = left.length ∧ found.length = found.value.toList.length + blanks.length + 1 ∧
    found.before = left.getLast?

/-- Words of word characters only, and none of them empty. -/
def AreWords (words : List String) : Prop :=
  ∀ word ∈ words, word.toList ≠ [] ∧ ∀ c ∈ word.toList, isWord c = true

theorem areWords_of_all {words : List String}
    (checked : (words.all fun word => !word.toList.isEmpty && word.toList.all isWord) = true) :
    AreWords words := by
  intro word member
  have letters := List.all_eq_true.mp checked word member
  simpa [List.all_eq_true] using letters

section Headings

variable {words : List String} {mask : List Char} {found other : Found String}

def heading? (word : String) (text : List Char) : Option (String × Nat) :=
  match (after? word.toList text).map trimLeft with
  | some ('(' :: rest) => some (word, text.length - rest.length)
  | _ => none

theorem heading?_eq_some_iff {word value : String} {text : List Char} {length : Nat} :
    heading? word text = some (value, length) ↔
      value = word ∧ ∃ blanks rest, (∀ c ∈ blanks, isBlank c = true) ∧
        text = word.toList ++ (blanks ++ '(' :: rest) ∧
        length = word.toList.length + blanks.length + 1 := by
  constructor
  · intro read
    unfold heading? at read
    split at read
    · rename_i rest trimmed
      obtain ⟨text', after, opened⟩ := Option.map_eq_some_iff.mp trimmed
      obtain rfl := after?_eq_some_iff.mp after
      obtain ⟨blanks, blank, split⟩ := CallSite.exists_blanks text'
      rw [opened] at split
      subst split
      cases read
      refine ⟨rfl, blanks, rest, blank, rfl, ?_⟩
      simp only [List.length_append, List.length_cons]
      omega
    · cases read
  · rintro ⟨rfl, blanks, rest, blank, rfl, rfl⟩
    have after := after?_eq_some_iff.mpr (rfl : value.toList ++ (blanks ++ '(' :: rest) = _)
    rw [heading?, after, Option.map_some, trimLeft_blanks_append blank,
      CallSite.trimLeft_solid (by decide)]
    simp only [List.length_append, List.length_cons]
    congr 2
    omega

theorem takeWhile_heading {word blanks : List Char} (letters : ∀ c ∈ word, isWord c = true)
    (blank : ∀ c ∈ blanks, isBlank c = true) (rest : List Char) :
    (word ++ (blanks ++ '(' :: rest)).takeWhile isWord = word := by
  refine (span_append letters fun c first => ?_).1
  have apart := CallSite.endsName_blanks blank (by decide) c first
  exact (Bool.or_eq_false_iff.mp apart).1

theorem headed?_eq_some_iff (proper : AreWords words) {before : Option Char} {text : List Char}
    {value : String} {length : Nat} :
    headed? words before text = some (value, length) ↔
      wordMayBegin before = true ∧ value ∈ words ∧ heading? value text = some (value, length) := by
  have unfolded : headed? words before text =
      if wordMayBegin before then words.findSome? (heading? · text) else none := rfl
  rw [unfolded, Option.ite_none_right_eq_some]
  refine and_congr_right fun _ => ?_
  constructor
  · intro found
    obtain ⟨word, member, read⟩ := List.exists_of_findSome?_eq_some found
    obtain ⟨rfl, -⟩ := heading?_eq_some_iff.mp read
    exact ⟨member, read⟩
  · rintro ⟨member, read⟩
    -- Another word that reads here would have to be the same letters.
    have some : (words.findSome? (heading? · text)).isSome = true := by
      rw [List.findSome?_isSome_iff]
      exact ⟨value, member, by rw [read]; rfl⟩
    obtain ⟨⟨other, length'⟩, found⟩ := Option.isSome_iff_exists.mp some
    obtain ⟨word, member', read'⟩ := List.exists_of_findSome?_eq_some found
    obtain ⟨-, blanks, rest, blank, split, -⟩ := heading?_eq_some_iff.mp read
    obtain ⟨rfl, blanks', rest', blank', split', -⟩ := heading?_eq_some_iff.mp read'
    have letters := takeWhile_heading (proper value member).2 blank rest
    have letters' := takeWhile_heading (proper other member').2 blank' rest'
    rw [← split] at letters
    rw [← split', letters] at letters'
    obtain rfl := String.toList_inj.mp letters'
    rw [found, ← read, ← read']

theorem readsIn_iff (proper : AreWords words) :
    ReadsIn (headed? words) mask found ↔ HeadedIn words mask found := by
  constructor
  · rintro ⟨left, text, rfl, start, before, read⟩
    obtain ⟨begins, member, heading⟩ := (headed?_eq_some_iff proper).mp read
    obtain ⟨-, blanks, rest, blank, rfl, length⟩ := heading?_eq_some_iff.mp heading
    exact ⟨member, left, blanks, rest, rfl, blank, before ▸ begins, start, length, before⟩
  · rintro ⟨member, left, blanks, rest, rfl, blank, begins, start, length, before⟩
    refine ⟨left, _, rfl, start, before, (headed?_eq_some_iff proper).mpr ⟨?_, member, ?_⟩⟩
    · rw [before]
      exact begins
    · exact heading?_eq_some_iff.mpr ⟨rfl, blanks, rest, blank, rfl, length⟩

theorem headed?_advances (proper : AreWords words) : Advances (headed? words) := by
  intro before text value length read
  obtain ⟨-, -, heading⟩ := (headed?_eq_some_iff proper).mp read
  obtain ⟨-, blanks, rest, -, rfl, rfl⟩ := heading?_eq_some_iff.mp heading
  simp

theorem HeadedIn.isWord_iff (proper : AreWords words) (headed : HeadedIn words mask found)
    {place : Nat} {c : Char} (first : found.start ≤ place) (last : place < found.stop)
    (here : mask[place]? = some c) :
    isWord c = true ↔ place < found.start + found.value.toList.length := by
  obtain ⟨member, left, blanks, right, rfl, blank, -, start, length, -⟩ := headed
  obtain ⟨place, rfl⟩ := Nat.exists_eq_add_of_le first
  rw [Found.stop, length] at last
  rw [start, List.getElem?_append_right (by omega), Nat.add_sub_cancel_left] at here
  rw [Nat.add_lt_add_iff_left]
  by_cases inWord : place < found.value.toList.length
  · rw [List.getElem?_append_left inWord] at here
    exact iff_of_true ((proper _ member).2 c (List.mem_of_getElem? here)) inWord
  · rw [List.getElem?_append_right (by omega), List.append_cons,
      List.getElem?_append_left (by simp; omega)] at here
    refine iff_of_false ?_ inWord
    rcases List.mem_append.mp (List.mem_of_getElem? here) with inBlanks | isOpen
    · have apart := isIdentifierPart_eq_false_of_blank (blank c inBlanks)
      simp [(Bool.or_eq_false_iff.mp apart).1]
    · obtain rfl := List.mem_singleton.mp isOpen
      decide

theorem HeadedIn.begins (proper : AreWords words) (headed : HeadedIn words mask found) :
    (∃ c, mask[found.start]? = some c ∧ isWord c = true) ∧
      ∀ c, 0 < found.start → mask[found.start - 1]? = some c → isWord c = false := by
  obtain ⟨member, left, blanks, right, rfl, -, begins, start, -, -⟩ := headed
  constructor
  · obtain ⟨nonempty, letters⟩ := proper _ member
    obtain ⟨c, word, split⟩ := List.exists_cons_of_ne_nil nonempty
    rw [split] at letters ⊢
    exact ⟨c, by simp [start], letters c List.mem_cons_self⟩
  · intro c positive here
    rw [List.getElem?_append_left (by omega), start, ← List.getLast?_eq_getElem?] at here
    simpa [wordMayBegin, here] using begins

theorem HeadedIn.start_eq (proper : AreWords words) (headed : HeadedIn words mask found)
    (headedOther : HeadedIn words mask other) (first : other.start ≤ found.start)
    (last : found.start < other.stop) : other.start = found.start := by
  obtain ⟨⟨c, here, letter⟩, apart⟩ := headed.begins proper
  have inWord := (headedOther.isWord_iff proper first last here).mp letter
  by_contra different
  -- The character before would be in the word of the other heading, and no word character.
  have bound : found.start - 1 < mask.length := by
    have := (List.getElem?_eq_some_iff.mp here).1
    omega
  have before := List.getElem?_eq_getElem bound
  have letterBefore :=
    (headedOther.isWord_iff proper (by omega) (by omega) before).mpr (by omega)
  rw [apart _ (by omega) before] at letterBefore
  cases letterBefore

theorem headings_enumerate (proper : AreWords words) (mask : List Char) :
    Enumerates (findAll (headed? words) mask) (HeadedIn words mask) := by
  refine ⟨findAll_ordered (headed?_advances proper) mask, fun found => ?_⟩
  constructor
  · intro member
    exact (readsIn_iff proper).mp (findAll_reads member)
  · intro headed
    have reads := (readsIn_iff proper).mpr headed
    obtain ⟨other, member, first, last⟩ := exists_findAll_covers (headed?_advances proper) reads
    have readsOther := findAll_reads member
    have same := headed.start_eq proper ((readsIn_iff proper).mp readsOther) first last
    rwa [← readsOther.eq_of_start reads same]

end Headings

theorem isCall_eq (found : Found CallSite) :
    isCall found = decide (found.before ≠ some '@' ∧ found.before ≠ some ':' ∧
      found.value.isUser = true) := by
  rw [isCall, Bool.eq_iff_iff, decide_eq_true_iff]
  cases found.before with
  | none => simp
  | some c => simp [and_assoc]

/-- A line of a body has a call site at each parenthesis with a name before it, one at each of them
and no others. Its statements are the calls at these sites, but for annotations, method references
and names that are not the program's own, then its branches, then its loops. -/
theorem scan_complete (dialect : Dialect) (mask code : List Char) (line : Int) :
    ((CallSite.findAll mask).map Found.stop).Pairwise (· < ·) ∧
    (∀ stop name, (∃ found ∈ CallSite.findAll mask, found.stop = stop ∧ found.value.name = name) ↔
      CallSite.NamedBefore mask stop name) ∧
    Enumerates (CallSite.findAll mask) (CallSite.IsLeftmost mask) ∧
    (∀ found ∈ CallSite.findAll mask,
      ((mask.drop found.start).take found.length).filter (fun c => !isBlank c) =
        found.value.receiver.elim [] (fun receiver => receiver ++ ['.']) ++
          (found.value.name ++ ['('])) ∧
    ∃ ifs loops, Enumerates ifs (HeadedIn ["if"] mask) ∧
      Enumerates loops (HeadedIn ["for", "while", "do"] mask) ∧
      scan dialect mask code line =
        (((CallSite.findAll mask).filter fun found =>
            found.before ≠ some '@' ∧ found.before ≠ some ':' ∧ found.value.isUser = true).map
          fun found =>
            .call (String.ofList found.value.name) line (found.value.receiver.map String.ofList)) ++
        (ifs.map fun found => .branch (conditionOf mask code "condition" found) line [] []) ++
        (loops.map fun found =>
          .loop (loopKind dialect mask found) (conditionOf mask code "loop_condition" found) line
            []) := by
  refine ⟨CallSite.stops_sorted mask, fun stop name => CallSite.exists_named_iff,
    CallSite.sites_enumerate mask, fun found member => (CallSite.standsIn_of_mem member).solid,
    _, _, headings_enumerate (areWords_of_all (by decide)) mask,
    headings_enumerate (areWords_of_all (by decide)) mask, ?_⟩
  rw [← funext isCall_eq]
  rfl

end MethodFlow.LineStatements
