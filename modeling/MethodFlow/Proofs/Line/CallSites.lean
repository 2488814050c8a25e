import MethodFlow.CallSite
import MethodFlow.Proofs.Text.Search
import MethodFlow.Proofs.Text.Word
import Mathlib.Data.List.Induction
import Mathlib.Data.List.Nodup

/-!
Call sites as they are written: names with dots between them, blanks around the dots, and a
parenthesis at the end. Reading takes exactly such a text off the front (`read?_eq_some_iff`). Of the
sites in a text that end at one parenthesis the leftmost is found (`mem_findAll_iff`), and one is
found at each parenthesis that has a name before it (`exists_named_iff`).
-/
namespace MethodFlow.CallSite

open Text

def IsIdentifier (name : List Char) : Prop :=
  ∃ c rest, name = c :: rest ∧ isIdentifierStart c = true ∧ ∀ d ∈ rest, isIdentifierPart d = true

def under (first : List Char) (site : CallSite) : CallSite :=
  { site with receiver := some (site.receiver.elim first fun receiver => first ++ '.' :: receiver) }

/-- A text that calls a name, or that calls a member of what a name stands for. -/
inductive Spells : CallSite → List Char → Prop
  | plain {name blanks} (identifier : IsIdentifier name) (blank : ∀ c ∈ blanks, isBlank c = true) :
      Spells ⟨none, name⟩ (name ++ (blanks ++ ['(']))
  | member {first before after site text} (identifier : IsIdentifier first)
      (blankBefore : ∀ c ∈ before, isBlank c = true) (blankAfter : ∀ c ∈ after, isBlank c = true)
      (rest : Spells site text) :
      Spells (site.under first) (first ++ (before ++ '.' :: (after ++ text)))

section Identifier

variable {name rest text : List Char}

theorem IsIdentifier.parts (identifier : IsIdentifier name) :
    ∀ c ∈ name, isIdentifierPart c = true := by
  obtain ⟨c, rest, rfl, start, parts⟩ := identifier
  exact List.forall_mem_cons.mpr ⟨isIdentifierPart_of_start start, parts⟩

def EndsName (text : List Char) : Prop :=
  ∀ c, text.head? = some c → isIdentifierPart c = false

theorem identifier?_eq_some (read : identifier? text = some (name, rest)) :
    IsIdentifier name ∧ text = name ++ rest := by
  cases text with
  | nil => cases read
  | cons c text =>
      simp only [identifier?, Option.ite_none_right_eq_some, Option.some.injEq,
        Prod.mk.injEq] at read
      obtain ⟨start, rfl, rfl⟩ := read
      refine ⟨⟨c, _, rfl, start, fun d member => List.mem_takeWhile_imp member⟩, ?_⟩
      rw [List.cons_append, List.takeWhile_append_dropWhile]

theorem identifier?_append (identifier : IsIdentifier name) (ends : EndsName rest) :
    identifier? (name ++ rest) = some (name, rest) := by
  obtain ⟨c, tail, rfl, start, parts⟩ := identifier
  obtain ⟨taken, left⟩ := span_append parts ends
  rw [List.cons_append, identifier?, if_pos start, taken, left]

theorem endsName_blanks {blanks : List Char} (blank : ∀ c ∈ blanks, isBlank c = true) {c : Char}
    (stop : isIdentifierPart c = false) : EndsName (blanks ++ c :: text) := by
  intro d first
  cases blanks with
  | nil =>
      obtain rfl := Option.some.inj first
      exact stop
  | cons e blanks =>
      obtain rfl := Option.some.inj first
      exact isIdentifierPart_eq_false_of_blank (blank e List.mem_cons_self)

end Identifier

section Member

variable {name rest text before after : List Char}

theorem exists_blanks (text : List Char) :
    ∃ blanks, (∀ c ∈ blanks, isBlank c = true) ∧ text = blanks ++ trimLeft text :=
  ⟨text.takeWhile isBlank, fun _ member => List.mem_takeWhile_imp member,
    List.takeWhile_append_dropWhile.symm⟩

theorem trimLeft_solid {c : Char} (solid : isBlank c = false) (text : List Char) :
    trimLeft (c :: text) = c :: text := by
  simp [trimLeft, solid]

theorem trimLeft_identifier (identifier : IsIdentifier name) (rest : List Char) :
    trimLeft (name ++ rest) = name ++ rest := by
  obtain ⟨c, tail, rfl, start, -⟩ := identifier
  exact trimLeft_solid (isBlank_eq_false_of_part (isIdentifierPart_of_start start)) _

theorem member?_eq_some (read : member? text = some (name, rest)) :
    ∃ before after, (∀ c ∈ before, isBlank c = true) ∧ (∀ c ∈ after, isBlank c = true) ∧
      IsIdentifier name ∧ text = before ++ '.' :: (after ++ (name ++ rest)) := by
  obtain ⟨before, blankBefore, split⟩ := exists_blanks text
  unfold member? at read
  split at read
  · rename_i more dotted
    obtain ⟨after, blankAfter, splitMore⟩ := exists_blanks more
    obtain ⟨identifier, trimmed⟩ := identifier?_eq_some read
    rw [trimmed] at splitMore
    rw [dotted, splitMore] at split
    exact ⟨before, after, blankBefore, blankAfter, identifier, split⟩
  · cases read

theorem member?_append (blankBefore : ∀ c ∈ before, isBlank c = true)
    (blankAfter : ∀ c ∈ after, isBlank c = true) (identifier : IsIdentifier name)
    (ends : EndsName rest) :
    member? (before ++ '.' :: (after ++ (name ++ rest))) = some (name, rest) := by
  rw [member?, trimLeft_blanks_append blankBefore, trimLeft_solid (by decide)]
  simp only
  rw [trimLeft_blanks_append blankAfter, trimLeft_identifier identifier]
  exact identifier?_append identifier ends

theorem member?_parenthesis {blanks : List Char} (blank : ∀ c ∈ blanks, isBlank c = true) :
    member? (blanks ++ '(' :: rest) = none := by
  rw [member?, trimLeft_blanks_append blank, trimLeft_solid (by decide)]
  rfl

end Member

section Reading

variable {site : CallSite} {first text rest spelled : List Char} {names : List (List Char)}

theorem ofChain_cons (first name : List Char) (names : List (List Char)) :
    ofChain first (name :: names) = (ofChain name names).under first := by
  cases names with
  | nil => simp [ofChain, under]
  | cons next names => simp [ofChain, under, List.intercalate, List.getLast?_cons]

theorem members_spells (identifier : IsIdentifier first) {fuel : Nat} {tail : List Char}
    (read : members fuel text = (names, tail)) (called : trimLeft tail = '(' :: rest) :
    ∃ spelled, Spells (ofChain first names) spelled ∧ first ++ text = spelled ++ rest := by
  have alone {first text : List Char} {names : List (List Char)} (identifier : IsIdentifier first)
      (same : ([], text) = (names, tail)) :
      ∃ spelled, Spells (ofChain first names) spelled ∧ first ++ text = spelled ++ rest := by
    cases same
    obtain ⟨blanks, blank, split⟩ := exists_blanks tail
    rw [called] at split
    refine ⟨first ++ (blanks ++ ['(']), .plain identifier blank, ?_⟩
    rw [split]
    simp
  induction fuel generalizing first text names with
  | zero => exact alone identifier read
  | succ fuel ih =>
      rw [members] at read
      split at read
      · rename_i name more member
        obtain ⟨before, after, blankBefore, blankAfter, named, rfl⟩ := member?_eq_some member
        cases read
        obtain ⟨spelled, spells, same⟩ := ih named rfl
        rw [ofChain_cons, same]
        refine ⟨_, .member identifier blankBefore blankAfter spells, ?_⟩
        simp
      · exact alone identifier read

/-- What is written as a call site begins with a name, goes on with names after dots, and ends with
a parenthesis. -/
theorem Spells.members_eq (spells : Spells site spelled) (rest : List Char) :
    ∃ first names text, IsIdentifier first ∧ EndsName text ∧ spelled ++ rest = first ++ text ∧
      site = ofChain first names ∧ names.length < text.length ∧
      ∀ fuel, names.length ≤ fuel →
        ∃ tail, members fuel text = (names, tail) ∧ trimLeft tail = '(' :: rest := by
  induction spells with
  | @plain name blanks identifier blank =>
      refine ⟨name, [], blanks ++ '(' :: rest, identifier, endsName_blanks blank (by decide),
        by simp, rfl, ?_, fun fuel _ => ⟨blanks ++ '(' :: rest, ?_, ?_⟩⟩
      · simp only [List.length_nil, List.length_append, List.length_cons]
        omega
      · cases fuel with
        | zero => exact members_zero _
        | succ fuel => rw [members, member?_parenthesis blank]
      · rw [trimLeft_blanks_append blank, trimLeft_solid (by decide)]
  | @member first before after site text identifier blankBefore blankAfter spells ih =>
      obtain ⟨name, names, more, named, ends, same, rfl, few, reads⟩ := ih
      refine ⟨first, name :: names, before ++ '.' :: (after ++ (name ++ more)), identifier,
        endsName_blanks blankBefore (by decide), ?_, (ofChain_cons _ _ _).symm, ?_, ?_⟩
      · rw [← same]
        simp
      · simp only [List.length_cons, List.length_append]
        omega
      · intro fuel enough
        cases fuel with
        | zero => simp at enough
        | succ fuel =>
            obtain ⟨tail, read, called⟩ := reads fuel (by simpa using enough)
            refine ⟨tail, ?_, called⟩
            rw [members, member?_append blankBefore blankAfter named ends]
            simp only [read]

theorem read?_eq_some_iff :
    read? text = some (site, rest) ↔ ∃ spelled, Spells site spelled ∧ text = spelled ++ rest := by
  constructor
  · intro read
    unfold read? at read
    split at read
    · cases read
    · rename_i first more named
      obtain ⟨identifier, rfl⟩ := identifier?_eq_some named
      simp only at read
      split at read
      · rename_i tail called
        cases read
        exact members_spells identifier rfl called
      · cases read
  · rintro ⟨spelled, spells, rfl⟩
    obtain ⟨first, names, text, identifier, ends, same, rfl, few, reads⟩ := spells.members_eq rest
    obtain ⟨tail, read, called⟩ := reads text.length few.le
    rw [same, read?, identifier?_append identifier ends]
    simp only [read, called]

end Reading

section Written

variable {site : CallSite} {spelled : List Char}

theorem Spells.parenthesis (spells : Spells site spelled) :
    ∃ body, spelled = body ++ ['('] ∧
      ∀ c ∈ body, isIdentifierPart c = true ∨ isBlank c = true ∨ c = '.' := by
  induction spells with
  | @plain name blanks identifier blank =>
      refine ⟨name ++ blanks, by simp, fun c member => ?_⟩
      rcases List.mem_append.mp member with inName | inBlanks
      · exact .inl (identifier.parts c inName)
      · exact .inr (.inl (blank c inBlanks))
  | @member first before after site text identifier blankBefore blankAfter spells ih =>
      obtain ⟨body, rfl, plain⟩ := ih
      refine ⟨first ++ (before ++ '.' :: (after ++ body)), by simp, fun c member => ?_⟩
      simp only [List.mem_append, List.mem_cons] at member
      rcases member with inFirst | inBefore | rfl | inAfter | inBody
      · exact .inl (identifier.parts c inFirst)
      · exact .inr (.inl (blankBefore c inBefore))
      · exact .inr (.inr rfl)
      · exact .inr (.inl (blankAfter c inAfter))
      · exact plain c inBody

theorem Spells.begins (spells : Spells site spelled) :
    ∃ c rest, spelled = c :: rest ∧ isIdentifierStart c = true := by
  cases spells with
  | plain identifier blank =>
      obtain ⟨c, rest, rfl, start, -⟩ := identifier
      exact ⟨c, _, rfl, start⟩
  | member identifier blankBefore blankAfter spells =>
      obtain ⟨c, rest, rfl, start, -⟩ := identifier
      exact ⟨c, _, rfl, start⟩

theorem Spells.name_last (spells : Spells site spelled) :
    ∃ front blanks, spelled = front ++ (site.name ++ (blanks ++ ['('])) ∧
      IsIdentifier site.name ∧ (∀ c ∈ blanks, isBlank c = true) ∧
      (front = [] ∨ ∃ c, front.getLast? = some c ∧ isIdentifierPart c = false) := by
  induction spells with
  | @plain name blanks identifier blank => exact ⟨[], blanks, rfl, identifier, blank, .inl rfl⟩
  | @member first before after site text identifier blankBefore blankAfter spells ih =>
      obtain ⟨front, blanks, rfl, named, blank, alone | ⟨c, last, apart⟩⟩ := ih
      · refine ⟨first ++ (before ++ '.' :: after), blanks, by simp [alone, under], named, blank,
          .inr ?_⟩
        rcases List.eq_nil_or_concat after with rfl | ⟨others, c, rfl⟩
        · exact ⟨'.', by simp, by decide⟩
        · exact ⟨c, by simp [List.getLast?_append, List.getLast?_cons],
            isIdentifierPart_eq_false_of_blank (blankAfter c (by simp))⟩
      · refine ⟨first ++ (before ++ '.' :: (after ++ front)), blanks, by simp [under], named, blank,
          .inr ⟨c, ?_, apart⟩⟩
        simp [List.getLast?_append, List.getLast?_cons, last]

theorem Spells.solid (spells : Spells site spelled) :
    spelled.filter (fun c => !isBlank c) =
      site.receiver.elim [] (fun receiver => receiver ++ ['.']) ++ (site.name ++ ['(']) := by
  have named {name : List Char} (identifier : IsIdentifier name) :
      name.filter (fun c => !isBlank c) = name := by
    rw [List.filter_eq_self]
    intro c member
    simp [isBlank_eq_false_of_part (identifier.parts c member)]
  have blanks {blanks : List Char} (blank : ∀ c ∈ blanks, isBlank c = true) :
      blanks.filter (fun c => !isBlank c) = [] := by
    rw [List.filter_eq_nil_iff]
    intro c member
    simp [blank c member]
  have dot : isBlank '.' = false := by decide
  have parenthesis : isBlank '(' = false := by decide
  induction spells with
  | plain identifier blank =>
      simp [List.filter_append, named identifier, blanks blank, parenthesis]
  | @member first before after site text identifier blankBefore blankAfter spells ih =>
      simp only [List.filter_append, named identifier, blanks blankBefore, blanks blankAfter, ih,
        List.filter_cons, dot, under]
      cases site.receiver with
      | none => simp
      | some receiver => simp

end Written

section Sites

variable {mask : List Char} {found other : Found CallSite}

/-- A call site is written in the text, at the place where it is found. -/
def StandsIn (mask : List Char) (found : Found CallSite) : Prop :=
  ∃ left spelled right, mask = left ++ (spelled ++ right) ∧ Spells found.value spelled ∧
    found.start = left.length ∧ found.length = spelled.length ∧ found.before = left.getLast?

def reader (_ : Option Char) (text : List Char) : Option (CallSite × Nat) :=
  (read? text).map fun (site, rest) => (site, text.length - rest.length)

theorem reader_eq_some_iff {before : Option Char} {text : List Char} {site : CallSite}
    {length : Nat} :
    reader before text = some (site, length) ↔
      ∃ spelled rest, Spells site spelled ∧ text = spelled ++ rest ∧ length = spelled.length := by
  simp only [reader, Option.map_eq_some_iff, Prod.exists, read?_eq_some_iff, Prod.mk.injEq]
  constructor
  · rintro ⟨_, rest, ⟨spelled, spells, rfl⟩, rfl, rfl⟩
    exact ⟨spelled, rest, spells, rfl, by simp⟩
  · rintro ⟨spelled, rest, spells, rfl, rfl⟩
    exact ⟨site, rest, ⟨spelled, spells, rfl⟩, rfl, by simp⟩

theorem reader_advances : Advances reader := by
  intro before text site length read
  obtain ⟨spelled, rest, spells, rfl, rfl⟩ := reader_eq_some_iff.mp read
  obtain ⟨c, more, rfl, -⟩ := spells.begins
  simp

theorem readsIn_iff : ReadsIn reader mask found ↔ StandsIn mask found := by
  constructor
  · rintro ⟨left, text, rfl, start, before, read⟩
    obtain ⟨spelled, rest, spells, rfl, length⟩ := reader_eq_some_iff.mp read
    exact ⟨left, spelled, rest, rfl, spells, start, length, before⟩
  · rintro ⟨left, spelled, rest, rfl, spells, start, length, before⟩
    exact ⟨left, spelled ++ rest, rfl, start, before,
      reader_eq_some_iff.mpr ⟨spelled, rest, spells, rfl, length⟩⟩

theorem StandsIn.start_lt_stop (stands : StandsIn mask found) : found.start < found.stop :=
  (readsIn_iff.mpr stands).start_lt_stop reader_advances

def nextStop (mask : List Char) (place : Nat) : Nat :=
  place + ((mask.drop place).takeWhile (· != '(')).length + 1

theorem StandsIn.nextStop_eq (stands : StandsIn mask found) {place : Nat}
    (first : found.start ≤ place) (last : place < found.stop) :
    nextStop mask place = found.stop := by
  obtain ⟨left, spelled, right, rfl, spells, start, length, -⟩ := stands
  obtain ⟨body, rfl, plain⟩ := spells.parenthesis
  obtain ⟨skipped, rfl⟩ := Nat.exists_eq_add_of_le first
  rw [Found.stop, length, List.length_append, List.length_singleton] at last ⊢
  have unclosed : ∀ c ∈ body.drop skipped, (c != '(') = true := by
    intro c member
    rw [bne_iff_ne]
    rintro rfl
    rcases plain '(' (List.mem_of_mem_drop member) with part | blank | dot
    · revert part
      decide
    · revert blank
      decide
    · revert dot
      decide
  rw [nextStop, start, List.drop_append, List.drop_of_length_le (by omega), List.nil_append,
    Nat.add_sub_cancel_left, List.append_assoc, List.drop_append_of_le_length (by omega),
    List.takeWhile_append_of_pos unclosed]
  simp
  omega

/-- Call sites that overlap end at the same parenthesis. -/
theorem StandsIn.stop_eq (stands : StandsIn mask found) (standsOther : StandsIn mask other)
    (first : other.start ≤ found.start) (last : found.start < other.stop) :
    other.stop = found.stop := by
  rw [← standsOther.nextStop_eq first last]
  exact stands.nextStop_eq (Nat.le_refl _) stands.start_lt_stop

theorem standsIn_of_mem (member : found ∈ findAll mask) : StandsIn mask found :=
  readsIn_iff.mp (findAll_reads member)

theorem StandsIn.exists_findAll (stands : StandsIn mask found) :
    ∃ other ∈ findAll mask, other.stop = found.stop ∧ other.start ≤ found.start := by
  obtain ⟨other, member, first, last⟩ :=
    exists_findAll_covers reader_advances (readsIn_iff.mpr stands)
  exact ⟨other, member, stands.stop_eq (standsIn_of_mem member) first last, first⟩

theorem stops_sorted (mask : List Char) : ((findAll mask).map Found.stop).Pairwise (· < ·) := by
  rw [List.pairwise_map]
  refine (findAll_pairwise mask).imp_of_mem fun _ member ordered => ?_
  exact ordered.trans_lt (standsIn_of_mem member).start_lt_stop

theorem eq_of_stop (member : found ∈ findAll mask) (memberOther : other ∈ findAll mask)
    (same : other.stop = found.stop) : other = found :=
  List.inj_on_of_nodup_map ((stops_sorted mask).imp ne_of_lt) memberOther member same

/-- No call site that ends at the same parenthesis begins further left. -/
def IsLeftmost (mask : List Char) (found : Found CallSite) : Prop :=
  StandsIn mask found ∧
    ∀ other, StandsIn mask other → other.stop = found.stop → found.start ≤ other.start

theorem mem_findAll_iff : found ∈ findAll mask ↔ IsLeftmost mask found := by
  constructor
  · intro member
    refine ⟨standsIn_of_mem member, fun other stands same => ?_⟩
    obtain ⟨third, inMask, sameStop, first⟩ := stands.exists_findAll
    obtain rfl := eq_of_stop member inMask (sameStop.trans same)
    exact first
  · rintro ⟨stands, leftmost⟩
    obtain ⟨other, member, same, first⟩ := stands.exists_findAll
    have standsOther := standsIn_of_mem member
    have start := le_antisymm first (leftmost other standsOther same)
    rwa [← (readsIn_iff.mpr standsOther).eq_of_start (readsIn_iff.mpr stands) start]

theorem sites_enumerate (mask : List Char) : Enumerates (findAll mask) (IsLeftmost mask) where
  ordered := findAll_ordered reader_advances mask
  mem_iff _ := mem_findAll_iff

theorem StandsIn.solid (stands : StandsIn mask found) :
    ((mask.drop found.start).take found.length).filter (fun c => !isBlank c) =
      found.value.receiver.elim [] (fun receiver => receiver ++ ['.']) ++
        (found.value.name ++ ['(']) := by
  obtain ⟨left, spelled, right, rfl, spells, start, length, -⟩ := stands
  rw [start, length, List.drop_left, List.take_left, spells.solid]

end Sites

section Names

variable {mask name : List Char} {stop : Nat} {found : Found CallSite}

/-- The parenthesis before `stop` has a run of identifier characters before it, up to blanks, and
the first of them that may start a name starts `name`. -/
def NamedBefore (mask : List Char) (stop : Nat) (name : List Char) : Prop :=
  ∃ left lead blanks right, mask = left ++ (lead ++ (name ++ (blanks ++ '(' :: right))) ∧
    stop = left.length + lead.length + name.length + blanks.length + 1 ∧
    (∀ c, left.getLast? = some c → isIdentifierPart c = false) ∧
    (∀ c ∈ lead, isIdentifierPart c = true ∧ isIdentifierStart c = false) ∧
    IsIdentifier name ∧ ∀ c ∈ blanks, isBlank c = true

theorem exists_run (text : List Char) :
    ∃ left run, text = left ++ run ∧ (∀ c ∈ run, isIdentifierPart c = true) ∧
      ∀ c, left.getLast? = some c → isIdentifierPart c = false := by
  induction text using List.reverseRecOn with
  | nil => exact ⟨[], [], rfl, by simp, by simp⟩
  | append_singleton text c ih =>
      cases part : isIdentifierPart c with
      | false => exact ⟨text ++ [c], [], by simp, by simp, by simpa using part⟩
      | true =>
          obtain ⟨left, run, rfl, parts, apart⟩ := ih
          refine ⟨left, run ++ [c], by simp, fun d member => ?_, apart⟩
          rcases List.mem_append.mp member with inRun | last
          · exact parts d inRun
          · obtain rfl := List.mem_singleton.mp last
            exact part

def nameBefore (text : List Char) : List Char :=
  ((trimRight text).reverse.takeWhile isIdentifierPart).reverse.dropWhile
    fun c => !isIdentifierStart c

theorem nameBefore_eq {left lead blanks : List Char}
    (apart : ∀ c, left.getLast? = some c → isIdentifierPart c = false)
    (plain : ∀ c ∈ lead, isIdentifierPart c = true ∧ isIdentifierStart c = false)
    (identifier : IsIdentifier name) (blank : ∀ c ∈ blanks, isBlank c = true) :
    nameBefore (left ++ (lead ++ name) ++ blanks) = name := by
  have parts : ∀ c ∈ (lead ++ name).reverse, isIdentifierPart c = true := by
    intro c member
    rcases List.mem_append.mp (List.mem_reverse.mp member) with inLead | inName
    · exact (plain c inLead).1
    · exact identifier.parts c inName
  have solid : ∀ c, (left ++ (lead ++ name)).reverse.head? = some c → isBlank c = false := by
    obtain ⟨c, rest, rfl, -, -⟩ := identifier
    intro d last
    apply isBlank_eq_false_of_part
    rw [List.reverse_append, List.head?_append_of_ne_nil _ (by simp)] at last
    exact parts d (List.mem_of_head? last)
  have trimmed : trimRight (left ++ (lead ++ name) ++ blanks) = left ++ (lead ++ name) := by
    rw [trimRight, List.reverse_append,
      (span_append (fun c member => blank c (List.mem_reverse.mp member)) solid).2,
      List.reverse_reverse]
  have run : (left ++ (lead ++ name)).reverse.takeWhile isIdentifierPart =
      (lead ++ name).reverse := by
    rw [List.reverse_append]
    exact (span_append parts fun c first => apart c (List.head?_reverse ▸ first)).1
  obtain ⟨c, rest, rfl, start, -⟩ := identifier
  rw [nameBefore, trimmed, run, List.reverse_reverse]
  refine (span_append (fun d inLead => ?_) fun d first => ?_).2
  · simp [(plain d inLead).2]
  · obtain rfl := Option.some.inj first
    simp [start]

theorem NamedBefore.eq_nameBefore (named : NamedBefore mask stop name) :
    name = nameBefore (mask.take (stop - 1)) := by
  obtain ⟨left, lead, blanks, right, rfl, rfl, apart, plain, identifier, blank⟩ := named
  have before : left ++ (lead ++ (name ++ (blanks ++ '(' :: right))) =
      left ++ (lead ++ name) ++ blanks ++ '(' :: right := by simp
  have length : left.length + lead.length + name.length + blanks.length + 1 - 1 =
      (left ++ (lead ++ name) ++ blanks).length := by
    simp only [List.length_append]
    omega
  rw [before, length, List.take_left, nameBefore_eq apart plain identifier blank]

theorem standsIn_plain (left right : List Char) {blanks : List Char}
    (identifier : IsIdentifier name) (blank : ∀ c ∈ blanks, isBlank c = true) :
    StandsIn (left ++ (name ++ (blanks ++ '(' :: right)))
      ⟨⟨none, name⟩, left.length, name.length + blanks.length + 1, left.getLast?⟩ := by
  refine ⟨left, name ++ (blanks ++ ['(']), right, by simp, .plain identifier blank, rfl, ?_, rfl⟩
  simp only [List.length_append, List.length_singleton]
  omega

theorem namedBefore_of_mem (member : found ∈ findAll mask) :
    NamedBefore mask found.stop found.value.name := by
  obtain ⟨stands, leftmost⟩ := mem_findAll_iff.mp member
  obtain ⟨left, spelled, right, rfl, spells, start, length, -⟩ := stands
  obtain ⟨front, blanks, rfl, identifier, blank, rfl | ⟨c, last, apart⟩⟩ := spells.name_last
  · obtain ⟨left, lead, rfl, parts, apart⟩ := exists_run left
    have stop : found.stop =
        left.length + lead.length + found.value.name.length + blanks.length + 1 := by
      simp only [Found.stop, start, length, List.length_append, List.length_nil,
        List.length_singleton]
      omega
    refine ⟨left, lead, blanks, right, by simp, stop, apart, fun c inLead => ⟨parts c inLead, ?_⟩,
      identifier, blank⟩
    -- Where a name could begin earlier in the run, the site would begin there as well.
    rw [Bool.eq_false_iff]
    intro begins
    obtain ⟨skipped, more, rfl⟩ := List.append_of_mem inLead
    have longer : IsIdentifier (c :: more ++ found.value.name) := by
      refine ⟨c, _, rfl, begins, fun d inside => ?_⟩
      rcases List.mem_append.mp inside with inMore | inName
      · exact parts d (by simp [inMore])
      · exact identifier.parts d inName
    have earlier := standsIn_plain (left ++ skipped) right longer blank
    have bound := leftmost _ (by simpa using earlier) ?_
    · simp only [start, List.length_append, List.length_cons] at bound
      omega
    · rw [stop]
      simp only [Found.stop, List.length_append, List.length_cons]
      omega
  · refine ⟨left ++ front, [], blanks, right, by simp, ?_, ?_, by simp, identifier, blank⟩
    · simp only [Found.stop, start, length, List.length_append, List.length_nil,
        List.length_singleton]
      omega
    · intro d ends
      rw [List.getLast?_append, last] at ends
      obtain rfl := Option.some.inj ends
      exact apart

theorem exists_named_iff :
    (∃ found ∈ findAll mask, found.stop = stop ∧ found.value.name = name) ↔
      NamedBefore mask stop name := by
  constructor
  · rintro ⟨found, member, rfl, rfl⟩
    exact namedBefore_of_mem member
  · intro named
    have same := named.eq_nameBefore
    obtain ⟨left, lead, blanks, right, rfl, rfl, -, -, identifier, blank⟩ := named
    have stands := standsIn_plain (left ++ lead) right identifier blank
    rw [List.append_assoc] at stands
    obtain ⟨found, member, stop, -⟩ := stands.exists_findAll
    have ends : found.stop = left.length + lead.length + name.length + blanks.length + 1 := by
      rw [stop]
      simp only [Found.stop, List.length_append]
      omega
    refine ⟨found, member, ends, ?_⟩
    rw [(namedBefore_of_mem member).eq_nameBefore, ends]
    exact same.symm

end Names

end MethodFlow.CallSite
