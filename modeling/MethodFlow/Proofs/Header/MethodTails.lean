import MethodFlow.Proofs.Header.Bodies

/-!
Where the body of a method begins. It begins at the first sign behind the parameter list that a body
may begin with (`take_tail`), so a header and a front of it that has this sign have it at the same
place (`method?_tail_front`).
-/
namespace MethodFlow.Header

open Text HasRest

section Lists

/-- Only words and blanks stand before the parenthesis of a parameter list. -/
def LeadsTo (inside text : List Char) : Prop :=
  ∃ front, (∀ c ∈ front, isWord c = true ∨ isBlank c = true) ∧ text = front ++ '(' :: inside

variable {inside text left : List Char}

namespace LeadsTo

theorem append {front : List Char} (plain : ∀ c ∈ front, isWord c = true ∨ isBlank c = true)
    (leads : LeadsTo inside text) : LeadsTo inside (front ++ text) := by
  obtain ⟨back, plainBack, rfl⟩ := leads
  refine ⟨front ++ back, ?_, (List.append_assoc front back _).symm⟩
  intro c member
  exact (List.mem_append.mp member).elim (plain c) (plainBack c)

theorem dropWhile {part : Char → Bool} (stops : part '(' = false) (leads : LeadsTo inside text) :
    LeadsTo inside (text.dropWhile part) := by
  obtain ⟨front, plain, rfl⟩ := leads
  rw [List.dropWhile_append]
  split
  · rw [List.dropWhile_cons_of_neg (by simp [stops])]
    exact ⟨[], by simp, rfl⟩
  · exact ⟨front.dropWhile part,
      fun c member => plain c ((List.dropWhile_suffix part).subset member), rfl⟩

theorem trimLeft (leads : LeadsTo inside text) : LeadsTo inside (trimLeft text) :=
  leads.dropWhile (by decide)

theorem of_append {front : List Char} (solid : '(' ∉ front)
    (leads : LeadsTo inside (front ++ left)) :
    LeadsTo inside left := by
  obtain ⟨words, plain, same⟩ := leads
  rcases List.append_eq_append_iff.mp same with ⟨back, rfl, rfl⟩ | ⟨back, rfl, behind⟩
  · exact ⟨back, fun c member => plain c (List.mem_append_right front member), rfl⟩
  · cases back with
    | nil => exact ⟨[], by simp, behind.symm⟩
    | cons c back =>
        obtain rfl : '(' = c := (List.cons.inj behind).1
        exact absurd (by simp) solid

theorem head? {c : Char} (leads : LeadsTo inside text) (first : text.head? = some c) :
    isWord c = true ∨ isBlank c = true ∨ c = '(' := by
  obtain ⟨front, plain, rfl⟩ := leads
  cases front with
  | nil => exact .inr (.inr (Option.some.inj first).symm)
  | cons d front =>
      obtain rfl : d = c := Option.some.inj first
      exact (plain d List.mem_cons_self).elim .inl fun blank => .inr (.inl blank)

theorem parenthesis?_eq (leads : LeadsTo inside text) (found : parenthesis? text = some left) :
    left = inside := by
  rw [Header.parenthesis?_eq] at found
  have opens : Text.trimLeft text = '(' :: left := after?_eq_some_iff.mp found
  obtain ⟨front, plain, same⟩ := leads.trimLeft
  rw [opens] at same
  cases front with
  | nil => exact (List.cons.inj same).2
  | cons c front =>
      obtain rfl : '(' = c := (List.cons.inj same).1
      exact absurd (plain '(' List.mem_cons_self) (by decide)

theorem symbol?_eq_none {symbol : Char}
    (other : isWord symbol = false ∧ isBlank symbol = false ∧ symbol ≠ '(')
    (leads : LeadsTo inside text) : symbol? symbol text = none := by
  rw [Option.eq_none_iff_forall_ne_some]
  intro left found
  have begins : Text.trimLeft text = symbol :: left := after?_eq_some_iff.mp found
  have first := leads.trimLeft.head? (congrArg List.head? begins)
  simp [other] at first

theorem keyword? {keywords : List String} (plain : ArePlain keywords)
    {pair : String × List Char} (leads : LeadsTo inside text)
    (found : keyword? keywords text = some pair) : LeadsTo inside pair.2 := by
  rw [keyword?_eq plain, Option.ite_none_right_eq_some] at found
  obtain ⟨listed, found⟩ := found
  obtain ⟨left, blank, rfl⟩ := Option.map_eq_some_iff.mp found
  have solid : '(' ∉ text.takeWhile fun c => !isBlank c := by
    intro member
    exact (plain _ listed '(' (by rwa [String.toList_ofList])).2.2 rfl
  rw [← List.takeWhile_append_dropWhile (p := fun c => !isBlank c) (l := text)] at leads
  rw [← (blanks?_eq_some blank).1]
  exact (leads.of_append solid).trimLeft

theorem modifierReadings {modifiers : List String} (plain : ArePlain modifiers) {fuel : Nat}
    {entry : List String × List Char} (leads : LeadsTo inside text)
    (listed : entry ∈ modifierReadings modifiers fuel text) : LeadsTo inside entry.2 :=
  @modifierReadings_steps text modifiers
    (fun left text => LeadsTo inside text → LeadsTo inside left) (fun _ => id)
    (fun later first leads => later (first leads)) (fun found leads => leads.keyword? plain found)
    fuel entry listed leads

theorem nameAfterType? {type name opened : List Char} (leads : LeadsTo inside text)
    (found : nameAfterType? text = some (type, name, opened)) : opened = inside := by
  have brackets : arrayBrackets? text = none := by
    rw [arrayBrackets?_eq, leads.symbol?_eq_none (by decide)]
    rfl
  have bare : skipItems arrayBrackets? text.length text = text := by
    cases text with
    | nil => rfl
    | cons c text => rw [List.length_cons, skipItems, brackets]
  rw [nameAfterType?_eq, bare] at found
  obtain ⟨pair, spaced, same⟩ := Option.map_eq_some_iff.mp found
  obtain ⟨-, same⟩ := Prod.mk.inj same
  obtain ⟨-, rfl⟩ := Prod.mk.inj same
  obtain ⟨⟨word, behind⟩, named, parenthesis⟩ := Option.bind_eq_some_iff.mp spaced
  obtain ⟨left, opens, rfl⟩ := Option.map_eq_some_iff.mp parenthesis
  obtain ⟨trimmed, blank, read⟩ := Option.bind_eq_some_iff.mp named
  rw [← (blanks?_eq_some blank).1] at read
  refine LeadsTo.parenthesis?_eq ?_ opens
  rw [word?_left read]
  exact leads.trimLeft.dropWhile (by decide)

theorem typeAndName? {visibility : String} {head : MethodHead} (leads : LeadsTo inside text)
    (found : typeAndName? visibility text = some head) : head.rest = inside := by
  have behind : LeadsTo inside
      (text.dropWhile fun c => isWord c || c == '.' || c == '$') := leads.dropWhile (by decide)
  rw [typeAndName?_eq] at found
  obtain ⟨⟨type, name, opened⟩, read, rfl⟩ := Option.map_eq_some_iff.mp found
  rw [Option.ite_none_left_eq_some, typeEnd?, behind.symbol?_eq_none (by decide)] at read
  exact behind.nameAfterType? read.2

end LeadsTo

theorem keyword?_leadsTo {pair : String × List Char}
    (found : keyword? constructorModifiers text = some pair) (leads : LeadsTo inside pair.2) :
    LeadsTo inside text := by
  have plain : ArePlain constructorModifiers := headWords_plain (by simp [headWords])
  rw [keyword?_eq plain, Option.ite_none_right_eq_some] at found
  obtain ⟨listed, found⟩ := found
  obtain ⟨left, blank, rfl⟩ := Option.map_eq_some_iff.mp found
  have letters : ∀ c ∈ text.takeWhile (fun c => !isBlank c), isWord c = true := by
    have checked : (constructorModifiers.all fun word => word.toList.all isWord) = true := by decide
    have word := List.all_eq_true.mp checked _ listed
    rw [String.toList_ofList] at word
    exact List.all_eq_true.mp word
  have trimmed : trimLeft (text.dropWhile fun c => !isBlank c) = left := (blanks?_eq_some blank).1
  have spaced : LeadsTo inside (text.dropWhile fun c => !isBlank c) := by
    rw [← List.takeWhile_append_dropWhile (p := isBlank)
      (l := text.dropWhile fun c => !isBlank c), ← trimLeft, trimmed]
    exact leads.append fun c member => .inr (List.mem_takeWhile_imp member)
  rw [← List.takeWhile_append_dropWhile (p := fun c => !isBlank c) (l := text)]
  exact spaced.append fun c member => .inl (letters c member)

theorem modifierReadings_leadsTo {fuel : Nat} {entry : List String × List Char}
    (listed : entry ∈ modifierReadings constructorModifiers fuel text)
    (leads : LeadsTo inside entry.2) : LeadsTo inside text :=
  @modifierReadings_steps text constructorModifiers
    (fun left text => LeadsTo inside left → LeadsTo inside text) (fun _ => id)
    (fun later first leads => first (later leads)) (fun found leads => keyword?_leadsTo found leads)
    fuel entry listed leads

variable {header : List Char} {head : MethodHead}

theorem constructorHead?_leadsTo (found : constructorHead? header = some head) :
    LeadsTo head.rest (skipAnnotations header) := by
  obtain ⟨⟨taken, left⟩, listed, read⟩ := List.exists_of_findSome?_eq_some found
  obtain ⟨⟨name, behind⟩, word, parenthesis⟩ := Option.bind_eq_some_iff.mp read
  obtain ⟨inside, opens, rfl⟩ := Option.map_eq_some_iff.mp parenthesis
  apply modifierReadings_leadsTo listed
  rw [parenthesis?_eq] at opens
  have trimmed : trimLeft behind = '(' :: inside := after?_eq_some_iff.mp opens
  have spaced : LeadsTo inside behind := by
    rw [← List.takeWhile_append_dropWhile (p := isBlank) (l := behind), ← trimLeft, trimmed]
    exact ⟨_, fun c member => .inr (List.mem_takeWhile_imp member), rfl⟩
  obtain rfl : behind = left.dropWhile isWord := word?_left word
  change LeadsTo inside left
  rw [← List.takeWhile_append_dropWhile (p := isWord) (l := left)]
  exact spaced.append fun c member => .inl (List.mem_takeWhile_imp member)

theorem javaMethodHead?_rest {inside : List Char} (leads : LeadsTo inside (skipAnnotations header))
    (found : javaMethodHead? header = some head) : head.rest = inside := by
  obtain ⟨⟨taken, left⟩, listed, read⟩ := List.exists_of_findSome?_eq_some found
  have behind : LeadsTo inside left :=
    leads.modifierReadings (headWords_plain (by simp [headWords])) listed
  rcases (Option.orElse_eq_some _ _ _).mp read with generic | ⟨-, bare⟩
  · obtain ⟨back, parameters, -⟩ := Option.bind_eq_some_iff.mp generic
    obtain ⟨pair, bracketed, -⟩ := Option.bind_eq_some_iff.mp parameters
    obtain ⟨-, first⟩ := bracketed?_eq_some.mp bracketed
    have sign := behind.head? (congrArg List.head? first)
    exact absurd sign (by decide)
  · exact behind.typeAndName? bare

theorem javaHeads_rest {constructor method : MethodHead}
    (first : constructorHead? header = some constructor)
    (second : javaMethodHead? header = some method) : method.rest = constructor.rest :=
  javaMethodHead?_rest (constructorHead?_leadsTo first) second

end Lists

section Bodies

def startsBody : Dialect → Char → Bool
  | .java, c => c == '{' || c == ';'
  | .kotlin, c => c == '{' || c == '='

def bodyText (dialect : Dialect) (text : List Char) : List Char :=
  text.dropWhile fun c => !startsBody dialect c

variable {dialect : Dialect}

theorem bodyText_suffix (dialect : Dialect) (text : List Char) : bodyText dialect text <:+ text :=
  List.dropWhile_suffix _

theorem head?_bodyText {text : List Char} {c : Char}
    (first : (bodyText dialect text).head? = some c) : startsBody dialect c = true := by
  have begins := List.head?_dropWhile_not (fun c => !startsBody dialect c) text
  rw [← bodyText, first] at begins
  simpa using begins

theorem bodyText_append {before body : List Char}
    (plain : ∀ c ∈ before, startsBody dialect c = false)
    (begins : ∀ c, body.head? = some c → startsBody dialect c = true) :
    bodyText dialect (before ++ body) = body :=
  (span_append (fun c member => by simp [plain c member])
    (fun c first => by simp [begins c first])).2

theorem bodyText_of_javaTail? {starts text body : List Char}
    (signs : ∀ c ∈ starts, startsBody .java c = true) (found : javaTail? starts text = some body) :
    bodyText .java text = body := by
  obtain ⟨before, rfl, inside, begins⟩ := javaTail?_split found
  refine bodyText_append (fun c member => ?_) fun c first => signs c (begins c first)
  have part := inside c member
  rw [Bool.eq_false_iff]
  intro sign
  rw [startsBody, Bool.or_eq_true, beq_iff_eq, beq_iff_eq] at sign
  rcases sign with rfl | rfl
  all_goals exact absurd part (by decide)

theorem bodyText_of_kotlinTail? {text : List Char} {value : Option (List Char) × List Char}
    (found : kotlinTail? text = some value) : bodyText .kotlin text = value.2 := by
  obtain ⟨before, split, inside, begins⟩ := kotlinTail?_split found
  rw [split]
  refine bodyText_append (fun c member => ?_) fun c first => ?_
  · simp [startsBody, inside c member]
  · simpa [startsBody] using begins c first

def listText (rest : List Char) : List Char :=
  ((closingOffset 1 rest).map rest.take).getD rest

/-- Where the body begins in a header that ends with this text behind the parenthesis of its
list. -/
def tailPosition (dialect : Dialect) (header rest : List Char) : Option Nat :=
  (closingOffset 1 rest).map fun offset =>
    header.length - (bodyText dialect (rest.drop (offset + 1))).length

theorem withTail?_parts {α : Type} {header : List Char} {head : MethodHead}
    {tail? : List Char → Option (α × List Char)} {returnType : Option α → Option String}
    {read : MethodHeader}
    (body : ∀ {text value}, tail? text = some value → bodyText dialect text = value.2)
    (found : withTail? header head tail? returnType = some read) :
    read.parameters = listText head.rest ∧
      read.tailStart = tailPosition dialect header head.rest := by
  rw [listText, tailPosition]
  cases closing : closingOffset 1 head.rest with
  | none =>
      rw [withTail?_of_open closing] at found
      rw [← Option.some.inj found]
      exact ⟨rfl, rfl⟩
  | some offset =>
      rw [withTail?, closing] at found
      obtain ⟨value, tail, rfl⟩ := Option.map_eq_some_iff.mp found
      rw [Option.map_some, Option.map_some, body tail]
      exact ⟨rfl, rfl⟩

theorem withJavaTail?_parts {header : List Char} {head : MethodHead} {starts : List Char}
    {type : Option String} {read : MethodHeader}
    (signs : ∀ c ∈ starts, startsBody .java c = true)
    (found : withJavaTail? header head starts type = some read) :
    read.parameters = listText head.rest ∧
      read.tailStart = tailPosition .java header head.rest := by
  refine withTail?_parts (fun {text value} tail => ?_) found
  obtain ⟨body, read, rfl⟩ := Option.map_eq_some_iff.mp tail
  exact bodyText_of_javaTail? signs read

variable {className : String} {header : List Char}

theorem method?_parts {read : MethodHeader}
    (found : method? dialect className header = some read) :
    ∃ head, methodHead? dialect className header = some head ∧
      read.parameters = listText head.rest ∧
      read.tailStart = tailPosition dialect header head.rest := by
  cases dialect with
  | kotlin =>
      obtain ⟨head, headRead, tailed⟩ := Option.bind_eq_some_iff.mp found
      exact ⟨head, headRead, withTail?_parts bodyText_of_kotlinTail? tailed⟩
  | java =>
      rcases (Option.orElse_eq_some _ _ _).mp found with constructed | ⟨unconstructed, plain⟩
      · obtain ⟨head, headRead, tailed⟩ := Option.bind_eq_some_iff.mp constructed
        rw [Option.ite_none_right_eq_some] at tailed
        refine ⟨head, ?_, withJavaTail?_parts (List.all_eq_true.mp (by decide)) tailed.2⟩
        rw [methodHead?, constructed]
        exact headRead
      · obtain ⟨head, headRead, tailed⟩ := Option.bind_eq_some_iff.mp plain
        rw [Option.ite_none_left_eq_some] at tailed
        refine ⟨head, ?_, withJavaTail?_parts (List.all_eq_true.mp (by decide)) tailed.2⟩
        rw [methodHead?, unconstructed]
        exact headRead

theorem methodHead?_ends {head : MethodHead}
    (found : methodHead? dialect className header = some head) : '(' :: head.rest <:+ header := by
  cases dialect with
  | kotlin => exact kotlinFunctionHead?_ends found
  | java =>
      rw [methodHead?] at found
      split at found
      · exact constructorHead?_ends found
      · exact javaMethodHead?_ends found

theorem methodHead?_suffix {head : MethodHead}
    (found : methodHead? dialect className header = some head) : head.rest <:+ header :=
  (List.suffix_cons '(' head.rest).trans (methodHead?_ends found)

theorem head?_tail {read : MethodHeader} {start : Nat} {c : Char}
    (found : method? dialect className header = some read) (starts : read.tailStart = some start)
    (first : (header.drop start).head? = some c) : startsBody dialect c = true := by
  obtain ⟨head, headRead, -, position⟩ := method?_parts found
  rw [starts] at position
  obtain ⟨offset, -, rfl⟩ := Option.map_eq_some_iff.mp position.symm
  have behind : bodyText dialect (head.rest.drop (offset + 1)) <:+ header :=
    ((bodyText_suffix dialect _).trans (List.drop_suffix _ _)).trans (methodHead?_suffix headRead)
  rw [← List.suffix_iff_eq_drop.mp behind] at first
  exact head?_bodyText first

theorem drop_closingOffset {depth : Int} {text : List Char} {offset : Nat}
    (found : closingOffset depth text = some offset) :
    text.drop offset = ')' :: text.drop (offset + 1) := by
  induction text generalizing depth offset with
  | nil => cases found
  | cons c text ih =>
      rcases closingOffset_step depth c with ⟨rfl, closes⟩ | ⟨next, passes⟩
      · rw [closes] at found
        rw [← Option.some.inj found]
        rfl
      · rw [passes] at found
        obtain ⟨inner, closes, rfl⟩ := Option.map_eq_some_iff.mp found
        exact ih closes

/-- The parameter list is closed before the tail of a header, and no sign of a body stands between
the two. -/
theorem take_tail {read : MethodHeader} {start : Nat}
    (found : method? dialect className header = some read) (starts : read.tailStart = some start) :
    ∃ before between, header.take start = before ++ '(' :: (read.parameters ++ ')' :: between) ∧
      ∀ c ∈ between, startsBody dialect c = false := by
  obtain ⟨head, headRead, list, position⟩ := method?_parts found
  rw [starts] at position
  obtain ⟨offset, closes, rfl⟩ := Option.map_eq_some_iff.mp position.symm
  obtain ⟨before, whole⟩ := methodHead?_ends headRead
  let behind := head.rest.drop (offset + 1)
  let between := behind.takeWhile fun c => !startsBody dialect c
  have split : behind = between ++ bodyText dialect behind := List.takeWhile_append_dropWhile.symm
  have inside : read.parameters = head.rest.take offset := by
    rw [list, listText, closes]
    rfl
  have rest : head.rest = read.parameters ++ ')' :: behind := by
    rw [inside, ← drop_closingOffset closes, List.take_append_drop]
  have parts : header =
      (before ++ '(' :: (read.parameters ++ ')' :: between)) ++ bodyText dialect behind := by
    rw [← whole, rest, List.append_assoc, List.cons_append, List.append_assoc, List.cons_append,
      ← split]
  refine ⟨before, between, ?_, fun c member => ?_⟩
  · rw [parts, List.length_append, Nat.add_sub_cancel, List.take_left]
  · simpa using List.mem_takeWhile_imp member

end Bodies

section Fronts

variable {dialect : Dialect} {className : String} {front more : List Char}

theorem closingOffset_of_append {depth : Int} {left right : List Char} {offset : Nat}
    (found : closingOffset depth (left ++ right) = some offset) (early : offset < left.length) :
    closingOffset depth left = some offset := by
  induction left generalizing depth offset with
  | nil => exact absurd early (Nat.not_lt_zero offset)
  | cons c left ih =>
      rw [List.cons_append] at found
      rcases closingOffset_step depth c with ⟨-, closes⟩ | ⟨next, passes⟩
      · rw [closes] at found ⊢
        exact found
      · rw [passes] at found ⊢
        obtain ⟨inner, closes, rfl⟩ := Option.map_eq_some_iff.mp found
        rw [ih closes (Nat.lt_of_succ_lt_succ early)]
        rfl

theorem methodHead?_front (gap : IsGap front more) {whole part : MethodHead}
    (found : methodHead? dialect className (front ++ more) = some whole)
    (read : methodHead? dialect className front = some part)
    (long : more.length ≤ whole.rest.length) : whole.rest = part.rest ++ more := by
  obtain ⟨shown, split⟩ : more <:+ whole.rest :=
    List.suffix_of_suffix_length_le (List.suffix_append front more) (methodHead?_suffix found) long
  have unique {other : MethodHead} (same : some { whole with rest := shown } = some other) :
      whole.rest = other.rest ++ more := by
    rw [← Option.some.inj same, split]
  cases dialect with
  | kotlin =>
      have begins := kotlinFunctionHead?_follows.front gap found split.symm
      exact unique (begins.symm.trans read)
  | java =>
      rw [methodHead?] at found read
      split at found
      · have begins := constructorHead?_follows.front gap found split.symm
        split at read
        · exact unique (begins.symm.trans read)
        · rw [javaHeads_rest begins read, split]
      · split at read
        · have extended := constructorHead?_follows.keeps trivial gap read
          exact javaHeads_rest extended found
        · have begins := javaMethodHead?_follows.front gap found split.symm
          exact unique (begins.symm.trans read)

theorem tailPosition_front {shown : List Char} {start : Nat}
    (found : tailPosition dialect (front ++ more) (shown ++ more) = some start)
    (early : start < front.length) : tailPosition dialect front shown = some start := by
  obtain ⟨offset, closes, rfl⟩ := Option.map_eq_some_iff.mp found
  have short := (bodyText_suffix dialect ((shown ++ more).drop (offset + 1))).length_le
  rw [List.length_append] at early
  rw [List.length_drop, List.length_append] at short
  have inside : offset + 1 ≤ shown.length := by omega
  have dropped : (shown ++ more).drop (offset + 1) = shown.drop (offset + 1) ++ more :=
    List.drop_append_of_le_length inside
  have body : bodyText dialect (shown.drop (offset + 1) ++ more) =
      bodyText dialect (shown.drop (offset + 1)) ++ more := by
    rw [bodyText, List.dropWhile_append, if_neg]
    · rfl
    · intro none
      have whole : bodyText dialect (shown.drop (offset + 1) ++ more) = bodyText dialect more := by
        rw [bodyText, List.dropWhile_append, if_pos none]
        rfl
      have bound := (bodyText_suffix dialect more).length_le
      rw [dropped, whole] at early
      omega
  rw [tailPosition, closingOffset_of_append closes (by omega), Option.map_some, dropped, body,
    List.length_append, List.length_append, Nat.add_sub_add_right]

/-- If the body of a header begins in a front of it that reads, then it begins there in the front
as well. -/
theorem method?_tail_front (gap : IsGap front more) {whole part : MethodHeader}
    (found : method? dialect className (front ++ more) = some whole)
    (read : method? dialect className front = some part) {start : Nat}
    (starts : whole.tailStart = some start) (early : start < front.length) :
    part.tailStart = some start := by
  obtain ⟨head, headRead, -, position⟩ := method?_parts found
  obtain ⟨frontHead, frontRead, -, frontPosition⟩ := method?_parts read
  rw [starts, eq_comm] at position
  have long : more.length ≤ head.rest.length := by
    obtain ⟨offset, -, rfl⟩ := Option.map_eq_some_iff.mp position
    have bound := ((bodyText_suffix dialect (head.rest.drop (offset + 1))).trans
      (List.drop_suffix _ _)).length_le
    rw [List.length_append] at early
    omega
  rw [methodHead?_front gap headRead frontRead long] at position
  rw [frontPosition, tailPosition_front position early]

end Fronts

end MethodFlow.Header
