import MethodFlow.Proofs.Text.Masking

/-!
Columns. Code and mask of a line show at each column the character of the line or a space, and they
stay aligned when both are trimmed: the first character that is no blank is code or a quote, and so
it stands in both. Only a line comment makes them shorter than the line.
-/
namespace MethodFlow.MaskedLine

open Text

/-- A text is no longer than another and shows at each column the character there or a space. -/
def LiesOver (shown text : List Char) : Prop :=
  shown.length ≤ text.length ∧
    ∀ (column : Nat) (c : Char), shown[column]? = some c → c = ' ' ∨ text[column]? = some c

def modeAfter : Mode → List Char → Option Mode
  | mode, [] => some mode
  | .comment, '*' :: '/' :: rest => modeAfter .code rest
  | .comment, _ :: rest => modeAfter .comment rest
  | .literal quote, '\\' :: _ :: rest => modeAfter (.literal quote) rest
  | .literal quote, c :: rest => modeAfter (if c = quote then .code else .literal quote) rest
  | .code, '/' :: '/' :: _ => none
  | .code, '/' :: '*' :: rest => modeAfter .comment rest
  | .code, c :: rest => modeAfter (.after c) rest

@[simp] theorem modeAfter_nil (mode : Mode) : modeAfter mode [] = some mode := by
  rw [modeAfter]

namespace LiesOver

variable {shown text : List Char}

theorem nil (text : List Char) : LiesOver [] text := by
  simp [LiesOver]

theorem cons {s c : Char} (first : s = ' ' ∨ s = c) (rest : LiesOver shown text) :
    LiesOver (s :: shown) (c :: text) := by
  refine ⟨Nat.succ_le_succ rest.1, fun column d here => ?_⟩
  cases column with
  | zero =>
      obtain rfl := Option.some.inj here
      exact first.imp_right fun same => congrArg some same.symm
  | succ column => exact rest.2 column d here

theorem drop (lies : LiesOver shown text) (count : Nat) :
    LiesOver (shown.drop count) (text.drop count) := by
  refine ⟨?_, fun column c here => ?_⟩
  · have bound := lies.1
    rw [List.length_drop, List.length_drop]
    omega
  · rw [List.getElem?_drop] at here ⊢
    exact lies.2 _ c here

theorem trimRight (lies : LiesOver shown text) :
    LiesOver (Text.trimRight shown) (Text.trimRight text) := by
  obtain ⟨blanksShown, -, splitShown⟩ := exists_trimRight_append shown
  obtain ⟨blanks, blank, split⟩ := exists_trimRight_append text
  have kept {column : Nat} {c : Char} (here : (Text.trimRight shown)[column]? = some c) :
      c = ' ' ∨ text[column]? = some c := by
    apply lies.2
    have bound := (List.getElem?_eq_some_iff.mp here).1
    rw [splitShown, List.getElem?_append_left bound]
    exact here
  have bound : (Text.trimRight shown).length ≤ (Text.trimRight text).length := by
    by_contra longer
    obtain ⟨c, last⟩ : ∃ c, (Text.trimRight shown).getLast? = some c := by
      rw [← Option.isSome_iff_exists, List.getLast?_isSome, ← List.length_pos_iff]
      omega
    have solid := isBlank_of_getLast?_trimRight last
    rw [List.getLast?_eq_getElem?] at last
    have stands := (kept last).resolve_left (ne_of_isBlank (by decide) solid).symm
    rw [split, List.getElem?_append_right (by omega)] at stands
    rw [blank c (List.mem_of_getElem? stands)] at solid
    cases solid
  refine ⟨bound, fun column c here => ?_⟩
  have inside := (List.getElem?_eq_some_iff.mp here).1
  have same := kept here
  rwa [split, List.getElem?_append_left (by omega)] at same

end LiesOver

section Reading

/-- What becomes of a line that is read in this mode: the code lies over the line and the mask over
the code, and only a line comment is left out. -/
structure Shows (mode : Mode) (line : List Char) (masked : MaskedLine) : Prop where
  code : LiesOver masked.code line
  mask : LiesOver masked.mask masked.code
  length : masked.mask.length = masked.code.length
  cut : masked.code.length < line.length →
    ['/', '/'] <+: line.drop masked.code.length ∧
      modeAfter mode (line.take masked.code.length) = some .code

namespace Shows

variable {mode next : Mode} {line : List Char} {masked : MaskedLine}

theorem push (shows : Shows next line masked) {c s m : Char} (code : s = ' ' ∨ s = c)
    (mask : m = ' ' ∨ m = s)
    (step : ∀ count, modeAfter mode (c :: line.take count) = modeAfter next (line.take count)) :
    Shows mode (c :: line) (masked.push s m) where
  code := shows.code.cons code
  mask := shows.mask.cons mask
  length := congrArg (· + 1) shows.length
  cut shorter := by
    obtain ⟨slashes, leads⟩ := shows.cut (Nat.lt_of_succ_lt_succ shorter)
    exact ⟨slashes, (step _).trans leads⟩

theorem pushTwo (shows : Shows next line masked) {c d s t : Char} (first : s = ' ' ∨ s = c)
    (second : t = ' ' ∨ t = d)
    (step : ∀ text, modeAfter mode (c :: d :: text) = modeAfter next text) :
    Shows mode (c :: d :: line) ((masked.push t ' ').push s ' ') where
  code := (shows.code.cons second).cons first
  mask := (shows.mask.cons (.inl rfl)).cons (.inl rfl)
  length := congrArg (· + 2) shows.length
  cut shorter := by
    obtain ⟨slashes, leads⟩ := shows.cut (Nat.lt_of_succ_lt_succ (Nat.lt_of_succ_lt_succ shorter))
    exact ⟨slashes, (step _).trans leads⟩

end Shows

section Steps

variable {c quote : Char} {text : List Char}

theorem modeAfter_plain (plain : IsPlain c text) :
    modeAfter .code (c :: text) = modeAfter (.after c) text := by
  apply modeAfter.eq_8
  · rintro tail rfl rfl
    exact (plain rfl).1 rfl
  · rintro tail rfl rfl
    exact (plain rfl).2 rfl

theorem modeAfter_literal (escape : c = '\\' → text = []) :
    modeAfter (.literal quote) (c :: text) =
      modeAfter (if c = quote then .code else .literal quote) text := by
  apply modeAfter.eq_5
  intro next tail backslash more
  cases (escape backslash).symm.trans more

theorem IsPlain.take (plain : IsPlain c text) (count : Nat) : IsPlain c (text.take count) := by
  intro slash
  obtain ⟨noSlash, noStar⟩ := plain slash
  rw [List.head?_take]
  split
  · simp
  · exact ⟨noSlash, noStar⟩

end Steps

theorem unescaped {c : Char} {rest : List Char}
    (escape : ∀ (next : Char) (tail : List Char), c = '\\' → rest = next :: tail → False)
    (backslash : c = '\\') : rest = [] := by
  cases rest with
  | nil => rfl
  | cons next tail => exact (escape next tail backslash rfl).elim

theorem read_shows (mode : Mode) (line : List Char) : Shows mode line (read mode line) := by
  fun_induction read mode line with
  | case1 mode => exact ⟨.nil _, .nil _, rfl, fun shorter => absurd shorter (lt_irrefl _)⟩
  | case2 rest ih => exact ih.pushTwo (.inl rfl) (.inl rfl) fun _ => rfl
  | case3 c rest unlike ih =>
      refine ih.push (.inl rfl) (.inl rfl) fun count => modeAfter.eq_3 _ _ ?_
      intro tail star more
      cases rest with
      | nil => simp at more
      | cons next rest =>
          cases count with
          | zero => cases more
          | succ count => exact unlike rest star (by rw [(List.cons.inj more).1])
  | case4 quote c rest ih => exact ih.pushTwo (.inr rfl) (.inr rfl) fun _ => rfl
  | case5 quote rest escape ih =>
      refine ih.push (.inr rfl) (.inr rfl) fun count => ?_
      rw [modeAfter_literal fun backslash => by rw [unescaped escape backslash, List.take_nil],
        if_pos rfl]
  | case6 quote c rest escape inside ih =>
      refine ih.push (.inr rfl) (.inl rfl) fun count => ?_
      rw [modeAfter_literal fun backslash => by rw [unescaped escape backslash, List.take_nil],
        if_neg inside]
  | case7 tail => exact ⟨.nil _, .nil _, rfl, fun _ => ⟨⟨tail, rfl⟩, rfl⟩⟩
  | case8 rest ih => exact ih.pushTwo (.inl rfl) (.inl rfl) fun _ => rfl
  | case9 c rest slash star ih =>
      have plain := isPlain_of_unlike slash star
      exact ih.push (.inr rfl) (.inr rfl) fun count => modeAfter_plain (plain.take count)

end Reading

section Joining

def append (first second : MaskedLine) : MaskedLine :=
  ⟨first.code ++ second.code, first.mask ++ second.mask, second.inComment⟩

/-- Whether a text goes on with a character that makes no comment of the one before it. -/
def StartsPlain (text : List Char) : Prop :=
  ∀ c, text.head? = some c → c ≠ '/' ∧ c ≠ '*'

theorem StartsPlain.head? {rest right : List Char} (plain : StartsPlain right) {c : Char}
    (mark : c = '/' ∨ c = '*') (first : (rest ++ right).head? = some c) : rest.head? = some c := by
  cases rest with
  | cons next tail => exact first
  | nil =>
      obtain ⟨noSlash, noStar⟩ := plain c first
      exact (mark.elim noSlash noStar).elim

theorem read_single {c : Char} (slash : c ≠ '/') (unquoted : isQuote c = false)
    (rest : List Char) : read .code (c :: rest) = (read .code rest).push c c := by
  rw [read_plain fun same => absurd same slash, Mode.after, unquoted]
  rfl

/-- A part of a line that leads back to code, and what follows it, are masked apart. -/
theorem read_append {mode : Mode} (proper : mode.IsProper) {left right : List Char}
    (leads : modeAfter mode left = some .code) (plain : StartsPlain right) :
    read mode (left ++ right) = (read mode left).append (read .code right) := by
  fun_induction modeAfter mode left with
  | case1 mode =>
      obtain rfl := Option.some.inj leads
      rfl
  | case2 rest ih =>
      rw [List.cons_append, List.cons_append, read, read, ih trivial leads]
      rfl
  | case3 c rest unlike ih =>
      have unlikeMore (tail : List Char) (star : c = '*') (more : rest ++ right = '/' :: tail) :
          False := by
        have next := plain.head? (.inl rfl) (congrArg List.head? more)
        obtain ⟨others, rfl⟩ := List.head?_eq_some_iff.mp next
        exact unlike others star rfl
      rw [List.cons_append, read.eq_3 _ _ unlikeMore, read.eq_3 _ _ unlike, ih trivial leads]
      rfl
  | case4 quote c rest ih =>
      rw [List.cons_append, List.cons_append, read, read, ih proper leads]
      rfl
  | case5 quote c rest escape ih =>
      have solid : c ≠ '\\' := by
        intro backslash
        rw [unescaped escape backslash, modeAfter_nil] at leads
        split at leads
        · rename_i closing
          rw [← closing, backslash] at proper
          cases proper
        · cases leads
      have apart (rest : List Char) : c = '\\' → rest = [] := fun same => absurd same solid
      by_cases closing : c = quote
      · subst closing
        rw [if_pos rfl] at leads ih
        rw [List.cons_append, read_closing proper, read_closing proper, ih trivial leads]
        rfl
      · rw [if_neg closing] at leads ih
        rw [List.cons_append, read_inside (apart _) closing, read_inside (apart _) closing,
          ih proper leads]
        rfl
  | case6 tail => cases leads
  | case7 rest ih =>
      rw [List.cons_append, List.cons_append, read, read, ih trivial leads]
      rfl
  | case8 c rest slash star ih =>
      have plainHere := isPlain_of_unlike slash star
      have plainMore : IsPlain c (rest ++ right) := fun same =>
        (plainHere same).imp (mt (plain.head? (.inl rfl))) (mt (plain.head? (.inr rfl)))
      rw [List.cons_append, read_plain plainMore, read_plain plainHere,
        ih (Mode.after_isProper c) leads]
      rfl

end Joining

section Trimming

theorem trimLeft_eq_drop (text : List Char) :
    trimLeft text = text.drop (text.takeWhile isBlank).length := by
  calc
    trimLeft text = (text.takeWhile isBlank ++ text.dropWhile isBlank).drop
        (text.takeWhile isBlank).length := List.drop_left.symm
    _ = text.drop (text.takeWhile isBlank).length := by rw [List.takeWhile_append_dropWhile]

theorem trimRight_isPrefix (text : List Char) : trimRight text <+: text := by
  obtain ⟨blanks, -, split⟩ := exists_trimRight_append text
  exact ⟨blanks, split.symm⟩

theorem trim_eq_nil_iff (text : List Char) : trim text = [] ↔ trimLeft text = [] := by
  constructor
  · intro blank
    cases first : trimLeft text with
    | nil => rfl
    | cons c rest =>
        have solid := List.head?_dropWhile_not isBlank text
        rw [← trimLeft, first] at solid
        rw [trim, first, trimRight, List.reverse_eq_nil_iff, List.dropWhile_eq_nil_iff] at blank
        cases solid.symm.trans (blank c (by simp))
  · intro blank
    rw [trim, blank]
    rfl

/-- Outside of literals a line begins with the same blanks in its code and in its mask: what is no
blank in the code is no part of a literal, or it is the quote that opens one. -/
theorem indent_eq {mode : Mode} (outside : ∀ quote, mode ≠ .literal quote) (line : List Char) :
    ((read mode line).mask.takeWhile isBlank).length =
      ((read mode line).code.takeWhile isBlank).length := by
  have space : isBlank ' ' = true := by decide
  fun_induction read mode line with
  | case1 mode => rfl
  | case2 rest ih => simpa [pushBlank, push, space] using ih (by simp)
  | case3 c rest unlike ih => simpa [pushBlank, push, space] using ih (by simp)
  | case4 quote c rest ih => exact absurd rfl (outside quote)
  | case5 quote rest escape ih => exact absurd rfl (outside quote)
  | case6 quote c rest escape inside ih => exact absurd rfl (outside quote)
  | case7 tail => rfl
  | case8 rest ih => simpa [pushBlank, push, space] using ih (by simp)
  | case9 c rest slash star ih =>
      cases blank : isBlank c with
      | false => simp [push, blank]
      | true =>
          have unquoted : isQuote c = false := by
            rw [Bool.eq_false_iff]
            intro quotes
            rw [isBlank_of_isQuote quotes] at blank
            cases blank
          simp only [unquoted] at ih ⊢
          simpa [push, blank] using ih (by simp)

theorem exists_indent (inComment : Bool) (line : List Char) :
    ∃ indent, trimLeft (ofLine inComment line).mask = (ofLine inComment line).mask.drop indent ∧
      trimLeft (ofLine inComment line).code = (ofLine inComment line).code.drop indent := by
  have outside (quote : Char) : (if inComment then Mode.comment else .code) ≠ .literal quote := by
    cases inComment <;> simp
  refine ⟨_, trimLeft_eq_drop _, ?_⟩
  rw [ofLine, indent_eq outside]
  exact trimLeft_eq_drop _

end Trimming

/-- Columns stay aligned. The code of a line lies over the line and the mask over the code, as long
as each other, and where they are shorter than the line a line comment begins. Trimmed, they still
begin at one column, and the mask lies over the code; neither is empty unless the other is. -/
theorem columns_aligned (inComment : Bool) (line : List Char) :
    let masked := ofLine inComment line
    let code := masked.trimmed.code
    let mask := masked.trimmed.mask
    masked.mask.length = masked.code.length ∧
      LiesOver masked.code line ∧ LiesOver masked.mask masked.code ∧
      (masked.code.length < line.length →
        ['/', '/'] <+: line.drop masked.code.length ∧
          modeAfter (if inComment then .comment else .code) (line.take masked.code.length) =
            some .code) ∧
      LiesOver mask code ∧ (mask = [] ↔ code = []) ∧
      ∃ indent, mask <+: masked.mask.drop indent ∧ code <+: masked.code.drop indent := by
  intro masked code mask
  have shows : Shows _ line masked := read_shows _ line
  obtain ⟨indent, maskTrimmed, codeTrimmed⟩ := exists_indent inComment line
  have maskFront : mask <+: masked.mask.drop indent := by
    rw [← maskTrimmed]
    exact trimRight_isPrefix _
  have codeFront : code <+: masked.code.drop indent := by
    rw [← codeTrimmed]
    exact trimRight_isPrefix _
  have together : mask = [] ↔ code = [] := by
    have lengths : (ofLine inComment line).mask.length = (ofLine inComment line).code.length :=
      shows.length
    change trim masked.mask = [] ↔ trim masked.code = []
    rw [trim_eq_nil_iff, trim_eq_nil_iff, maskTrimmed, codeTrimmed, List.drop_eq_nil_iff,
      List.drop_eq_nil_iff]
    omega
  have lies : LiesOver mask code := by
    change LiesOver (trimRight (trimLeft masked.mask)) (trimRight (trimLeft masked.code))
    rw [maskTrimmed, codeTrimmed]
    exact (shows.mask.drop indent).trimRight
  exact ⟨shows.length, shows.code, shows.mask, shows.cut, lies, together, indent, maskFront,
    codeFront⟩

def crowdedLine : List Char :=
  "\t/* \" */ log(\"// \\\"\", '\\'');\u00a0 // end".toList

theorem crowdedLine_aligned :
    let masked := ofLine false crowdedLine
    masked.code.length < crowdedLine.length ∧
      ['/', '/'] <+: crowdedLine.drop masked.code.length ∧
      modeAfter .code (crowdedLine.take masked.code.length) = some .code ∧
      LiesOver masked.trimmed.mask masked.trimmed.code ∧
      masked.trimmed.mask = "log(\"     \", '  ');".toList ∧
      masked.trimmed.code = "log(\"// \\\"\", '\\'');".toList := by
  intro masked
  have shorter : masked.code.length < crowdedLine.length := by decide +kernel
  obtain ⟨-, -, -, cut, lies, -, -⟩ := columns_aligned false crowdedLine
  exact ⟨shorter, (cut shorter).1, (cut shorter).2, lies, by decide +kernel, by decide +kernel⟩

end MethodFlow.MaskedLine
