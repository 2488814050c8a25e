import MethodFlow.Proofs.Header.ClassBodies
import MethodFlow.Proofs.Header.MethodBodies
import MethodFlow.Proofs.Scan.Formatting
import MethodFlow.Proofs.Scan.JoinedHeaders
import MethodFlow.Proofs.Scan.Wrapping
import MethodFlow.Proofs.Text.Unmarked

/-!
The brace that opens a body may stand behind the header or on a line of its own. Both ways lead to
the same scan, with its headers joined, and the source has the same classes, with the lines numbered
as they stand.
-/
namespace MethodFlow.Scan

open Text Header MaskedLine

abbrev Line.plain (text : List Char) (number : Int) : Line :=
  ⟨text, text, number⟩

section Lines

/-- A stripped line without braces, quotes and comments. -/
structure IsBare (raw : List Char) : Prop where
  stripped : trim raw = raw
  braceless : '{' ∉ raw ∧ '}' ∉ raw
  unquoted : ∀ c ∈ raw, isQuote c = false
  uncommented : (MaskedLine.ofLine false raw).code = raw

instance (raw : List Char) : Decidable (IsBare raw) :=
  decidable_of_iff (trim raw = raw ∧ ('{' ∉ raw ∧ '}' ∉ raw) ∧ raw.all (!isQuote ·) = true ∧
      (MaskedLine.ofLine false raw).code = raw) <| by
    simp only [List.all_eq_true, Bool.not_eq_true']
    exact ⟨fun ⟨stripped, braceless, unquoted, uncommented⟩ =>
        ⟨stripped, braceless, unquoted, uncommented⟩,
      fun ⟨stripped, braceless, unquoted, uncommented⟩ =>
        ⟨stripped, braceless, unquoted, uncommented⟩⟩

/-- How a scan reads a line without the brace of a body behind it and with the brace. -/
structure ShowsHeader (scan : Scan) (raw text : List Char) : Prop where
  bodiless : IsBodiless text
  closeless : '}' ∉ text
  line (number : Int) : scan.readLine raw number = .plain text number
  braced (number : Int) :
    scan.readLine (raw ++ bodyBrace) number = .plain (text ++ bodyBrace) number
  comments : scan.pastComments raw = { scan with inComment := false }
  bracedComments : scan.pastComments (raw ++ bodyBrace) = { scan with inComment := false }

theorem mem_of_showsEnd {mode : Mode} {raw shown : List Char} (shows : ShowsEnd mode raw shown)
    {c : Char} (member : c ∈ shown) (solid : c ≠ ' ') : c ∈ raw := by
  have lies := (read_shows mode raw).code
  rw [shows.read] at lies
  obtain ⟨column, here⟩ := List.mem_iff_getElem?.mp member
  rcases lies.2 column c here with space | same
  · exact absurd space solid
  · exact List.mem_of_getElem? same

theorem IsBare.showsEnd {scan : Scan} {raw : List Char} (bare : IsBare raw) {number : Int}
    (visible : (scan.readLine raw number).isSkipped = false) :
    ∃ shown, ShowsEnd (if scan.inComment then .comment else .code) raw shown := by
  have unmarked : IsUnmarked raw := ⟨bare.unquoted, bare.uncommented⟩
  cases inComment : scan.inComment with
  | false => exact ⟨raw, unmarked.showsEnd⟩
  | true =>
      rcases unmarked.showsEnd_comment with shows | blank
      · exact shows
      · have skipped : (scan.readLine raw number).isSkipped = true := by
          simp [Line.isSkipped, readLine, inComment, MaskedLine.ofLine, MaskedLine.trimmed,
            trim_of_blanks blank]
        rw [skipped] at visible
        cases visible

theorem IsBare.showsHeader {scan : Scan} {raw : List Char} (bare : IsBare raw) {number : Int}
    (visible : (scan.readLine raw number).isSkipped = false) :
    ∃ text, scan.ShowsHeader raw text := by
  obtain ⟨shown, shows⟩ := bare.showsEnd visible
  have alone : MaskedLine.ofLine scan.inComment raw = ⟨shown, shown, false⟩ := shows.read
  have proper : (if scan.inComment then Mode.comment else .code).IsProper := by
    cases scan.inComment <;> trivial
  have more : MaskedLine.ofLine scan.inComment (raw ++ bodyBrace) =
      ⟨shown ++ bodyBrace, shown ++ bodyBrace, false⟩ := by
    have plain : StartsPlain bodyBrace := by simp [StartsPlain, bodyBrace]
    have brace : MaskedLine.read .code bodyBrace = ⟨bodyBrace, bodyBrace, false⟩ := by decide
    rw [MaskedLine.ofLine, read_append proper shows.leads plain, shows.read, brace]
    rfl
  have nonempty : shown ≠ [] := by
    rintro rfl
    simp [Line.isSkipped, readLine, alone, MaskedLine.trimmed, trim, trimLeft, trimRight] at visible
  obtain ⟨front, c, rfl⟩ := (List.eq_nil_or_concat' shown).resolve_left nonempty
  have solid : isBlank c = false := by
    have last := shows.last
    rw [List.getLast?_concat, ← bare.stripped] at last
    exact isBlank_of_getLast?_trimRight last.symm
  have ends : trimRight bodyBrace = bodyBrace := by decide
  have within {d : Char} (member : d ∈ trimLeft front ++ [c]) (other : d ≠ ' ') : d ∈ raw := by
    refine mem_of_showsEnd shows ?_ other
    rw [List.mem_append] at member ⊢
    exact member.imp (fun inside => (List.dropWhile_suffix isBlank).subset inside) id
  refine ⟨trimLeft front ++ [c], ⟨⟨?_, rfl⟩, ?_⟩, ?_, ?_, ?_, ?_, ?_⟩
  · intro d last
    rw [List.getLast?_concat, Option.some.injEq] at last
    exact last ▸ solid
  · exact fun member => bare.braceless.1 (within member (by decide))
  · exact fun member => bare.braceless.2 (within member (by decide))
  · intro number
    simp [readLine, alone, MaskedLine.trimmed, trim_append_cons solid, trimRight]
  · intro number
    simp [readLine, more, MaskedLine.trimmed, trim_append_cons solid, ends]
  · rw [pastComments, alone]
  · rw [pastComments, more]

end Lines

def deeper (scan : Scan) : Scan :=
  { scan with depth := scan.depth + 1 }

namespace ShowsHeader

variable {scan : Scan} {raw text : List Char} (shows : scan.ShowsHeader raw text)

include shows

theorem braceBalance_eq : braceBalance text = 0 := by
  simp [braceBalance, List.count_eq_zero.mpr shows.bodiless.braceless,
    List.count_eq_zero.mpr shows.closeless]

theorem pastBraces_eq (number : Int) :
    scan.pastBraces raw number = { scan with inComment := false } := by
  rw [pastBraces, shows.comments, shows.line, shows.braceBalance_eq, Int.add_zero]

theorem pastBraces_braced (number : Int) :
    scan.pastBraces (raw ++ bodyBrace) number = { scan with inComment := false }.deeper := by
  have balance : braceBalance (text ++ bodyBrace) = 1 := by
    have level := shows.braceBalance_eq
    have brace : bodyBrace.count '{' = 1 ∧ bodyBrace.count '}' = 0 := by decide
    rw [braceBalance] at level ⊢
    rw [List.count_append, List.count_append, brace.1, brace.2]
    omega
  rw [pastBraces, shows.bracedComments, shows.braced, balance]
  rfl

end ShowsHeader

section Opening

variable {scan : Scan} {line : Line} {depth : Int}

def awaitsBody (scan : Scan) : Bool :=
  match scan.method, scan.classes with
  | some method, _ => !method.entered
  | none, cls :: _ => !cls.entered
  | none, [] => false

theorem package_plain : ArePlain ["package"] := by
  have checked : ("package".toList.all fun c => !isBlank c && c != '@' && c != '(') = true := by
    decide
  intro word listed c member
  obtain rfl := List.mem_singleton.mp listed
  simpa [and_assoc] using List.all_eq_true.mp checked c member

theorem package?_braced (text : List Char) : package? (text ++ bodyBrace) = none := by
  rw [Option.eq_none_iff_forall_ne_some]
  intro name found
  obtain ⟨⟨keyword, left⟩, announced, read⟩ := Option.bind_eq_some_iff.mp found
  have suffix : left <:+ text ++ bodyBrace :=
    (@keyword?_follows True _ package_plain).suffix announced
  simp only [Option.ite_none_right_eq_some, Bool.and_eq_true, Bool.not_eq_true',
    Bool.or_eq_true, beq_iff_eq] at read
  obtain ⟨⟨named, ends⟩, -⟩ := read
  -- The brace stands behind the name, where at most a semicolon may stand.
  have nonempty : left ≠ [] := by
    rintro rfl
    cases named
  have brace : '{' ∈ left := by
    obtain ⟨front, whole⟩ := suffix
    have last : (front ++ left).getLast? = some '{' := by
      rw [whole, bodyBrace, List.append_cons, List.getLast?_concat]
    rw [List.getLast?_append_of_ne_nil front nonempty] at last
    exact List.mem_of_getLast? last
  have behind : '{' ∈ trimLeft (left.dropWhile fun c => isWord c || c == '.') := by
    have solid : isBlank '{' = false := by decide
    have parted := left.takeWhile_append_dropWhile (p := fun c => isWord c || c == '.')
    rw [← parted, List.mem_append] at brace
    rw [← List.count_pos_iff, count_trimLeft solid, List.count_pos_iff]
    refine brace.resolve_left fun inName => ?_
    have part := List.mem_takeWhile_imp inName
    exact absurd part (by decide)
  rcases ends with empty | semicolon
  · rw [empty] at behind
    cases behind
  · rw [semicolon] at behind
    cases behind with
    | tail _ member => cases member

theorem packageLine?_braced (scan : Scan) (text : List Char) (number : Int) :
    scan.packageLine? (.plain (text ++ bodyBrace) number) = none := by
  simp [packageLine?, package?_braced]

theorem ownLine_of_class {cls : OpenClass} (unstated : scan.packageLine? line = none)
    (opens : scan.newClass? line depth = some cls) :
    scan.ownLine line depth = { scan with classes := cls :: scan.classes }.resolveClass line := by
  rw [ownLine, unstated, classLine?_eq, opens]
  rfl

theorem ownLine_of_method {method : OpenMethod} (unstated : scan.packageLine? line = none)
    (unopened : scan.newClass? line depth = none)
    (opens : scan.newMethod? line depth = some method) :
    scan.ownLine line depth = scan.resolveMethod method line := by
  rw [ownLine, unstated, classLine?_eq, unopened, methodLine?_eq, opens]
  rfl

theorem closeMethod_deeper (scan : Scan) : scan.deeper.closeMethod = scan.closeMethod.deeper := by
  simp only [closeMethod, deeper]
  split <;> rfl

theorem closeClass_deeper (scan : Scan) : scan.deeper.closeClass = scan.closeClass.deeper := by
  unfold closeClass
  rw [closeMethod_deeper]
  generalize scan.closeMethod = next
  simp only [deeper]
  split <;> rfl

theorem withoutPending_deeper (scan : Scan) :
    scan.deeper.withoutPending = scan.withoutPending.deeper := by
  unfold withoutPending
  rw [closeMethod_deeper, closeClass_deeper]
  simp only [deeper]
  split
  · split <;> rfl
  · split <;> rfl
  · rfl

theorem withoutPending_frame (scan : Scan) : scan.withoutPending.frame = scan.frame := by
  rcases withoutPending_cases scan with kept | closed | closed
  · rw [kept]
  · rw [closed, closeMethod_frame]
  · rw [closed, closeClass_frame]

theorem continuesHeader_braced {text : List Char} (nonempty : text ≠ []) (scan : Scan)
    (number : Int) :
    scan.deeper.continuesHeader (.plain (text ++ bodyBrace) number) =
      scan.continuesHeader (.plain text number) := by
  simp only [continuesHeader, deeper, continues_braced _ nonempty]

end Opening

/-- A header stands for itself with its brace just as without, whatever waited before it. -/
theorem ShowsHeader.feed_eq {scan : Scan} {raw text : List Char} (shows : scan.ShowsHeader raw text)
    {number : Int} {opening : Opening} (opens : scan.openingOf raw number = some opening) :
    ∃ here : Scan, here.inComment = false ∧
      here.ownOpening? (.plain text number) here.depth = some opening ∧
      scan.feed raw number = here.ownLine (.plain text number) here.depth ∧
      scan.feed (raw ++ bodyBrace) number =
        here.deeper.ownLine (.plain (text ++ bodyBrace) number) here.depth := by
  have frame := withoutPending_frame { scan with inComment := false }
  have depth : { scan with inComment := false }.withoutPending.depth = scan.depth :=
    congrArg (fun frame => frame.2.2.1) frame
  unfold openingOf at opens
  dsimp only at opens
  rw [Option.ite_none_left_eq_some, shows.line, shows.pastBraces_eq, opening?,
    Option.ite_none_left_eq_some] at opens
  obtain ⟨visible, standing, opens⟩ := opens
  rw [Bool.not_eq_true] at visible standing
  have nonempty : text ≠ [] := by
    rintro rfl
    cases visible
  have first : (text ++ bodyBrace).head? = text.head? := List.head?_append_of_ne_nil text nonempty
  have visibleBraced : (Line.plain (text ++ bodyBrace) number).isSkipped = false := by
    simp only [Line.isSkipped, Bool.or_eq_false_iff] at visible ⊢
    rw [first]
    exact ⟨by simp [nonempty], visible.2⟩
  have standingBraced := (continuesHeader_braced nonempty _ number).trans standing
  refine ⟨{ scan with inComment := false }.withoutPending,
    congrArg (fun frame => frame.2.2.2) frame, ?_⟩
  rw [depth]
  refine ⟨opens, ?_, ?_⟩
  · rw [Scan.feed_eq, shows.line, visible, shows.pastBraces_eq]
    exact afterHeader_of_standing _ _ _ standing
  · rw [Scan.feed_eq, shows.braced, visibleBraced, shows.pastBraces_braced,
      ← withoutPending_deeper]
    exact afterHeader_of_standing _ _ _ standingBraced

theorem feed_brace {scan : Scan} (free : scan.inComment = false) (number : Int) :
    scan.feed ['{'] number = scan.deeper.afterHeader (.plain ['{'] number) scan.depth := by
  have read : MaskedLine.ofLine scan.inComment ['{'] = ⟨['{'], ['{'], false⟩ := by
    rw [free]
    decide
  have line : scan.readLine ['{'] number = .plain ['{'] number := by
    have solid : trim ['{'] = ['{'] := by decide
    simp only [readLine, read, MaskedLine.trimmed, solid]
  have braces : scan.pastBraces ['{'] number = scan.deeper := by
    have balance : braceBalance ['{'] = 1 := by decide
    rw [pastBraces, line, pastComments, read, balance, deeper, ← free]
  rw [Scan.feed_eq, line, braces]
  rfl

theorem continues_brace (header : List Char) : continues header ['{'] = true := by
  have starts : startsAsMore ['{'] = true := by decide
  simp [continues, starts]

def within (scan : Scan) (cls : OpenClass) : Scan :=
  { scan with classes := cls :: scan.classes }

section Classes

variable (scan : Scan) {line : Line} {cls : OpenClass}

def rereadClass (cls : OpenClass) : OpenClass :=
  { cls with
    supertypes := (supertypes? scan.dialect (joined cls.header)).getD cls.supertypes }

theorem resolveClass_of_braceless (braceless : '{' ∉ line.mask) :
    (scan.within cls).resolveClass line = scan.within (scan.rereadClass cls) := by
  simp [within, resolveClass, modifyClass, braceless, rereadClass]

theorem resolveClass_of_brace (brace : '{' ∈ line.mask) (inside : cls.baseDepth < scan.depth) :
    (scan.within cls).resolveClass line =
      scan.within { scan.rereadClass cls with entered := true } := by
  simp [within, resolveClass, modifyClass, brace, inside, rereadClass]

end Classes

theorem joined_brace (text : List Char) : joined [text, ['{']] = text ++ bodyBrace := by
  rw [joined, unwords_cons (List.cons_ne_nil _ _), unwords_singleton]
  rfl

theorem oneLine_brace (text : List Char) : oneLine [text, ['{']] = oneLine [text ++ bodyBrace] := by
  rw [oneLine_singleton, ← joined_brace]
  rfl

/-- The supertypes that a header has once its brace is read do not depend on whether it was read
before. -/
theorem supertypes?_getD {dialect : Dialect} {text : List Char} (bodiless : IsBodiless text)
    (other : Supertypes) :
    (supertypes? dialect (text ++ bodyBrace)).getD ((supertypes? dialect text).getD other) =
      (supertypes? dialect (text ++ bodyBrace)).getD other := by
  cases braced : supertypes? dialect (text ++ bodyBrace) with
  | some supers => rfl
  | none =>
      have unread : supertypes? dialect text = none := by
        rw [← Option.not_isSome_iff_eq_none]
        intro read
        have still : (supertypes? dialect (text ++ bodyBrace)).isSome = true :=
          (supertypes?_takesBrace dialect).takes bodiless read
        rw [braced] at still
        cases still
      rw [unread]
      rfl

theorem brace_after_class {here : Scan} {text : List Char} (bodiless : IsBodiless text)
    (free : here.method = none) (outside : here.inComment = false) (name : String) (number : Int) :
    let line := Line.plain text number
    let braced := Line.plain (text ++ bodyBrace) number
    (((here.within (line.newClass name here.depth)).resolveClass line).feed ['{']
        (number + 1)).joinHeaders =
      ((here.deeper.within (braced.newClass name here.depth)).resolveClass braced).joinHeaders := by
  intro line braced
  have below : here.depth < here.deeper.depth := Int.lt_succ here.depth
  let waiting := here.rereadClass (line.newClass name here.depth)
  have entered : ((here.within waiting).feed ['{'] (number + 1)) = here.deeper.within
      { here.rereadClass { waiting with header := [text, ['{']] } with entered := true } := by
    rw [@feed_brace (here.within waiting) outside,
      @afterHeader_of_class (here.within waiting).deeper _ waiting here.classes free rfl rfl
        (continues_brace _)]
    exact resolveClass_of_brace here.deeper List.mem_cons_self below
  have inLine : '{' ∈ braced.mask := by simp [braced, bodyBrace]
  rw [resolveClass_of_braceless here bodiless.braceless, entered,
    resolveClass_of_brace here.deeper inLine below]
  refine congrArg here.deeper.joinHeaders.within ?_
  have supers := @supertypes?_getD here.dialect text bodiless ⟨none, []⟩
  have header : joined [text] = text ∧ joined [text ++ bodyBrace] = text ++ bodyBrace :=
    ⟨unwords_singleton _, unwords_singleton _⟩
  simp only [OpenClass.joinHeader, rereadClass, waiting, line, braced, Line.newClass, deeper,
    joined_brace, oneLine_brace, header.1, header.2, supers]

theorem statements_of_brace (scan : Scan) {line : Line} (same : line.code = line.mask)
    (bare : line.mask ∈ [[], ['{'], bodyBrace]) : scan.statements line = [] := by
  rw [statements, Line.statements, same]
  simp only [List.mem_cons, List.not_mem_nil, or_false] at bare
  rcases bare with mask | mask | mask
  · rw [mask]
    cases scan.dialect <;> rfl
  · rw [mask]
    cases scan.dialect <;> rfl
  · rw [mask]
    cases scan.dialect <;> rfl

section Methods

variable {scan : Scan} {method : OpenMethod} {line : Line} {read : MethodHeader}

theorem Tail.ofText_eq_awaited {text : List Char} (awaited : Tail.ofText text = .awaited) :
    text = [] ∨ text = ['='] := by
  unfold Tail.ofText at awaited
  split at awaited
  · exact .inl rfl
  · exact .inr rfl
  · cases awaited
  · cases awaited

/-- A method without a brace in its header waits for its body, or else it is closed by the end of
its line. -/
theorem resolveMethod_of_waiting {cls : OpenClass} {outer : List OpenClass}
    (opened : scan.classes = cls :: outer) (entered : cls.entered = true)
    (level : method.baseDepth = scan.depth)
    (found : method? scan.dialect method.className (joined method.header) = some read)
    (awaits : (scan.resolveMethod method line).awaitsBody = true) :
    scan.resolveMethod method line = scan.holding (scan.reread method read) ∧
      ∀ start, read.tailStart = some start →
        (joined method.header).drop start = [] ∨ (joined method.header).drop start = ['='] := by
  have closed (other : OpenMethod) : (scan.holding other).closeMethod.awaitsBody = false := by
    simp [closeMethod, holding, opened, awaitsBody, entered]
  rw [resolveMethod_of_some scan line method found] at awaits ⊢
  cases starts : read.tailStart with
  | none => exact ⟨rfl, fun start found => by cases found⟩
  | some start =>
      rw [starts] at awaits
      dsimp only at awaits ⊢
      cases tail : Tail.ofText ((joined method.header).drop start) with
      | awaited =>
          refine ⟨rfl, fun other same => ?_⟩
          obtain rfl := Option.some.inj same
          exact Tail.ofText_eq_awaited tail
      | missing =>
          rw [tail] at awaits
          exact absurd awaits (Bool.eq_false_iff.mp (closed _))
      | present =>
          have shallow : ¬ (scan.reread method read).baseDepth < scan.depth :=
            fun below => absurd level (Int.ne_of_lt below)
          rw [tail, atTail, enterMethod_eq] at awaits
          change (if (scan.reread method read).baseDepth < scan.depth then _ else
            (scan.holding _).closeMethod).awaitsBody = true at awaits
          rw [if_neg shallow] at awaits
          exact absurd awaits (Bool.eq_false_iff.mp (closed _))

theorem resolveMethod_of_brace (pending : method.entered = false) (bare : method.statements = [])
    (below : method.baseDepth < scan.depth)
    (found : method? scan.dialect method.className (joined method.header) = some read)
    (body : ∀ start, read.tailStart = some start →
      Tail.ofText ((joined method.header).drop start) = .present ∧
        scan.statements (line.drop (bodyColumn (joined method.header) line start)) = []) :
    scan.resolveMethod method line =
      scan.holding { scan.reread method read with entered := read.tailStart.isSome } := by
  rw [resolveMethod_of_some scan line method found]
  cases starts : read.tailStart with
  | none =>
      change scan.holding (scan.reread method read) = _
      simp [reread, pending]
  | some start =>
      obtain ⟨present, silent⟩ := body start starts
      dsimp only
      rw [present, atTail, enterMethod_eq]
      change (if method.baseDepth < scan.depth then scan.holding _ else _) = _
      rw [if_pos below]
      have grown : (scan.reread method read).extend
          (scan.statements (line.drop (bodyColumn (joined method.header) line start))) =
          scan.reread method read := by
        rw [silent]
        simp [OpenMethod.extend, reread, bare]
      exact congrArg (fun method => scan.holding { method with entered := true }) grown

end Methods

section Braces

variable {scan : Scan} {method : OpenMethod} {text : List Char} {read braced : MethodHeader}
  (same : IsBraced text read braced)
  (waits : ∀ start, read.tailStart = some start → text.drop start = [] ∨ text.drop start = ['='])

include same waits

theorem bracedTail_cases {start : Nat} (found : braced.tailStart = some start) :
    (text ++ bodyBrace).drop start = ['{'] ∨ (text ++ bodyBrace).drop start = '=' :: bodyBrace := by
  have tail := same.tail
  rw [found] at tail
  obtain ⟨other, starts, drops⟩ := Option.map_eq_some_iff.mp tail.symm
  replace drops : withBrace (text.drop other) = (text ++ bodyBrace).drop start := drops
  rw [← drops]
  rcases waits other starts with empty | equals
  · rw [empty]
    exact .inl rfl
  · rw [equals]
    exact .inr rfl

theorem bracedTail_present {start : Nat} (found : braced.tailStart = some start) :
    Tail.ofText ((text ++ bodyBrace).drop start) = .present := by
  rcases bracedTail_cases same waits found with tail | tail
  · rw [tail]
    rfl
  · rw [tail]
    rfl

variable (pending : method.entered = false) (bare : method.statements = [])
  (below : method.baseDepth < scan.depth)
  (found : method? scan.dialect method.className (text ++ bodyBrace) = some braced)

include pending bare below found

theorem resolveMethod_of_ownBrace (header : method.header = [text, ['{']]) (number : Int) :
    scan.resolveMethod method (.plain ['{'] number) =
      scan.holding { scan.reread method braced with entered := braced.tailStart.isSome } := by
  have whole : joined method.header = text ++ bodyBrace := header ▸ joined_brace text
  refine resolveMethod_of_brace pending bare below (whole ▸ found) fun start starts => ?_
  rw [whole]
  refine ⟨bracedTail_present same waits starts, statements_of_brace scan rfl ?_⟩
  change ['{'].drop _ ∈ _
  generalize bodyColumn _ _ _ = column
  cases column with
  | zero => simp
  | succ column => simp

theorem resolveMethod_of_sameLine (header : method.header = [text ++ bodyBrace]) (number : Int) :
    scan.resolveMethod method (.plain (text ++ bodyBrace) number) =
      scan.holding { scan.reread method braced with entered := braced.tailStart.isSome } := by
  have whole : joined method.header = text ++ bodyBrace := header ▸ unwords_singleton _
  refine resolveMethod_of_brace pending bare below (whole ▸ found) fun start starts => ?_
  rw [whole]
  refine ⟨bracedTail_present same waits starts, statements_of_brace scan rfl ?_⟩
  have column : bodyColumn (text ++ bodyBrace) (.plain (text ++ bodyBrace) number)
      start = start + 1 := by
    rw [bodyColumn, Nat.sub_self, Nat.sub_zero]
  change (text ++ bodyBrace).drop (bodyColumn _ _ _) ∈ _
  rw [column, ← List.drop_drop]
  rcases bracedTail_cases same waits starts with tail | tail
  · simp [tail]
  · simp [tail]

end Braces

theorem brace_after_method {here : Scan} {text : List Char} (outside : here.inComment = false)
    {cls : OpenClass} {outer : List OpenClass} (opened : here.classes = cls :: outer)
    (entered : cls.entered = true) (level : here.depth = cls.baseDepth + 1)
    {read braced : MethodHeader} (found : method? here.dialect cls.name text = some read)
    (foundBraced : method? here.dialect cls.name (text ++ bodyBrace) = some braced)
    (same : IsBraced text read braced) (number : Int) :
    let line := Line.plain text number
    let bracedLine := Line.plain (text ++ bodyBrace) number
    let method := line.newMethod here.dialect cls.name read here.depth
    let bracedMethod := bracedLine.newMethod here.dialect cls.name braced here.depth
    (here.resolveMethod method line).awaitsBody = true →
      ((here.resolveMethod method line).feed ['{'] (number + 1)).joinHeaders =
        (here.deeper.resolveMethod bracedMethod bracedLine).joinHeaders := by
  intro line bracedLine method bracedMethod awaits
  have below : here.depth < here.deeper.depth := Int.lt_succ here.depth
  have inside : cls.baseDepth < here.deeper.depth := by
    rw [level] at below
    omega
  have settled (method : OpenMethod) :
      (here.deeper.holding method).settleClasses = here.deeper.holding method :=
    settleClasses_of_deeper opened inside
  have header : joined method.header = text := unwords_singleton text
  obtain ⟨held, waits⟩ :=
    @resolveMethod_of_waiting here method line read cls outer opened entered rfl (header ▸ found)
      awaits
  rw [header] at waits
  let grown : OpenMethod := { here.reread method read with header := [text, ['{']] }
  have continued : (here.resolveMethod method line).feed ['{'] (number + 1) =
      (here.deeper.resolveMethod grown (.plain ['{'] (number + 1))).settleClasses := by
    rw [held, @feed_brace (here.holding (here.reread method read)) outside,
      @afterHeader_of_method (here.holding (here.reread method read)).deeper _
        (here.reread method read) rfl rfl (continues_brace _)]
    rfl
  rw [continued,
    @resolveMethod_of_ownBrace here.deeper grown text read braced same waits rfl rfl below
      foundBraced rfl,
    @resolveMethod_of_sameLine here.deeper bracedMethod text read braced same waits rfl rfl below
      foundBraced rfl,
    settled]
  refine congrArg here.deeper.joinHeaders.holding ?_
  simp only [OpenMethod.joinHeader, reread, grown, method, bracedMethod, line, bracedLine,
    Line.newMethod, oneLine_brace, same.name, same.visibility]

theorem ownLine_brace {here : Scan} {text : List Char} (bodiless : IsBodiless text)
    (outside : here.inComment = false) {number : Int} {opening : Opening}
    (opens : here.ownOpening? (.plain text number) here.depth = some opening)
    (awaits : (here.ownLine (.plain text number) here.depth).awaitsBody = true) :
    ((here.ownLine (.plain text number) here.depth).feed ['{'] (number + 1)).joinHeaders =
      (here.deeper.ownLine (.plain (text ++ bodyBrace) number) here.depth).joinHeaders := by
  rw [ownOpening?, Option.ite_none_left_eq_some, Bool.not_eq_true, Option.isSome_eq_false_iff,
    Option.isNone_iff_eq_none] at opens
  obtain ⟨unstated, declared⟩ := opens
  have unstatedBraced := packageLine?_braced here.deeper text number
  rcases (Option.orElse_eq_some _ _ _).mp declared with ofClass | ⟨unopened, ofMethod⟩
  · obtain ⟨cls, newClass, -⟩ := Option.map_eq_some_iff.mp ofClass
    obtain ⟨free, name, read, rfl⟩ := newClass?_eq_some newClass
    have braced : here.deeper.newClass? (.plain (text ++ bodyBrace) number) here.depth =
        some ((Line.plain (text ++ bodyBrace) number).newClass name here.depth) := by
      have named : openedClass? here.dialect (text ++ bodyBrace) = some name :=
        openedClass?_braced bodiless read
      simp [newClass?, deeper, free, named]
    rw [ownLine_of_class unstated newClass, ownLine_of_class unstatedBraced braced]
    exact brace_after_class bodiless free outside name number
  · obtain ⟨method, newMethod, -⟩ := Option.map_eq_some_iff.mp ofMethod
    obtain ⟨free, cls, outer, read, opened, entered, level, readable, rfl⟩ :=
      newMethod?_eq_some newMethod
    obtain ⟨header, readableBraced, same⟩ := method?_braced bodiless.gap readable
    have unnamed : openedClass? here.dialect (text ++ bodyBrace) = none := by
      refine openedClass?_braced_of_method bodiless.gap ?_ readableBraced
      simpa [newClass?, free] using unopened
    have unopenedBraced :
        here.deeper.newClass? (.plain (text ++ bodyBrace) number) here.depth = none := by
      simp [newClass?, deeper, unnamed]
    have braced : here.deeper.newMethod? (.plain (text ++ bodyBrace) number) here.depth =
        some ((Line.plain (text ++ bodyBrace) number).newMethod here.dialect cls.name header
          here.depth) := by
      simp [newMethod?, deeper, opened, free, entered, level, readableBraced]
    rw [Option.map_eq_none_iff] at unopened
    rw [ownLine_of_method unstated unopened newMethod] at awaits ⊢
    rw [ownLine_of_method unstatedBraced unopenedBraced braced]
    exact brace_after_method outside opened entered level readable readableBraced same number awaits

/-- Feeding a header and then its brace leads where feeding both on one line leads. -/
theorem feed_feed_brace {scan : Scan} {raw : List Char} (bare : IsBare raw) {number : Int}
    (opens : (scan.openingOf raw number).isSome = true)
    (awaits : (scan.feed raw number).awaitsBody = true) :
    ((scan.feed raw number).feed ['{'] (number + 1)).joinHeaders =
      (scan.feed (raw ++ bodyBrace) number).joinHeaders := by
  obtain ⟨opening, found⟩ := Option.isSome_iff_exists.mp opens
  have visible : (scan.readLine raw number).isSkipped = false := by
    rw [← Bool.not_eq_true]
    intro skipped
    rw [openingOf, if_pos skipped] at found
    cases found
  obtain ⟨text, shows⟩ := bare.showsHeader visible
  obtain ⟨here, outside, own, alone, together⟩ := shows.feed_eq found
  rw [alone] at awaits ⊢
  rw [together]
  exact ownLine_brace shows.bodiless outside own awaits

section Numbers

open Relayout

def kept (line : List Char) : RelaidLine :=
  .padded [] line []

theorem addedUpTo_kept (number first : Int) (lines : List (List Char)) (rest : List RelaidLine) :
    addedUpTo number first (lines.map kept ++ rest) =
      addedUpTo number (first + lines.length) rest := by
  induction lines generalizing first with
  | nil => simp
  | cons line lines ih =>
      have next : first + 1 + lines.length = first + (line :: lines).length := by
        rw [List.length_cons]
        omega
      rw [← next]
      exact ih (first + 1)

theorem isValid_kept {rest : List RelaidLine} (valid : ∀ inComment, isValid inComment rest = true)
    (inComment : Bool) (lines : List (List Char)) :
    isValid inComment (lines.map kept ++ rest) = true := by
  induction lines generalizing inComment with
  | nil => exact valid inComment
  | cons line lines ih => exact ih _

theorem feed_empty (scan : Scan) (number : Int) : scan.feed [] number = scan := by
  apply feed_added
  · simp [MaskedLine.ofLine]
  · cases scan.inComment <;> simp [MaskedLine.ofLine]

theorem feedLines_empty (dialect : Dialect) (file : Option String) (first : Int)
    (front after : List (List Char)) :
    (start dialect file).feedLines first (front ++ [] :: after) =
      ((start dialect file).feedLines first (front ++ after)).renumber
        fun line => if line < first + front.length then line else line + 1 := by
  let layout := front.map kept ++ .added [] :: after.map kept
  have raws : layout.map RelaidLine.raw = front ++ [] :: after := by
    simp [layout, kept, RelaidLine.raw, Function.comp_def]
  have olds : layout.filterMap RelaidLine.old? = front ++ after := by
    simp [layout, kept, RelaidLine.old?, List.filterMap_cons, List.filterMap_map,
      Function.comp_def]
  have behind (inComment : Bool) : isValid inComment (after.map kept) = true := by
    rw [← List.append_nil (after.map kept)]
    exact isValid_kept (fun _ => rfl) inComment after
  have valid : isValid false layout = true := by
    refine isValid_kept (fun inComment => ?_) false front
    cases inComment <;> simp [isValid, MaskedLine.ofLine, behind]
  have later (old : Int) : addedUpTo old (first + front.length) (after.map kept) = 0 := by
    have counted := addedUpTo_kept old (first + front.length) after []
    rwa [List.append_nil] at counted
  have numbers (old : Int) : (if old < first + front.length then old else old + 1) =
      old + 0 + addedUpTo old first layout := by
    rw [addedUpTo_kept, addedUpTo, later]
    split <;> split <;> omega
  have relaid := feedLines_relaid layout (start dialect file) first 0 valid fun old _ => numbers old
  rw [raws, olds, Int.add_zero] at relaid
  exact relaid

end Numbers

/-- Brace placement is immaterial. Let a stripped line without braces, quotes and comments open a
class or a method that waits for its body. Then a line with the brace alone leads to the same scan as
the brace behind the header does, with the headers that are pending joined, and whatever follows, the
classes are the same, with the lines after the header numbered as they stand. -/
theorem brace_placement (dialect : Dialect) (file : Option String) (first : Int)
    (before : List (List Char)) {raw : List Char} (bare : IsBare raw) :
    let scan := (start dialect file).feedLines first before
    let number := first + before.length
    (scan.openingOf raw number).isSome = true → (scan.feed raw number).awaitsBody = true →
      ((scan.feed raw number).feed ['{'] (number + 1)).joinHeaders =
          (scan.feed (raw ++ bodyBrace) number).joinHeaders ∧
        ∀ after,
          ((start dialect file).feedLines first (before ++ raw :: ['{'] :: after)).finish =
            ((start dialect file).feedLines first
              (before ++ (raw ++ bodyBrace) :: after)).finish.map
                (ClassDecl.renumber fun line => if line ≤ number then line else line + 1) := by
  intro scan number opens awaits
  have same := feed_feed_brace bare opens awaits
  refine ⟨same, fun after => ?_⟩
  have shifted : (fun line : Int => if line < first + (before ++ [raw ++ bodyBrace]).length then line
      else line + 1) = fun line => if line ≤ number then line else line + 1 := by
    have bound : first + (before ++ [raw ++ bodyBrace]).length = number + 1 := by
      rw [List.length_append, List.length_singleton]
      omega
    simp only [bound, Int.lt_add_one_iff]
  calc ((start dialect file).feedLines first (before ++ raw :: ['{'] :: after)).finish
      = (((scan.feed raw number).feed ['{'] (number + 1)).feedLines (number + 1 + 1) after).finish :=
        by rw [feedLines_append, feedLines, feedLines]
    _ = ((scan.feed (raw ++ bodyBrace) number).feedLines (number + 1 + 1) after).finish :=
        finish_feedLines_congr same _ after
    _ = ((start dialect file).feedLines first
          ((before ++ [raw ++ bodyBrace]) ++ [] :: after)).finish := by
        rw [List.append_assoc, feedLines_append, List.singleton_append, feedLines, feedLines,
          feed_empty]
    _ = ((start dialect file).feedLines first
          (before ++ (raw ++ bodyBrace) :: after)).finish.map _ := by
        rw [feedLines_empty, renumber, finish_relabel, shifted, List.append_assoc]
        rfl

def lambdaHeader : List Char :=
  "private fun pick(a: Int): () -> Unit =".toList

def lambdaBefore : List (List Char) :=
  ["class Shop(val name: String) : Stand(name)".toList, ['{']]

def lambdaAfter : List (List Char) :=
  ["serve(a)".toList, ['}'], ['}']]

theorem lambda_placement :
    let scan := (start .kotlin none).feedLines 1 lambdaBefore
    let number : Int := 1 + lambdaBefore.length
    IsBare lambdaHeader ∧ (scan.openingOf lambdaHeader number).isSome = true ∧
      (scan.feed lambdaHeader number).awaitsBody = true ∧
      ((scan.feed lambdaHeader number).feed ['{'] (number + 1)).joinHeaders =
        (scan.feed (lambdaHeader ++ bodyBrace) number).joinHeaders ∧
      ((start .kotlin none).feedLines 1
          (lambdaBefore ++ lambdaHeader :: ['{'] :: lambdaAfter)).finish =
        ((start .kotlin none).feedLines 1
          (lambdaBefore ++ (lambdaHeader ++ bodyBrace) :: lambdaAfter)).finish.map
            (ClassDecl.renumber fun line => if line ≤ number then line else line + 1) := by
  intro scan number
  have bare : IsBare lambdaHeader := by decide +kernel
  have opens : (scan.openingOf lambdaHeader number).isSome = true := by decide +kernel
  have awaits : (scan.feed lambdaHeader number).awaitsBody = true := by decide +kernel
  obtain ⟨same, classes⟩ := brace_placement .kotlin none 1 lambdaBefore bare opens awaits
  exact ⟨bare, opens, awaits, same, classes lambdaAfter⟩

end MethodFlow.Scan
