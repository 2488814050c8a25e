import MethodFlow.FunctionMap
import MethodFlow.Proofs.Header.Heads
import MethodFlow.Proofs.Scan.Layout
import MethodFlow.Proofs.Scan.Renumbering
import MethodFlow.Proofs.Text.Pieces

/-!
Parameter lists over several lines. While its list is open a method waits for more of its header.
The header is read again with each line, and in the end it is the line that was broken, so the
method is recorded as from the one line (`feedLines_wrapped`).
-/
namespace MethodFlow

open Text MaskedLine

/-- The method with its header in other lines, and its statements in the line of this number. -/
def OpenMethod.spread (method : OpenMethod) (header : List (List Char)) (number : Int) :
    OpenMethod :=
  { method with header, statements := method.statements.map (Statement.renumber fun _ => number) }

namespace Scan

section Recording

variable (scan : Scan)

def recording (ended : Bool) (method : OpenMethod) : Scan :=
  if ended then (scan.holding method).closeMethod else scan.holding method

theorem finish_recording (ended : Bool) (method : OpenMethod) :
    (scan.recording ended method).finish = (scan.holding method).finish := by
  cases ended with
  | false => rfl
  | true =>
      have package : (scan.holding method).closeMethod.package = scan.package := by
        unfold closeMethod
        split <;> rfl
      change (scan.holding method).closeMethod.finish = _
      rw [finish, closeMethod_of_free (closeMethod_method _), package]
      rfl

theorem finish_closeClass : scan.closeClass.finish = scan.finish := by
  have package : scan.closeClass.package = scan.package := by
    unfold closeClass closeMethod
    dsimp only
    split <;> split <;> rfl
  rw [finish, closeMethod_of_free (closeClass_method scan), closeClass_opened, package]
  rfl

theorem finish_settleClasses : scan.settleClasses.finish = scan.finish :=
  @settleClassesWithin_invariant (fun next => next.finish = scan.finish)
    (fun next same => (finish_closeClass next).trans same) scan.classes.length scan rfl

theorem finish_pastBraces (raw : List Char) (number : Int) (method : OpenMethod) :
    ((scan.pastBraces raw number).holding method).finish = (scan.holding method).finish := by
  obtain ⟨_, _, _, _, _, _, classes, _⟩ := scan
  cases classes <;> rfl

theorem settleClasses_of_deeper {scan : Scan} {cls : OpenClass} {outer : List OpenClass}
    (opened : scan.classes = cls :: outer) (inside : cls.baseDepth < scan.depth) :
    scan.settleClasses = scan := by
  rw [settleClasses, opened, List.length_cons, settleClassesWithin, if_neg]
  simp [opened, inside]

theorem settleClasses_recording {cls : OpenClass} {outer : List OpenClass}
    (opened : scan.classes = cls :: outer) (inside : cls.baseDepth < scan.depth) (ended : Bool)
    (method : OpenMethod) :
    (scan.recording ended method).settleClasses = scan.recording ended method := by
  cases ended with
  | false => exact settleClasses_of_deeper opened inside
  | true =>
      have closed : (scan.holding method).closeMethod =
          { scan with
            method := none
            classes := { cls with methods := cls.methods ++ [method.toMethod] } :: outer } := by
        simp [closeMethod, holding, opened]
      change (scan.holding method).closeMethod.settleClasses = (scan.holding method).closeMethod
      rw [closed]
      exact settleClasses_of_deeper rfl inside

theorem atTail_spread {method : OpenMethod} {line part : Line} {header : List (List Char)}
    {tailStart : Nat} (fresh : method.statements = [])
    (body : part.drop (bodyColumn (joined header) part tailStart) =
      (line.drop (bodyColumn (joined method.header) line tailStart)).renumber fun _ => part.number)
    (tail : Tail) :
    ∃ ended grown, scan.atTail method line tailStart tail = scan.recording ended grown ∧
      scan.atTail { method with header } part tailStart tail =
        scan.recording ended (grown.spread header part.number) := by
  have unread : { method with header } = method.spread header part.number := by
    simp [OpenMethod.spread, fresh]
  cases tail with
  | awaited => exact ⟨false, method, rfl, congrArg scan.holding unread⟩
  | missing =>
      exact ⟨true, method, rfl, congrArg (fun other => (scan.holding other).closeMethod) unread⟩
  | present =>
      let grown := method.extend
        (scan.statements (line.drop (bodyColumn (joined method.header) line tailStart)))
      have renumbered : scan.statements (part.drop (bodyColumn (joined header) part tailStart)) =
          (scan.statements (line.drop (bodyColumn (joined method.header) line tailStart))).map
            (Statement.renumber fun _ => part.number) := by
        rw [body]
        exact statements_relabel (fun _ => part.number) scan.inComment scan _
      have extended : { method with header }.extend
          (scan.statements (part.drop (bodyColumn (joined header) part tailStart))) =
          grown.spread header part.number := by
        simp [grown, OpenMethod.extend, OpenMethod.spread, renumbered, fresh]
      by_cases deeper : method.baseDepth < scan.depth
      · refine ⟨false, { grown with entered := true }, if_pos deeper, (if_pos deeper).trans ?_⟩
        exact congrArg (fun other => scan.holding { other with entered := true }) extended
      · refine ⟨true, grown, if_neg deeper, (if_neg deeper).trans ?_⟩
        exact congrArg (fun other => (scan.holding other).closeMethod) extended

/-- A header that is read as the same method leaves the same of its method, whatever lines it comes
in and whatever was read of it before. -/
theorem resolveMethod_spread {method : OpenMethod} {line part : Line} {header : List (List Char)}
    {read : Header.MethodHeader} {tailStart : Nat} (fresh : method.statements = [])
    (found : Header.method? scan.dialect method.className (joined method.header) = some read)
    (starts : read.tailStart = some tailStart) (same : joined header = joined method.header)
    (body : part.drop (bodyColumn (joined header) part tailStart) =
      (line.drop (bodyColumn (joined method.header) line tailStart)).renumber fun _ => part.number)
    (parameters : List Parameter) (returnType : Option String) :
    ∃ ended grown, scan.resolveMethod method line = scan.recording ended grown ∧
      scan.resolveMethod { method with header, parameters, returnType } part =
        scan.recording ended (grown.spread header part.number) := by
  have whole := resolveMethod_of_some scan line method found
  have parted := resolveMethod_of_some scan part { method with header, parameters, returnType }
    (same ▸ found)
  rw [starts] at whole parted
  dsimp only at whole parted
  rw [same] at parted
  rw [whole, parted]
  exact @atTail_spread scan (scan.reread method read) line part header tailStart fresh body _

end Recording

/-- A scan in the body of its innermost class, outside of methods and of comments. -/
structure AtMember (scan : Scan) (cls : OpenClass) (outer : List OpenClass) : Prop where
  free : scan.method = none
  opened : scan.classes = cls :: outer
  entered : cls.entered = true
  level : scan.depth = cls.baseDepth + 1
  outside : scan.inComment = false

/-- What a raw line is read as that opens a method in the class of this name. -/
structure OpensAs (scan : Scan) (className : String) (raw : List Char) (number : Int)
    (read : Header.MethodHeader) : Prop where
  visible : (scan.readLine raw number).isSkipped = false
  classless : Header.openedClass? scan.dialect (scan.readLine raw number).mask = none
  found : Header.method? scan.dialect className (scan.readLine raw number).mask = some read

namespace AtMember

variable {scan : Scan} {cls : OpenClass} {outer : List OpenClass} (member : scan.AtMember cls outer)
  (raw : List Char) (number : Int)

include member

theorem standing : (scan.pastBraces raw number).continuesHeader (scan.readLine raw number) = false ∧
    (scan.pastBraces raw number).withoutPending = scan.pastBraces raw number := by
  simp [continuesHeader, withoutPending, pastBraces, pastComments, member.free, member.opened,
    member.entered]

theorem packageLine?_eq_none (line : Line) :
    (scan.pastBraces raw number).packageLine? line = none := by
  simp [packageLine?, pastBraces, pastComments, member.opened]

theorem newClass?_eq (line : Line) : (scan.pastBraces raw number).newClass? line scan.depth =
    (Header.openedClass? scan.dialect line.mask).map fun name => line.newClass name scan.depth := by
  simp [newClass?, pastBraces, pastComments, member.free]

theorem newMethod?_eq (line : Line) : (scan.pastBraces raw number).newMethod? line scan.depth =
    (Header.method? scan.dialect cls.name line.mask).map fun read =>
      line.newMethod scan.dialect cls.name read scan.depth := by
  simp [newMethod?, pastBraces, pastComments, member.free, member.opened, member.entered,
    member.level]

theorem exists_opensAs {method : OpenMethod}
    (opens : scan.openingOf raw number = some (.ofMethod method)) :
    ∃ read, scan.OpensAs cls.name raw number read := by
  obtain ⟨standing, own⟩ := member.standing raw number
  rw [openingOf, Option.ite_none_left_eq_some, Bool.not_eq_true] at opens
  obtain ⟨visible, opened⟩ := opens
  rw [opening?, standing, own, ownOpening?, member.packageLine?_eq_none, member.newClass?_eq,
    member.newMethod?_eq] at opened
  cases classless : Header.openedClass? scan.dialect (scan.readLine raw number).mask with
  | some name =>
      rw [classless] at opened
      cases opened
  | none =>
      rw [classless] at opened
      obtain ⟨_, readable, -⟩ := Option.map_eq_some_iff.mp opened
      obtain ⟨read, found, -⟩ := Option.map_eq_some_iff.mp readable
      exact ⟨read, visible, classless, found⟩

theorem feed_eq {read : Header.MethodHeader} (opens : scan.OpensAs cls.name raw number read) :
    scan.feed raw number = (scan.pastBraces raw number).resolveMethod
      ((scan.readLine raw number).newMethod scan.dialect cls.name read scan.depth)
      (scan.readLine raw number) := by
  obtain ⟨standing, own⟩ := member.standing raw number
  rw [Scan.feed_eq, if_neg (by simp [opens.visible]), afterHeader_of_standing _ _ _ standing, own,
    ownLine, member.packageLine?_eq_none, classLine?_eq, methodLine?_eq, member.newClass?_eq,
    opens.classless, member.newMethod?_eq, opens.found]
  rfl

end AtMember

/-- A raw line that declares a method, with its parameter list: the list ends in the line and holds
no braces, and before it as many parentheses are closed as opened. -/
structure Declares (scan : Scan) (className : String) (raw : List Char) (number : Int)
    (before inside after : List Char) : Prop where
  stripped : trim raw = raw
  uncommented : (ofLine false raw).code = raw
  opens : ∃ method, scan.openingOf raw number = some (.ofMethod method)
  list : Header.HasParameters scan.dialect className (scan.readLine raw number).mask before inside
    after
  braceless : '{' ∉ inside ∧ '}' ∉ inside
  level : parenBalance before = 0

/-- The pieces of a line that is broken at spaces between the parentheses of its parameter list. -/
structure WrapsIn (before inside raw : List Char) (pieces : List (List Char)) : Prop where
  whole : unwords pieces = raw
  breaks : Breaks pieces
  within : ∀ count < pieces.length, 0 < count →
    before.length < (unwords (pieces.take count)).length ∧
      (unwords (pieces.take count)).length ≤ before.length + inside.length
  unstarred : ∀ piece ∈ pieces, piece.head? ≠ some '*'

instance (before inside raw : List Char) (pieces : List (List Char)) :
    Decidable (WrapsIn before inside raw pieces) :=
  decidable_of_iff (unwords pieces = raw ∧ Breaks pieces ∧
      (∀ count < pieces.length, 0 < count →
        before.length < (unwords (pieces.take count)).length ∧
          (unwords (pieces.take count)).length ≤ before.length + inside.length) ∧
      ∀ piece ∈ pieces, piece.head? ≠ some '*')
    ⟨fun ⟨whole, breaks, within, unstarred⟩ => ⟨whole, breaks, within, unstarred⟩,
      fun ⟨whole, breaks, within, unstarred⟩ => ⟨whole, breaks, within, unstarred⟩⟩

/-- The front of a header that is broken in its parameter list. -/
structure IsFront (header before inside front more : List Char) : Prop where
  whole : header = front ++ more
  gap : Header.IsGap front more
  shows : ∃ shown, shown <+: inside ∧ front = before ++ '(' :: shown

theorem exists_shown {before inside rest front more : List Char} {c : Char}
    (same : before ++ c :: (inside ++ rest) = front ++ more) (above : before.length < front.length)
    (below : front.length ≤ before.length + 1 + inside.length) :
    ∃ shown, shown <+: inside ∧ front = before ++ c :: shown := by
  obtain ⟨count, length⟩ := Nat.exists_eq_add_of_lt above
  refine ⟨inside.take count, List.take_prefix _ _, ?_⟩
  calc front
    _ = (front ++ more).take (before.length + (count + 1)) := by rw [List.take_left' (by omega)]
    _ = before ++ c :: (inside ++ rest).take count := by
      rw [← same, List.take_length_add_append, List.take_succ_cons]
    _ = before ++ c :: inside.take count := by rw [List.take_append_of_le_length (by omega)]

section Fronts

variable {scan : Scan} {className : String} {raw : List Char} {number : Int}
  {before inside after : List Char} {front back : List (List Char)}
  (declares : scan.Declares className raw number before inside after)
  (free : scan.inComment = false) (wraps : WrapsIn before inside raw (front ++ back))
  (nonempty : front ≠ []) (more : back ≠ [])

include wraps nonempty more

theorem WrapsIn.split : raw = unwords front ++ ' ' :: unwords back ∧
    IsBreak (unwords front) (unwords back) :=
  ⟨wraps.whole ▸ unwords_append nonempty more, wraps.breaks.between nonempty more⟩

theorem WrapsIn.length_front : before.length < (unwords front).length ∧
    (unwords front).length ≤ before.length + inside.length := by
  have bounds := wraps.within front.length (by simp [List.length_pos_iff.mpr more])
    (List.length_pos_iff.mpr nonempty)
  rwa [List.take_left] at bounds

include declares

theorem WrapsIn.head?_front : ∃ c, (unwords front).head? = some c ∧ isBlank c = false := by
  obtain ⟨whole, broken⟩ := wraps.split nonempty more
  obtain ⟨c, first, solid⟩ := head?_of_trimmed declares.stripped (by simp [whole])
  obtain ⟨d, last, -⟩ := broken.before
  refine ⟨c, ?_, solid⟩
  rw [whole] at first
  cases text : unwords front with
  | nil => simp [text] at last
  | cons e rest => simpa [text] using first

omit nonempty more in
theorem WrapsIn.uncommented_front : (ofLine false (unwords front)).code = unwords front := by
  by_cases nonempty : front = []
  · subst nonempty
    rfl
  · by_cases more : back = []
    · subst more
      rw [List.append_nil] at wraps
      rw [wraps.whole]
      exact declares.uncommented
    · obtain ⟨whole, broken⟩ := wraps.split nonempty more
      exact (broken.uncommented_parts (whole ▸ declares.uncommented)).1

include free

omit nonempty more in
theorem WrapsIn.mask_front :
    (scan.readLine (unwords front) number).mask = joined (masks front) := by
  rw [readLine, free, joined,
    wraps.breaks.front.unwords_masks (wraps.uncommented_front declares)]

theorem WrapsIn.readLine_eq :
    (scan.readLine raw number).mask =
        joined (masks front) ++ ' ' :: (ofLine false (unwords back)).trimmed.mask ∧
      (scan.readLine raw number).code =
        unwords front ++ ' ' :: (ofLine false (unwords back)).trimmed.code ∧
      (joined (masks front)).length = (unwords front).length ∧
      (joined (masks front)).getLast? = (unwords front).getLast? := by
  obtain ⟨whole, broken⟩ := wraps.split nonempty more
  have uncommented := declares.uncommented
  rw [whole] at uncommented
  have parted := broken.trimmed_eq uncommented
  obtain ⟨code, ends⟩ :=
    broken.trimmed_left uncommented (wraps.head?_front declares nonempty more)
  rw [← wraps.mask_front declares free, readLine, readLine, free, whole, parted]
  exact ⟨rfl, congrArg (· ++ ' ' :: (ofLine false (unwords back)).trimmed.code) code, ends⟩

theorem WrapsIn.isFront : IsFront (scan.readLine raw number).mask before inside
    (joined (masks front)) (' ' :: (ofLine false (unwords back)).trimmed.mask) := by
  obtain ⟨-, broken⟩ := wraps.split nonempty more
  obtain ⟨whole, -, length, last⟩ := wraps.readLine_eq declares free nonempty more
  obtain ⟨above, below⟩ := wraps.length_front nonempty more
  refine ⟨whole, ⟨fun c ends => ?_, rfl⟩, ?_⟩
  · obtain ⟨d, same, solid⟩ := broken.before
    rw [last, same] at ends
    exact Option.some.inj ends ▸ solid
  · exact exists_shown (declares.list.split.symm.trans whole) (by omega) (by omega)

end Fronts

theorem WrapsIn.joined_masks {scan : Scan} {className : String} {raw : List Char} {number : Int}
    {before inside after : List Char} {pieces : List (List Char)}
    (declares : scan.Declares className raw number before inside after)
    (free : scan.inComment = false) (wraps : WrapsIn before inside raw pieces) :
    joined (masks pieces) = (scan.readLine raw number).mask := by
  have whole : WrapsIn before inside raw (pieces ++ []) := (List.append_nil pieces).symm ▸ wraps
  rw [← whole.mask_front declares free, wraps.whole]

theorem Line.drop_bodyColumn {line part : Line} {mask code : List Char} {tailStart : Nat}
    (masked : line.mask = mask ++ ' ' :: part.mask) (coded : line.code = code ++ ' ' :: part.code)
    (length : mask.length = code.length) (late : mask.length ≤ tailStart) :
    part.drop (bodyColumn line.mask part tailStart) =
      (line.drop (bodyColumn line.mask line tailStart)).renumber fun _ => part.number := by
  obtain ⟨count, rfl⟩ := Nat.exists_eq_add_of_le late
  have column : bodyColumn line.mask line (mask.length + count) = mask.length + (count + 1) := by
    rw [bodyColumn]
    omega
  have columnPart : bodyColumn line.mask part (mask.length + count) = count := by
    rw [bodyColumn, masked, List.length_append, List.length_cons]
    omega
  rw [column, columnPart, Line.renumber, Line.drop, Line.drop, masked, coded,
    List.drop_length_add_append, length, List.drop_length_add_append]
  rfl

theorem WrapsIn.drop_last {scan : Scan} {className : String} {raw : List Char} {number : Int}
    {before inside after : List Char} {front : List (List Char)} {piece : List Char}
    (declares : scan.Declares className raw number before inside after)
    (free : scan.inComment = false) (wraps : WrapsIn before inside raw (front ++ [piece]))
    (nonempty : front ≠ []) {tailStart : Nat}
    (late : (scan.readLine raw number).mask.length ≤ tailStart + after.length) (last : Int) :
    let line := scan.readLine raw number
    let part := scan.readLine piece last
    part.drop (bodyColumn line.mask part tailStart) =
      (line.drop (bodyColumn line.mask line tailStart)).renumber fun _ => last := by
  intro line part
  have single : unwords [piece] = piece := by simp [unwords]
  obtain ⟨masked, coded, length, -⟩ :=
    wraps.readLine_eq declares free nonempty (List.cons_ne_nil piece [])
  rw [single, ← free] at masked coded
  refine Line.drop_bodyColumn masked coded length ?_
  -- The front ends within the list, and the tail begins behind it.
  have below := (wraps.length_front nonempty (List.cons_ne_nil piece [])).2
  have total := congrArg List.length declares.list.split
  simp only [List.length_append, List.length_cons] at total
  omega

section Waiting

/-- Braces are counted in two parts of a line as in the line. -/
theorem pastBraces_parts {scan : Scan} (free : scan.inComment = false) {left right : List Char}
    (broken : IsBreak left right)
    (uncommented : (ofLine false (left ++ ' ' :: right)).code = left ++ ' ' :: right)
    (number next : Int) :
    (scan.pastBraces left number).pastBraces right next =
      scan.pastBraces (left ++ ' ' :: right) number := by
  have balance : braceBalance (ofLine false (left ++ ' ' :: right)).trimmed.mask =
      braceBalance (ofLine false left).trimmed.mask +
        braceBalance (ofLine false right).trimmed.mask := by
    have space (mask : List Char) : braceBalance (' ' :: mask) = braceBalance mask := by
      simp [braceBalance]
    rw [broken.trimmed_eq uncommented, ← space (ofLine false right).trimmed.mask]
    exact braceBalance_append _ _
  simp only [pastBraces, pastComments, readLine, free, broken.inComment_left, balance,
    Int.add_assoc]
  rw [broken.ofLine_eq]
  rfl

def Awaits (method : OpenMethod) (header : List (List Char)) (scan next : Scan) : Prop :=
  ∃ parameters returnType, next = scan.holding { method with header, parameters, returnType }

theorem Awaits.settled {scan next : Scan} {method : OpenMethod} {header : List (List Char)}
    (awaits : Awaits method header scan next) {cls : OpenClass} {outer : List OpenClass}
    (opened : scan.classes = cls :: outer) (inside : cls.baseDepth < scan.depth) :
    Awaits method header scan next.settleClasses := by
  obtain ⟨parameters, returnType, rfl⟩ := awaits
  exact ⟨parameters, returnType, settleClasses_recording scan opened inside false _⟩

theorem resolveMethod_awaits (scan : Scan) (line : Line) {method : OpenMethod}
    {header : List (List Char)} {read : Header.MethodHeader}
    (found : Header.method? scan.dialect method.className (joined header) = some read)
    (unclosed : read.tailStart = none) (parameters : List Parameter) (returnType : Option String) :
    Awaits method header scan
      (scan.resolveMethod { method with header, parameters, returnType } line) := by
  rw [resolveMethod_of_some scan line { method with header, parameters, returnType } found,
    unclosed]
  exact ⟨_, _, rfl⟩

theorem Awaits.feed_eq {scan next : Scan} {method : OpenMethod} {header : List (List Char)}
    (awaits : Awaits method header scan next) (pending : method.entered = false)
    (unclosed : 0 < parenBalance (joined header)) {raw : List Char} {number : Int}
    (visible : (scan.readLine raw number).isSkipped = false) :
    ∃ parameters returnType, next.feed raw number =
      ((scan.pastBraces raw number).resolveMethod
        { method with
          header := header ++ [(scan.readLine raw number).mask]
          parameters
          returnType }
        (scan.readLine raw number)).settleClasses := by
  obtain ⟨parameters, returnType, rfl⟩ := awaits
  refine ⟨parameters, returnType, ?_⟩
  have continues : Header.continues (joined header) (scan.readLine raw number).mask = true := by
    have more : (joined header).count ')' < (joined header).count '(' := by
      rw [parenBalance] at unclosed
      omega
    simp [Header.continues, more]
  let waiting := { method with header, parameters, returnType }
  have skipped : ¬ ((scan.holding waiting).readLine raw number).isSkipped = true :=
    (Bool.not_eq_true _).mpr visible
  have opened : ((scan.holding waiting).pastBraces raw number).method = some waiting := rfl
  rw [Scan.feed_eq, if_neg skipped, afterHeader, opened]
  dsimp only
  rw [if_neg (by simp [waiting, pending])]
  exact if_pos continues

end Waiting

theorem feedLines_append (scan : Scan) (first : Int) (front back : List (List Char)) :
    scan.feedLines first (front ++ back) =
      (scan.feedLines first front).feedLines (first + front.length) back := by
  induction front generalizing scan first with
  | nil => simp [feedLines]
  | cons line front ih =>
      rw [List.cons_append, feedLines, ih, feedLines, List.length_cons, Int.natCast_succ,
        Int.add_comm (front.length : Int) 1, Int.add_assoc]

namespace IsFront

variable {header before inside front more : List Char}
  (isFront : IsFront header before inside front more)

include isFront

theorem parenBalance_pos (level : parenBalance before = 0) (closed : IsBalanced inside) :
    0 < parenBalance front := by
  obtain ⟨shown, within, rfl⟩ := isFront.shows
  rw [parenBalance_append, parenBalance_cons, level, parenBalance_singleton, if_pos rfl]
  have held := closed.held within
  omega

theorem braceBalance_eq (braceless : '{' ∉ inside ∧ '}' ∉ inside) :
    braceBalance front = braceBalance before := by
  obtain ⟨shown, within, rfl⟩ := isFront.shows
  have opening := mt (within.subset ·) braceless.1
  have closing := mt (within.subset ·) braceless.2
  simp [braceBalance, List.count_eq_zero_of_not_mem opening,
    List.count_eq_zero_of_not_mem closing]

theorem isSkipped_eq {line part : Line} (whole : line.mask = header) (piece : part.mask = front)
    (visible : line.isSkipped = false) : part.isSkipped = false := by
  obtain ⟨shown, -, opens⟩ := isFront.shows
  rw [Line.isSkipped, whole, isFront.whole] at visible
  rw [Line.isSkipped, piece]
  cases text : front with
  | nil => simp [text] at opens
  | cons c rest => simpa [text] using visible

end IsFront

section Pieces

variable {scan : Scan} {cls : OpenClass} {outer : List OpenClass} {raw : List Char} {number : Int}
  {before inside after : List Char} {read : Header.MethodHeader} (member : scan.AtMember cls outer)
  (declares : scan.Declares cls.name raw number before inside after)
  (constructs : scan.dialect = .java →
    Header.ReadsConstructor cls.name (scan.readLine raw number).mask)
  (opens : scan.OpensAs cls.name raw number read)

include member declares constructs opens

theorem feed_first {piece : List Char} {back : List (List Char)}
    (wraps : WrapsIn before inside raw (piece :: back)) (more : back ≠ []) :
    Awaits ((scan.readLine raw number).newMethod scan.dialect cls.name read scan.depth)
      (masks [piece]) (scan.pastBraces piece number) (scan.feed piece number) := by
  have isFront := @WrapsIn.isFront scan cls.name raw number before inside after [piece] back
    declares member.outside wraps (by simp) more
  have mask : (scan.readLine piece number).mask = joined (masks [piece]) := by
    simp [readLine, member.outside, masks, joined, unwords]
  obtain ⟨shown, within, begins⟩ := isFront.shows
  obtain ⟨returnType, readable⟩ := declares.list.method?_front opens.found constructs isFront.gap
    isFront.whole begins within
  have visible := isFront.isSkipped_eq rfl mask opens.visible
  have classless := Header.openedClass?_front isFront.gap (isFront.whole ▸ opens.classless) readable
  have opened : (scan.readLine piece number).newMethod scan.dialect cls.name
      ⟨read.name, read.visibility, shown, returnType, none⟩ scan.depth =
      { (scan.readLine raw number).newMethod scan.dialect cls.name read scan.depth with
        header := masks [piece]
        parameters := Header.parameters scan.dialect shown
        returnType } := by
    simp [Line.newMethod, readLine, member.outside, masks]
  rw [member.feed_eq piece number ⟨visible, mask ▸ classless, mask ▸ readable⟩, opened]
  apply resolveMethod_awaits
  · exact readable
  · rfl

omit constructs opens in
theorem feed_further {front back : List (List Char)} {piece : List Char}
    (wraps : WrapsIn before inside raw (front ++ piece :: back)) (nonempty : front ≠ [])
    {method : OpenMethod} (pending : method.entered = false) {next : Scan}
    (awaits : Awaits method (masks front) (scan.pastBraces (unwords front) number) next)
    (further : Int) :
    ∃ parameters returnType, next.feed piece further =
      ((scan.pastBraces (unwords (front ++ [piece])) number).resolveMethod
        { method with header := masks (front ++ [piece]), parameters, returnType }
        (scan.readLine piece further)).settleClasses := by
  have isFront := wraps.isFront declares member.outside nonempty (by simp)
  have part : WrapsIn before inside raw (front ++ [piece] ++ back) := by simpa using wraps
  have broken := part.breaks.front.last nonempty
  have joined : unwords (front ++ [piece]) = unwords front ++ ' ' :: piece := by
    rw [unwords_append nonempty (by simp)]
    simp [unwords]
  have uncommented : (ofLine false (unwords front ++ ' ' :: piece)).code =
      unwords front ++ ' ' :: piece := by
    rw [← joined]
    exact part.uncommented_front declares
  have line : (scan.pastBraces (unwords front) number).readLine piece further =
      scan.readLine piece further := by
    simp [readLine, pastBraces, pastComments, member.outside, broken.inComment_left]
  have visible : (scan.readLine piece further).isSkipped = false := by
    obtain ⟨c, first, -⟩ := broken.after
    have star := wraps.unstarred piece (by simp)
    have head : (scan.readLine piece further).mask.head? = piece.head? := by
      rw [readLine, member.outside]
      exact broken.head?_trimmed uncommented
    rw [first] at head star
    obtain ⟨rest, mask⟩ := List.head?_eq_some_iff.mp head
    simpa [Line.isSkipped, mask] using star
  obtain ⟨parameters, returnType, same⟩ := awaits.feed_eq pending
    (isFront.parenBalance_pos declares.level declares.list.closed) (line ▸ visible)
  refine ⟨parameters, returnType, same.trans ?_⟩
  rw [pastBraces_parts member.outside broken uncommented, ← joined, line]
  simp [masks, readLine, member.outside]

/-- All pieces but the last leave the method waiting, as long as they leave it in its class. -/
theorem feedLines_front {front back : List (List Char)}
    (wraps : WrapsIn before inside raw (front ++ back)) (nonempty : front ≠ []) (more : back ≠ [])
    (held : 0 ≤ braceBalance before ∨ front.length ≤ 1) :
    Awaits ((scan.readLine raw number).newMethod scan.dialect cls.name read scan.depth)
      (masks front) (scan.pastBraces (unwords front) number) (scan.feedLines number front) := by
  -- From the end, since the state is known after a front; what is behind the front may vary.
  induction front using List.reverseRecOn generalizing back with
  | nil => exact absurd rfl nonempty
  | append_singleton front piece ih =>
      by_cases single : front = []
      · subst single
        have first := feed_first member declares constructs opens wraps more
        simpa [unwords, feedLines] using first
      · have parted : WrapsIn before inside raw (front ++ piece :: back) := by simpa using wraps
        have steady : 0 ≤ braceBalance before := by
          refine held.resolve_right fun short => single ?_
          simpa using short
        obtain ⟨parameters, returnType, fed⟩ := feed_further member declares parted single rfl
          (ih parted single (by simp) (.inl steady)) (number + front.length)
        have isFront := wraps.isFront declares member.outside nonempty more
        obtain ⟨shown, within, begins⟩ := isFront.shows
        obtain ⟨_, readable⟩ := declares.list.method?_front opens.found constructs isFront.gap
          isFront.whole begins within
        rw [feedLines_append, feedLines, feedLines, fed]
        -- The list is still open, and the class stays because its braces are all counted by now.
        apply Awaits.settled
        · apply resolveMethod_awaits
          · exact readable
          · rfl
        · exact member.opened
        · have balance := isFront.braceBalance_eq declares.braceless
          rw [← wraps.mask_front declares member.outside] at balance
          change cls.baseDepth < scan.depth + braceBalance _
          rw [balance, member.level]
          omega

/-- The last piece leaves the method as the line does. The classes that it leaves are closed then,
if it is not the line itself. -/
theorem feedLines_last {front : List (List Char)} {piece : List Char}
    (wraps : WrapsIn before inside raw (front ++ [piece]))
    (held : 0 ≤ braceBalance before ∨ front.length ≤ 1) :
    ∃ ended method, scan.feed raw number = (scan.pastBraces raw number).recording ended method ∧
      (scan.feedLines number (front ++ [piece]) =
          (scan.pastBraces raw number).recording ended
            (method.spread (masks (front ++ [piece])) (number + front.length)) ∨
        scan.feedLines number (front ++ [piece]) =
          ((scan.pastBraces raw number).recording ended
            (method.spread (masks (front ++ [piece])) (number + front.length))).settleClasses) := by
  let line := scan.readLine raw number
  let declared := line.newMethod scan.dialect cls.name read scan.depth
  have header : joined declared.header = line.mask := by
    simp [declared, Line.newMethod, joined, unwords]
  obtain ⟨tailStart, starts, late⟩ := declares.list.exists_tailStart opens.found
  have fed : scan.feed raw number = (scan.pastBraces raw number).resolveMethod declared line :=
    member.feed_eq raw number opens
  -- A line in one piece opens its method, which settles no classes; a last piece goes on with it.
  by_cases single : front = []
  · subst single
    obtain rfl : piece = raw := by simpa [unwords] using wraps.whole
    have masked : masks [piece] = [line.mask] := by simp [masks, line, readLine, member.outside]
    obtain ⟨ended, method, whole, parted⟩ := @resolveMethod_spread (scan.pastBraces piece number)
      declared line line [line.mask] read tailStart rfl (header ▸ opens.found) starts rfl rfl
      declared.parameters declared.returnType
    refine ⟨ended, method, fed.trans whole, .inl ?_⟩
    rw [List.nil_append, masked]
    exact fed.trans (parted.trans (by simp [line, readLine]))
  · have waiting := feedLines_front member declares constructs opens wraps single (by simp) held
    obtain ⟨parameters, returnType, last⟩ :=
      feed_further member declares wraps single rfl waiting (number + front.length)
    have same : joined (masks (front ++ [piece])) = joined declared.header :=
      (wraps.joined_masks declares member.outside).trans header.symm
    have body := wraps.drop_last declares member.outside single late (number + front.length)
    obtain ⟨ended, method, whole, parted⟩ := @resolveMethod_spread (scan.pastBraces raw number)
      declared line (scan.readLine piece (number + front.length)) (masks (front ++ [piece])) read
      tailStart rfl (header ▸ opens.found) starts same (by rw [same, header]; exact body)
      parameters returnType
    refine ⟨ended, method, fed.trans whole, .inr ?_⟩
    rw [feedLines_append, feedLines, feedLines, last, wraps.whole]
    exact congrArg settleClasses parted

end Pieces

/-- A parameter list may be broken over lines. A line that declares a method and the pieces of it
record the same method, but for the lines of its statements. A line that begins like a constructor
of the class has to be one, and in three pieces or more the class must not end before the list. -/
theorem feedLines_wrapped {scan : Scan} {cls : OpenClass} {outer : List OpenClass} {raw : List Char}
    {number : Int} {before inside after : List Char} {pieces : List (List Char)}
    (member : scan.AtMember cls outer)
    (declares : scan.Declares cls.name raw number before inside after)
    (wraps : WrapsIn before inside raw pieces)
    (constructs : scan.dialect = .java →
      Header.ReadsConstructor cls.name (scan.readLine raw number).mask)
    (held : 0 ≤ braceBalance before ∨ pieces.length ≤ 2) :
    ∃ method : OpenMethod,
      (scan.feed raw number).finish = (scan.holding method).finish ∧
      (scan.feedLines number pieces).finish =
        (scan.holding (method.spread (masks pieces) (number + pieces.length - 1))).finish ∧
      (cls.baseDepth < (scan.pastBraces raw number).depth → ∃ ended,
        scan.feed raw number = (scan.pastBraces raw number).recording ended method ∧
        scan.feedLines number pieces = (scan.pastBraces raw number).recording ended
          (method.spread (masks pieces) (number + pieces.length - 1))) := by
  obtain ⟨_, opened⟩ := declares.opens
  obtain ⟨read, opens⟩ := member.exists_opensAs raw number opened
  rcases List.eq_nil_or_concat pieces with rfl | ⟨front, piece, rfl⟩
  · obtain rfl : [] = raw := wraps.whole
    have visible := opens.visible
    rw [readLine, member.outside] at visible
    cases visible
  · rw [List.concat_eq_append] at *
    have short : 0 ≤ braceBalance before ∨ front.length ≤ 1 := by simpa using held
    have last : number + (front ++ [piece]).length - 1 = number + front.length := by
      rw [List.length_append, List.length_singleton]
      omega
    obtain ⟨ended, method, whole, parted⟩ :=
      feedLines_last member declares constructs opens wraps short
    rw [last]
    refine ⟨method, ?_, ?_, fun inside => ⟨ended, whole, ?_⟩⟩
    · rw [whole, finish_recording, finish_pastBraces]
    · rcases parted with same | settled
      · rw [same, finish_recording, finish_pastBraces]
      · rw [settled, finish_settleClasses, finish_recording, finish_pastBraces]
    · rcases parted with same | settled
      · exact same
      · rw [settled]
        exact settleClasses_recording (scan.pastBraces raw number) member.opened inside ended _

section Shop

def shop : OpenClass :=
  { name := "Shop", supertypes := ⟨none, []⟩, line := 1, baseDepth := 0,
    header := [braced "class Shop ⟨"], entered := true, methods := [], nested := [] }

def inShop : Scan :=
  { start .java none with depth := 1, classes := [shop] }

def pickBefore : List Char :=
  "@Named(\" \") int pick".toList

def pickInside : List Char :=
  "@Key(\"  \") int a, Map<K, V> b, int c, int d".toList

def pickPieces : List (List Char) :=
  ["@Named(\"(\") int pick(@Key(\",)\") int a,".toList, "Map<K, V> b, int c,".toList,
    braced "int d) ⟨ return g(a); ⟩"]

theorem pick_wrapped :
    inShop.AtMember shop [] ∧
      inShop.Declares shop.name (unwords pickPieces) 2 pickBefore pickInside
        (braced " ⟨ return g(a); ⟩") ∧
      WrapsIn pickBefore pickInside (unwords pickPieces) pickPieces ∧
      Header.ReadsConstructor shop.name (inShop.readLine (unwords pickPieces) 2).mask ∧
      0 ≤ braceBalance pickBefore ∧
      ∃ method : OpenMethod,
        (inShop.feed (unwords pickPieces) 2).finish = (inShop.holding method).finish ∧
        (inShop.feedLines 2 pickPieces).finish =
          (inShop.holding (method.spread (masks pickPieces) 4)).finish := by
  have member : inShop.AtMember shop [] := ⟨rfl, rfl, rfl, rfl, rfl⟩
  have declares : inShop.Declares shop.name (unwords pickPieces) 2 pickBefore pickInside
      (braced " ⟨ return g(a); ⟩") := by
    refine ⟨?_, ?_, ⟨_, rfl⟩, ⟨?_, ?_, ?_⟩, ?_, ?_⟩
    all_goals decide +kernel
  have wraps : WrapsIn pickBefore pickInside (unwords pickPieces) pickPieces := by decide +kernel
  have constructs : Header.ReadsConstructor shop.name
      (inShop.readLine (unwords pickPieces) 2).mask := by
    have unlike : Header.constructorHead? (inShop.readLine (unwords pickPieces) 2).mask = none :=
      rfl
    intro head found
    rw [unlike] at found
    cases found
  have held : 0 ≤ braceBalance pickBefore := by decide +kernel
  obtain ⟨method, one, broken, -⟩ :=
    feedLines_wrapped member declares wraps (fun _ => constructs) (.inl held)
  have last : (2 : Int) + pickPieces.length - 1 = 4 := by decide +kernel
  rw [last] at broken
  exact ⟨member, declares, wraps, constructs, held, method, one, broken⟩

def bodilessPieces : List (List Char) :=
  ["public Shop(int a,".toList, "int b);".toList]

def strayPieces : List (List Char) :=
  [braced "@A(⟩) void f(int a,", "int b,".toList, braced "int c) ⟨ g(); ⟩"]

/-- A constructor without a body is read as a method that returns `public`, but it begins as a
constructor that is public. After a stray brace the class ends with the second piece, and the method
with it. -/
theorem broken_lists_differ :
    (inShop.AtMember shop [] ∧
      inShop.Declares shop.name (unwords bodilessPieces) 2 "public Shop".toList
        "int a, int b".toList ";".toList ∧
      WrapsIn "public Shop".toList "int a, int b".toList (unwords bodilessPieces) bodilessPieces ∧
      (FunctionMap.methodsOf (inShop.feed (unwords bodilessPieces) 2).finish).map
        Method.visibility = ["package"] ∧
      (FunctionMap.methodsOf (inShop.feedLines 2 bodilessPieces).finish).map
        Method.visibility = ["public"]) ∧
    (inShop.Declares shop.name (unwords strayPieces) 2 (braced "@A(⟩) void f")
        "int a, int b, int c".toList (braced " ⟨ g(); ⟩") ∧
      WrapsIn (braced "@A(⟩) void f") "int a, int b, int c".toList (unwords strayPieces)
        strayPieces ∧
      (FunctionMap.methodsOf (inShop.feed (unwords strayPieces) 2).finish).map
        Method.parameters = [[⟨"a", "int"⟩, ⟨"b", "int"⟩, ⟨"c", "int"⟩]] ∧
      (FunctionMap.methodsOf (inShop.feedLines 2 strayPieces).finish).map
        Method.parameters = [[⟨"a", "int"⟩, ⟨"b", "int"⟩]]) := by
  refine ⟨⟨⟨rfl, rfl, rfl, rfl, rfl⟩, ⟨?_, ?_, ⟨_, rfl⟩, ⟨?_, ?_, ?_⟩, ?_, ?_⟩, ?_, ?_, ?_⟩,
    ⟨?_, ?_, ⟨_, rfl⟩, ⟨?_, ?_, ?_⟩, ?_, ?_⟩, ?_, ?_, ?_⟩
  all_goals decide +kernel

end Shop

end Scan
end MethodFlow
