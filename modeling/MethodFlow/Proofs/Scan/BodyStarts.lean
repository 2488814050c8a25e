import MethodFlow.Proofs.Header.MethodTails
import MethodFlow.Proofs.Scan.BracePlacement
import MethodFlow.Proofs.Scan.Wrapping

/-!
Where the statements of a method begin. A method that waits for its body has none, since its header
so far has no body in it (`feedLines_waiting`). The line on which the body begins is scanned from
there on, and so what is recorded is what stands behind the header (`statements_behind_header`).
-/
namespace MethodFlow

open Text

namespace Scan

structure Waits (dialect : Dialect) (method : OpenMethod) : Prop where
  solid : ∃ c, (joined method.header).getLast? = some c ∧ isBlank c = false
  bare : method.statements = []
  read : ∃ read, Header.method? dialect method.className (joined method.header) = some read ∧
    ∀ start, read.tailStart = some start →
      (joined method.header).drop start = [] ∨ (joined method.header).drop start = ['=']

def IsWaiting (scan : Scan) : Prop :=
  ∀ method, scan.method = some method → method.entered = false → Waits scan.dialect method

section Waiting

variable {scan : Scan} {line : Line} {method : OpenMethod}

theorem isWaiting_of_free (free : scan.method = none) : scan.IsWaiting := by
  intro method opened
  rw [free] at opened
  cases opened

theorem isWaiting_of_entered (entered : method.entered = true) :
    (scan.holding method).IsWaiting := by
  intro other opened pending
  obtain rfl : method = other := Option.some.inj opened
  rw [entered] at pending
  cases pending

theorem readLine_solid {raw : List Char} {number : Int}
    (shown : (scan.readLine raw number).isSkipped = false) :
    ∃ c, (scan.readLine raw number).mask.getLast? = some c ∧ isBlank c = false := by
  rw [Line.isSkipped, Bool.or_eq_false_iff, List.isEmpty_eq_false_iff] at shown
  have last := List.getLast?_eq_some_getLast shown.1
  exact ⟨_, last, isBlank_of_getLast?_trimRight last⟩

theorem joined_concat {header : List (List Char)} (nonempty : header ≠ []) (mask : List Char) :
    joined (header ++ [mask]) = joined header ++ ' ' :: mask := by
  rw [joined, unwords_append nonempty (List.cons_ne_nil mask []), unwords_singleton]
  rfl

theorem Waits.nonempty {dialect : Dialect} (waits : Waits dialect method) : method.header ≠ [] := by
  intro none
  obtain ⟨c, last, -⟩ := waits.solid
  rw [none] at last
  cases last

theorem resolveMethod_waiting (bare : method.statements = [])
    (solid : ∃ c, (joined method.header).getLast? = some c ∧ isBlank c = false) :
    (scan.resolveMethod method line).IsWaiting := by
  cases found : Header.method? scan.dialect method.className (joined method.header) with
  | none =>
      rw [resolveMethod_of_none scan line method found]
      exact isWaiting_of_free (closeMethod_method _)
  | some read =>
      have waits (tail : ∀ start, read.tailStart = some start →
          (joined method.header).drop start = [] ∨ (joined method.header).drop start = ['=']) :
          (scan.holding (scan.reread method read)).IsWaiting := by
        intro other opened _
        obtain rfl : scan.reread method read = other := Option.some.inj opened
        exact ⟨solid, bare, read, found, tail⟩
      rw [resolveMethod_of_some scan line method found]
      cases starts : read.tailStart with
      | none => exact waits fun start same => by rw [starts] at same; cases same
      | some start =>
          dsimp only
          cases tail : Tail.ofText ((joined method.header).drop start) with
          | awaited =>
              refine waits fun other same => ?_
              obtain rfl := Option.some.inj (starts.symm.trans same)
              exact Tail.ofText_eq_awaited tail
          | missing => exact isWaiting_of_free (closeMethod_method _)
          | present =>
              rw [atTail, enterMethod_eq]
              split
              · exact isWaiting_of_entered rfl
              · exact isWaiting_of_free (closeMethod_method _)

theorem settleClasses_waiting (waiting : scan.IsWaiting) : scan.settleClasses.IsWaiting :=
  settleClassesWithin_invariant (fun next _ => isWaiting_of_free (closeClass_method next)) _ waiting

theorem resolveClass_waiting {cls : OpenClass} {outer : List OpenClass} (free : scan.method = none)
    (opened : scan.classes = cls :: outer) : (scan.resolveClass line).IsWaiting := by
  obtain ⟨supertypes, same | ⟨-, same⟩ | ⟨-, same⟩⟩ := resolveClass_cases scan line opened
  · rw [same]
    exact isWaiting_of_free free
  · rw [same]
    exact isWaiting_of_free free
  · rw [same]
    exact isWaiting_of_free (closeClass_method _)

theorem entered_of_withoutPending (opened : scan.withoutPending.method = some method) :
    method.entered = true := by
  cases found : scan.method with
  | some other =>
      simp only [withoutPending, found] at opened
      split at opened
      · rename_i entered
        obtain rfl := Option.some.inj (found.symm.trans opened)
        exact entered
      · rw [closeMethod_method] at opened
        cases opened
  | none =>
      cases classes : scan.classes with
      | nil =>
          simp only [withoutPending, found, classes] at opened
          cases opened
      | cons cls outer =>
          simp only [withoutPending, found, classes] at opened
          split at opened
          · cases found.symm.trans opened
          · rw [closeClass_method] at opened
            cases opened

theorem bodyLine_waiting (entered : ∀ method, scan.method = some method → method.entered = true) :
    (scan.bodyLine line).IsWaiting := by
  cases opened : scan.method with
  | none =>
      rw [bodyLine_of_free scan line opened]
      exact settleClasses_waiting (isWaiting_of_free opened)
  | some method =>
      obtain ⟨grown, -, same, body⟩ := bodyLine_of_open scan line opened
      rw [body]
      apply settleClasses_waiting
      rcases settleMethod_cases { scan with method := some grown } with kept | closed
      · rw [kept]
        exact isWaiting_of_entered (same.trans (entered method opened))
      · rw [closed]
        exact isWaiting_of_free (closeMethod_method _)

theorem Turn.waiting {next : Scan} {depth : Int} {opening : Option Opening}
    (turn : Turn line depth scan opening next) (waiting : scan.IsWaiting)
    (solid : ∃ c, line.mask.getLast? = some c ∧ isBlank c = false) : next.IsWaiting := by
  cases turn with
  | @headMethod method opened pending continues =>
      have waits := waiting method opened pending
      apply settleClasses_waiting
      refine resolveMethod_waiting waits.bare ?_
      obtain ⟨c, last, filled⟩ := solid
      refine ⟨c, ?_, filled⟩
      change (joined (method.header ++ [line.mask])).getLast? = some c
      rw [joined_concat waits.nonempty, List.getLast?_append, List.getLast?_cons, last]
      rfl
  | headClass free opened pending continues => exact resolveClass_waiting free rfl
  | package standing unstated outside read =>
      intro method opened pending
      rw [entered_of_withoutPending opened] at pending
      cases pending
  | openClass standing free read => exact resolveClass_waiting free rfl
  | openMethod standing free opened entered level readable =>
      refine resolveMethod_waiting rfl ?_
      change ∃ c, (joined [line.mask]).getLast? = some c ∧ _
      rw [joined, unwords_singleton]
      exact solid
  | body standing => exact bodyLine_waiting fun _ => entered_of_withoutPending

theorem feed_waiting (waiting : scan.IsWaiting) (raw : List Char) (number : Int) :
    (scan.feed raw number).IsWaiting := by
  rw [feed_eq]
  split
  · exact waiting
  · rename_i shown
    have turn := afterHeader_turn (scan.pastBraces raw number) (scan.readLine raw number) scan.depth
    exact turn.waiting waiting (readLine_solid (Bool.eq_false_iff.mpr shown))

theorem feedLines_waiting (waiting : scan.IsWaiting) (first : Int) (lines : List (List Char)) :
    (scan.feedLines first lines).IsWaiting := by
  induction lines generalizing scan first with
  | nil => exact waiting
  | cons raw lines ih => exact ih (feed_waiting waiting raw first) (first + 1)

end Waiting

/-- The header of a method is read with a tail at `start` that its body begins with. -/
structure OpensBody (dialect : Dialect) (method : OpenMethod) (read : Header.MethodHeader)
    (start : Nat) : Prop where
  found : Header.method? dialect method.className (joined method.header) = some read
  starts : read.tailStart = some start
  present : Tail.ofText ((joined method.header).drop start) = .present

/-- A line is read as the last one in the header of a method: of the one that waits for its body, or
of one that the line opens. The method stands in `around`. -/
inductive ReadsHeader (scan : Scan) (line : Line) (depth : Int) :
    (around : Scan) → OpenMethod → Prop
  | continued {method : OpenMethod} (opened : scan.method = some method)
      (pending : method.entered = false)
      (continues : Header.continues (joined method.header) line.mask = true) :
      ReadsHeader scan line depth scan { method with header := method.header ++ [line.mask] }
  | opened {method : OpenMethod} (opening : scan.opening? line depth = some (.ofMethod method)) :
      ReadsHeader scan line depth scan.withoutPending method

/-- A line that is read as a header puts a method with this heading and these statements into the
innermost class. The method stays open or ends, and then classes may end too. -/
def Records (around next : Scan) (heading : Heading) (statements : List Statement) : Prop :=
  ∃ ended, ∃ method : OpenMethod, method.toMethod.heading = heading ∧
    method.statements = statements ∧
    (next = around.recording ended method ∨ next = (around.recording ended method).settleClasses)

section Slices

variable {dialect : Dialect} {line : Line} {method : OpenMethod} {read : Header.MethodHeader}
  {start : Nat}

theorem OpensBody.sign (body : OpensBody dialect method read start) :
    (joined method.header)[start]? = some '{' ∨ (joined method.header)[start]? = some '=' := by
  have present := body.present
  rw [← List.head?_drop]
  cases tail : (joined method.header).drop start with
  | nil =>
      rw [tail] at present
      cases present
  | cons c rest =>
      have sign := Header.head?_tail body.found body.starts (by rw [tail, List.head?_cons])
      rw [tail] at present
      cases dialect with
      | kotlin =>
          rw [Header.startsBody, Bool.or_eq_true, beq_iff_eq, beq_iff_eq] at sign
          exact sign.imp (congrArg some) (congrArg some)
      | java =>
          rw [Header.startsBody, Bool.or_eq_true, beq_iff_eq, beq_iff_eq] at sign
          rcases sign with rfl | rfl
          · exact .inl rfl
          · cases present

theorem bodyColumn_concat (front : List Char) (line : Line) (start : Nat) :
    bodyColumn (front ++ ' ' :: line.mask) line start = start - front.length := by
  rw [bodyColumn, List.length_append, List.length_cons]
  omega

theorem trim_blank_cons (text : List Char) : trim (' ' :: text) = trim text :=
  rfl

/-- The body of a method that waited begins in the line that is added to its header, or directly
before it, behind the `=` that the header ended with. -/
theorem Waits.trim_body (waits : Waits dialect method)
    (body : OpensBody dialect { method with header := method.header ++ [line.mask] } read start) :
    trim (line.mask.drop (bodyColumn (joined (method.header ++ [line.mask])) line start)) =
      trim ((joined (method.header ++ [line.mask])).drop (start + 1)) := by
  have found := body.found
  change Header.method? dialect method.className (joined (method.header ++ [line.mask])) = _
    at found
  rw [joined_concat waits.nonempty] at found ⊢
  rw [bodyColumn_concat]
  rcases Nat.lt_trichotomy start (joined method.header).length with early | rfl | late
  · have gap : Header.IsGap (joined method.header) (' ' :: line.mask) := by
      obtain ⟨c, last, filled⟩ := waits.solid
      refine ⟨fun other same => ?_, rfl⟩
      rw [← Option.some.inj (last.symm.trans same)]
      exact filled
    obtain ⟨part, partRead, awaited⟩ := waits.read
    rcases awaited start (Header.method?_tail_front gap found partRead body.starts early) with
      none | equals
    · rw [List.drop_eq_nil_iff] at none
      omega
    · have last := congrArg List.length equals
      rw [List.length_drop, List.length_singleton] at last
      have next : start + 1 = (joined method.header).length := by omega
      rw [next, List.drop_left, trim_blank_cons, Nat.sub_eq_zero_of_le early.le, List.drop_zero]
  · have sign := Header.head?_tail found body.starts (by rw [List.drop_left, List.head?_cons])
    cases dialect <;> cases sign
  · obtain ⟨count, rfl⟩ := Nat.exists_eq_add_of_le late.le
    rw [Nat.add_sub_cancel_left, Nat.add_assoc, List.drop_length_add_append, List.drop_succ_cons]

end Slices

section Records

variable (scan : Scan) (line : Line) {method : OpenMethod}

theorem resolveMethod_of_body {read : Header.MethodHeader} {start : Nat}
    (body : OpensBody scan.dialect method read start) :
    ∃ ended, ∃ grown : OpenMethod, grown.toMethod.heading = method.toMethod.heading ∧
      grown.statements = method.statements ++
        scan.statements (line.drop (bodyColumn (joined method.header) line start)) ∧
      scan.resolveMethod method line = scan.recording ended grown := by
  rw [resolveMethod_of_some scan line method body.found, body.starts]
  dsimp only
  rw [body.present, atTail, enterMethod_eq]
  let grown := (scan.reread method read).extend
    (scan.statements (line.drop (bodyColumn (joined method.header) line start)))
  split
  · exact ⟨false, { grown with entered := true }, rfl, rfl, rfl⟩
  · exact ⟨true, grown, rfl, rfl, rfl⟩

theorem resolveMethod_of_bodiless
    (bodiless : ∀ read start, ¬ OpensBody scan.dialect method read start) :
    ∃ ended, ∃ grown : OpenMethod, grown.toMethod.heading = method.toMethod.heading ∧
      grown.statements = method.statements ∧
      scan.resolveMethod method line = scan.recording ended grown := by
  cases found : Header.method? scan.dialect method.className (joined method.header) with
  | none =>
      rw [resolveMethod_of_none scan line method found]
      exact ⟨true, method, rfl, rfl, rfl⟩
  | some read =>
      rw [resolveMethod_of_some scan line method found]
      cases starts : read.tailStart with
      | none => exact ⟨false, scan.reread method read, rfl, rfl, rfl⟩
      | some start =>
          dsimp only
          cases tail : Tail.ofText ((joined method.header).drop start) with
          | awaited => exact ⟨false, scan.reread method read, rfl, rfl, rfl⟩
          | missing => exact ⟨true, scan.reread method read, rfl, rfl, rfl⟩
          | present => exact absurd ⟨found, starts, tail⟩ (bodiless read start)

variable {scan line} {around : Scan} {depth : Int}

theorem afterHeader_of_opening
    (opening : scan.opening? line depth = some (.ofMethod method)) :
    method.header = [line.mask] ∧ method.statements = [] ∧
      scan.afterHeader line depth = scan.withoutPending.resolveMethod method line := by
  have turn := afterHeader_turn scan line depth
  rw [opening] at turn
  generalize scan.afterHeader line depth = next at turn ⊢
  cases turn with
  | openMethod => exact ⟨rfl, rfl, rfl⟩

namespace ReadsHeader

theorem dialect_eq (reads : scan.ReadsHeader line depth around method) :
    around.dialect = scan.dialect := by
  cases reads with
  | continued => rfl
  | opened => exact congrArg Prod.fst (withoutPending_frame scan)

theorem afterHeader_eq (reads : scan.ReadsHeader line depth around method) :
    scan.afterHeader line depth = around.resolveMethod method line ∨
      scan.afterHeader line depth = (around.resolveMethod method line).settleClasses := by
  cases reads with
  | continued opened pending continues =>
      exact .inr (afterHeader_of_method opened pending continues depth)
  | opened opening => exact .inl (afterHeader_of_opening opening).2.2

theorem bare (waiting : scan.IsWaiting) (reads : scan.ReadsHeader line depth around method) :
    method.statements = [] := by
  cases reads with
  | continued opened pending => exact (waiting _ opened pending).bare
  | opened opening => exact (afterHeader_of_opening opening).2.1

theorem trim_body (waiting : scan.IsWaiting) (reads : scan.ReadsHeader line depth around method)
    {read : Header.MethodHeader} {start : Nat} (body : OpensBody scan.dialect method read start) :
    trim (line.mask.drop (bodyColumn (joined method.header) line start)) =
      trim ((joined method.header).drop (start + 1)) := by
  cases reads with
  | continued opened pending => exact (waiting _ opened pending).trim_body body
  | opened opening =>
      have alone : joined method.header = line.mask := by
        rw [joined, (afterHeader_of_opening opening).1, unwords_singleton]
      rw [alone, bodyColumn, Nat.sub_self, Nat.sub_zero]

end ReadsHeader

end Records

/-- The statements that a header line adds to its method are those behind the sign that the body
begins with, up to the end of the line. The annotations, the parameter list and the return type
stand before that sign, and a line without it adds nothing. -/
theorem statements_behind_header (dialect : Dialect) (file : Option String) (first : Int)
    (lines : List (List Char)) (raw : List Char) (number : Int) :
    let scan := (start dialect file).feedLines first lines
    let line := scan.readLine raw number
    line.isSkipped = false → ∀ around method,
      (scan.pastBraces raw number).ReadsHeader line scan.depth around method →
      let header := joined method.header
      (∀ read start, OpensBody dialect method read start →
        let column := bodyColumn header line start
        (∃ before between,
          header.take start = before ++ '(' :: (read.parameters ++ ')' :: between) ∧
          ∀ c ∈ between, Header.startsBody dialect c = false) ∧
        (header[start]? = some '{' ∨ header[start]? = some '=') ∧
        trim (line.mask.drop column) = trim (header.drop (start + 1)) ∧
        around.Records (scan.feed raw number) method.toMethod.heading
          (LineStatements.scan dialect (line.mask.drop column) (line.code.drop column) number)) ∧
      ((∀ read start, ¬ OpensBody dialect method read start) →
        around.Records (scan.feed raw number) method.toMethod.heading []) := by
  intro scan line shown around method reads header
  have waiting : (scan.pastBraces raw number).IsWaiting :=
    feedLines_waiting (isWaiting_of_free rfl) first lines
  have spoken : scan.dialect = dialect := feedLines_dialect _ first lines
  have inside : around.dialect = dialect := reads.dialect_eq.trans spoken
  have fed : scan.feed raw number = (scan.pastBraces raw number).afterHeader line scan.depth := by
    rw [feed_eq, shown]
    rfl
  have bare := reads.bare waiting
  refine ⟨fun read start body => ?_, fun bodiless => ?_⟩
  · refine ⟨Header.take_tail body.found body.starts, body.sign, ?_, ?_⟩
    · exact reads.trim_body waiting (spoken.symm ▸ body)
    · obtain ⟨ended, grown, heading, statements, resolved⟩ :=
        resolveMethod_of_body around line (inside.symm ▸ body)
      refine ⟨ended, grown, heading, ?_, ?_⟩
      · rw [statements, bare, List.nil_append, Scan.statements, Line.statements, inside]
        rfl
      · rw [fed, ← resolved]
        exact reads.afterHeader_eq
  · obtain ⟨ended, grown, heading, statements, resolved⟩ :=
      resolveMethod_of_bodiless around line (inside.symm ▸ bodiless)
    refine ⟨ended, grown, heading, statements.trans bare, ?_⟩
    rw [fed, ← resolved]
    exact reads.afterHeader_eq

section Sum

def sumHeader : List Char :=
  "@Tag(1) fun sum(a: Int = pick(1)): Int =".toList

def sumBody : List Char :=
  "  add(a) + pick(2)".toList

def beforeSum : Scan :=
  (start .kotlin none).feedLines 1 [braced "class Shop ⟨"]

def atSum : Scan :=
  (start .kotlin none).feedLines 1 [braced "class Shop ⟨", sumHeader]

def sumMethod (header : List (List Char)) : OpenMethod :=
  { name := "sum", className := "Shop", visibility := "package", parameters := [⟨"a", "Int"⟩],
    returnType := some "Int", line := 2, baseDepth := 1, header, entered := false,
    statements := [] }

def sumRead : Header.MethodHeader :=
  ⟨"sum", "package", "a: Int = pick(1)".toList, some "Int", some 39⟩

def sumLine : Line :=
  atSum.readLine sumBody 3

def sumWhole : OpenMethod :=
  sumMethod [sumHeader, sumLine.mask]

theorem sumLine_texts : sumLine.mask = "add(a) + pick(2)".toList ∧
    sumLine.code = "add(a) + pick(2)".toList := by
  decide +kernel

/-- The call in the default value is recorded neither with the header nor with the line after it. -/
theorem sum_behind_header :
    (beforeSum.pastBraces sumHeader 2).withoutPending.Records (beforeSum.feed sumHeader 2)
        (sumMethod [sumHeader]).toMethod.heading [] ∧
      OpensBody .kotlin sumWhole sumRead 39 ∧
      (atSum.pastBraces sumBody 3).Records (atSum.feed sumBody 3) sumWhole.toMethod.heading
        [.call "add" 3 none, .call "pick" 3 none] := by
  have opens : (beforeSum.pastBraces sumHeader 2).ReadsHeader (beforeSum.readLine sumHeader 2)
      beforeSum.depth _ (sumMethod [sumHeader]) := .opened rfl
  have bodiless : ∀ read start, ¬ OpensBody .kotlin (sumMethod [sumHeader]) read start := by
    rintro read start ⟨found, starts, present⟩
    have known : Header.method? .kotlin "Shop" (joined [sumHeader]) = some sumRead := by
      decide +kernel
    obtain rfl := Option.some.inj (known.symm.trans found)
    obtain rfl : 39 = start := Option.some.inj starts
    change Tail.awaited = Tail.present at present
    cases present
  have waits : (atSum.pastBraces sumBody 3).method = some (sumMethod [sumHeader]) := rfl
  have more : Header.continues (joined (sumMethod [sumHeader]).header) sumLine.mask = true := by
    decide +kernel
  have continues : (atSum.pastBraces sumBody 3).ReadsHeader sumLine atSum.depth
      (atSum.pastBraces sumBody 3) sumWhole := .continued waits rfl more
  have body : OpensBody .kotlin sumWhole sumRead 39 := by
    rw [sumWhole, sumLine_texts.1]
    exact ⟨by decide +kernel, rfl, rfl⟩
  have column : bodyColumn (joined sumWhole.header) sumLine 39 = 0 := by decide +kernel
  have scanned : LineStatements.scan .kotlin sumLine.mask sumLine.code 3 =
      [.call "add" 3 none, .call "pick" 3 none] := by
    rw [sumLine_texts.1, sumLine_texts.2]
    rfl
  have before := statements_behind_header .kotlin none 1 [braced "class Shop ⟨"] sumHeader 2
    (by decide +kernel) _ _ opens
  have behind := statements_behind_header .kotlin none 1 [braced "class Shop ⟨", sumHeader]
    sumBody 3 (by decide +kernel) _ _ continues
  have records : (atSum.pastBraces sumBody 3).Records (atSum.feed sumBody 3)
      sumWhole.toMethod.heading (LineStatements.scan .kotlin
        (sumLine.mask.drop (bodyColumn (joined sumWhole.header) sumLine 39))
        (sumLine.code.drop (bodyColumn (joined sumWhole.header) sumLine 39)) 3) :=
    (behind.1 sumRead 39 body).2.2.2
  rw [column, List.drop_zero, List.drop_zero, scanned] at records
  exact ⟨before.2 bodiless, body, records⟩

end Sum

end Scan
end MethodFlow
