import MethodFlow.Proofs.Header.ClassHeaders
import MethodFlow.Proofs.Scan.BracePlacement

/-!
A class header that is fed to a scan. Where no method is open and no other header goes on, it opens
a class with the name and the parents that it was written with (`feed_javaHeader`).
-/
namespace MethodFlow.Scan

open Text Header MaskedLine

/-- The class as a header opens it. `depth` is the brace depth before the line. -/
def openedBy (header : JavaHeader) (depth : Int) (number : Int) : OpenClass :=
  { name := String.ofList header.name.chars
    supertypes := header.parents.supertypes
    line := number
    baseDepth := depth
    header := [header.text]
    entered := header.hasBody
    methods := []
    nested := [] }

section Reading

variable (header : JavaHeader) (before after : Blanks)

theorem trim_header : trim (before.chars ++ header.text ++ after.chars) = header.text := by
  rw [trim_append_blanks _ after.blank, trim, trimLeft_blanks_append before.blank, ← trim,
    header.trim_text]

theorem ofLine_header : MaskedLine.ofLine false (before.chars ++ header.text ++ after.chars) =
    ⟨before.chars ++ header.text ++ after.chars, before.chars ++ header.text ++ after.chars,
      false⟩ := by
  have absent {sign : Char} (solid : isBlank sign = false)
      (other : isDeclarationPart sign = false) (unlike : sign ≠ '{') :
      sign ∉ before.chars ++ header.text ++ after.chars := by
    have none := header.not_mem_text other unlike
    rw [← List.count_eq_zero, ← trim_header header before after, count_trim solid] at none
    exact List.count_eq_zero.mp none
  have unquoted : ∀ c ∈ before.chars ++ header.text ++ after.chars, isQuote c = false := by
    intro c member
    rw [Bool.eq_false_iff, isQuote, Ne, Bool.or_eq_true, beq_iff_eq, beq_iff_eq]
    rintro (rfl | rfl)
    · exact absent (by decide) (by decide) (by decide) member
    · exact absent (by decide) (by decide) (by decide) member
  -- Without a quote or a slash nothing is masked.
  have unmarked := isUnmarked_of_slashless unquoted
    (absent (by decide) (by decide) (by decide))
  exact unmarked.showsEnd.read

theorem braceBalance_header : braceBalance header.text = if header.hasBody then 1 else 0 := by
  have opened : header.declaration.count '{' = 0 :=
    List.count_eq_zero.mpr header.brace_not_mem_declaration
  have closed : header.text.count '}' = 0 :=
    List.count_eq_zero.mpr (header.not_mem_text (by decide) (by decide))
  have ending : (headerEnd header.hasBody).count '{' = if header.hasBody then 1 else 0 := by
    cases header.hasBody <;> rfl
  rw [braceBalance, closed, JavaHeader.text, List.count_append, opened, ending]
  cases header.hasBody <;> rfl

theorem isSkipped_header (number : Int) : (Line.plain header.text number).isSkipped = false := by
  obtain ⟨c, first, -⟩ := header.head?_text
  have unlike : c ≠ '*' := by
    rintro rfl
    exact header.not_mem_text (by decide) (by decide) (List.mem_of_head? first)
  have shown : header.text ≠ [] := by
    intro none
    rw [none] at first
    cases first
  simp [Line.isSkipped, first, shown, unlike]

variable {scan : Scan} (outside : scan.inComment = false) (number : Int)

include outside

theorem readLine_header : scan.readLine (before.chars ++ header.text ++ after.chars) number =
    .plain header.text number := by
  rw [readLine, outside, ofLine_header]
  simp only [MaskedLine.trimmed, trim_header]

theorem pastBraces_header :
    scan.pastBraces (before.chars ++ header.text ++ after.chars) number =
      if header.hasBody then scan.deeper else scan := by
  have comments : scan.pastComments (before.chars ++ header.text ++ after.chars) = scan := by
    rw [pastComments, outside, ofLine_header, ← outside]
  rw [pastBraces, comments, readLine_header header before after outside, braceBalance_header]
  cases header.hasBody with
  | false => simp
  | true => rfl

end Reading

section Opening

variable {scan : Scan} (header : JavaHeader)

theorem package?_header : package? header.text = none := by
  rw [package?, header.keyword?_eq_none package_plain (by decide)]
  rfl

theorem newClass?_header (java : scan.dialect = .java) (free : scan.method = none)
    (depth number : Int) :
    scan.newClass? (.plain header.text number) depth =
      some ((Line.plain header.text number).newClass (String.ofList header.name.chars) depth) := by
  rw [newClass?, free, java, header.openedClass?_text]
  rfl

theorem ownLine_header (java : scan.dialect = .java) (free : scan.method = none)
    (depth number : Int) (level : header.hasBody = true → depth < scan.depth) :
    scan.ownLine (.plain header.text number) depth =
      scan.within (openedBy header depth number) := by
  have unstated : scan.packageLine? (.plain header.text number) = none := by
    simp [packageLine?, package?_header]
  have reread : scan.rereadClass ((Line.plain header.text number).newClass
      (String.ofList header.name.chars) depth) =
        { openedBy header depth number with entered := false } := by
    have read : supertypes? scan.dialect (joined [header.text]) =
        some header.parents.supertypes := by
      rw [java, joined, unwords_singleton, header.supertypes?_text]
    simp only [rereadClass, Line.newClass, read]
    rfl
  rw [ownLine_of_class unstated (newClass?_header header java free depth number)]
  change (scan.within _).resolveClass _ = _
  cases hasBody : header.hasBody with
  | false =>
      have braceless : '{' ∉ header.text := by
        rw [JavaHeader.text, hasBody, headerEnd, if_neg Bool.false_ne_true, List.append_nil]
        exact header.brace_not_mem_declaration
      rw [resolveClass_of_braceless _ braceless, reread, openedBy, hasBody]
  | true =>
      have brace : '{' ∈ header.text := by
        rw [JavaHeader.text, hasBody]
        exact List.mem_append_right _ (List.mem_cons_of_mem _ List.mem_cons_self)
      rw [resolveClass_of_brace _ brace (level hasBody), reread, openedBy, hasBody]

end Opening

theorem feed_javaHeader (scan : Scan) (header : JavaHeader) (before after : Blanks) (number : Int)
    (java : scan.dialect = .java) (outside : scan.inComment = false)
    (standing : scan.continuesHeader (.plain header.text number) = false)
    (free : scan.withoutPending.method = none) :
    scan.feed (before.chars ++ header.text ++ after.chars) number =
      (if header.hasBody then scan.withoutPending.deeper else scan.withoutPending).within
        (openedBy header scan.depth number) := by
  have frame := withoutPending_frame scan
  have dialect : scan.withoutPending.dialect = scan.dialect := congrArg (fun frame => frame.1) frame
  have depth : scan.withoutPending.depth = scan.depth := congrArg (fun frame => frame.2.2.1) frame
  rw [feed_eq, readLine_header header before after outside, isSkipped_header,
    pastBraces_header header before after outside, if_neg Bool.false_ne_true]
  cases hasBody : header.hasBody with
  | false =>
      rw [if_neg Bool.false_ne_true, if_neg Bool.false_ne_true,
        afterHeader_of_standing _ _ _ standing]
      refine ownLine_header header (dialect.trans java) free _ _ fun braced => ?_
      rw [hasBody] at braced
      cases braced
  | true =>
      have standingDeeper : scan.deeper.continuesHeader (.plain header.text number) = false :=
        standing
      have javaDeeper : scan.withoutPending.deeper.dialect = .java := dialect.trans java
      rw [if_pos rfl, if_pos rfl, afterHeader_of_standing _ _ _ standingDeeper,
        withoutPending_deeper]
      refine ownLine_header header javaDeeper free _ _ fun _ => ?_
      change scan.depth < scan.withoutPending.depth + 1
      rw [depth]
      exact Int.lt_succ scan.depth

theorem letter_plain {letter : Char} (plain : isNamePart letter = true) :
    ∀ c ∈ [letter], isNamePart c = true := by
  simpa using plain

def letterName (letter : Char) (plain : isNamePart letter = true) : JavaName where
  first := ⟨[letter], List.cons_ne_nil letter [], letter_plain plain⟩
  rest := []
  unreserved same := by simpa [DottedName.text] using congrArg List.length same

def pairHeader : JavaHeader where
  modifiers := ["final"]
  known := by decide
  name := ⟨['P'], by decide, List.all_eq_true.mp (by decide)⟩
  typeParameters :=
    [⟨⟨['K'], by decide, List.all_eq_true.mp (by decide)⟩,
        some ⟨.generic (letterName 'L' (by decide))
          (.exact (.named (letterName 'K' (by decide)))) [], by decide⟩⟩,
      ⟨⟨['V'], by decide, List.all_eq_true.mp (by decide)⟩, none⟩]
  parents := .ofClass
    (some ⟨.generic (letterName 'S' (by decide)) (.lower (.named (letterName 'K' (by decide)))) [],
      by decide⟩)
    [⟨.generic (letterName 'M' (by decide)) (.exact (.named (letterName 'K' (by decide))))
        [.unbounded], by decide⟩,
      ⟨.named (letterName 'I' (by decide)), by decide⟩]
  hasBody := true

theorem pairHeader_fed :
    pairHeader.text =
        braced "final class P<K extends L<K>, V> extends S<? super K> implements M<K, ?>, I ⟨" ∧
      (start .java none).continuesHeader (.plain pairHeader.text 1) = false ∧
      (start .java none).withoutPending.method = none ∧
      ((start .java none).feed ("  ".toList ++ pairHeader.text ++ []) 1).classes.map
          (fun cls => (cls.name, cls.supertypes, cls.entered)) =
        [("P", ⟨some "S<? super K>", ["M<K, ?>", "I"]⟩, true)] := by
  refine ⟨by decide, rfl, rfl, ?_⟩
  have fed := feed_javaHeader (start .java none) pairHeader
    ⟨"  ".toList, List.all_eq_true.mp (by decide)⟩ ⟨[], by simp⟩ 1 rfl rfl rfl rfl
  rw [fed]
  decide

end MethodFlow.Scan
