import MethodFlow.Proofs.Scan.Depth
import MethodFlow.Proofs.Scan.Renumbering
import MethodFlow.Proofs.Text.Masking

/-!
What a scan does not see: comments that are blanked, blanks around lines, and lines that hold
nothing but blanks and comments, apart from the numbers that these take from the lines after them.
-/
namespace MethodFlow

theorem MaskedLine.mem_ofLines {inComment : Bool} {lines : List (List Char)} {masked : MaskedLine}
    (member : masked ∈ ofLines inComment lines) : ∃ entered raw, masked = ofLine entered raw := by
  induction lines generalizing inComment with
  | nil => cases member
  | cons raw lines ih =>
      rcases List.mem_cons.mp member with first | later
      · exact ⟨inComment, raw, first⟩
      · exact ih later

namespace Scan

section Comments

theorem feed_inComment (scan : Scan) (raw : List Char) (first : Int) :
    (scan.feed raw first).inComment = (MaskedLine.ofLine scan.inComment raw).inComment := by
  have fed := feed_frame scan raw first
  simp only [frame, Prod.mk.injEq] at fed
  exact fed.2.2.2

theorem feed_erased (scan : Scan) (raw : List Char) (first : Int) :
    (scan.relabel id false).feed (MaskedLine.ofLine scan.inComment raw).code first =
      (scan.feed raw first).relabel id false := by
  have again := (MaskedLine.ofLine_rereads scan.inComment raw).1
  have fed := feed_relabel id false scan raw (MaskedLine.ofLine scan.inComment raw).code first
  rw [again] at fed
  exact fed rfl rfl

theorem feedLines_erased (scan : Scan) (first : Int) (lines : List (List Char)) :
    (scan.relabel id false).feedLines first
        ((MaskedLine.ofLines scan.inComment lines).map MaskedLine.code) =
      (scan.feedLines first lines).relabel id false := by
  induction lines generalizing scan first with
  | nil => rfl
  | cons raw lines ih =>
      rw [MaskedLine.ofLines, List.map_cons, feedLines, feed_erased, feedLines,
        ← feed_inComment scan raw first, ih]

/-- Comments are of no consequence. Code whose comments are blanked reads as itself, with the same
mask, and so does a mask; and a source without its comments has the same classes. -/
theorem comments_erased (dialect : Dialect) (file : Option String) (first : Int)
    (lines : List (List Char)) :
    let masked := MaskedLine.ofLines false lines
    (∀ line ∈ masked,
      MaskedLine.ofLine false line.code = ⟨line.code, line.mask, false⟩ ∧
      MaskedLine.ofLine false line.mask = ⟨line.mask, line.mask, false⟩) ∧
    (start dialect file).feedLines first (masked.map MaskedLine.code) =
      { (start dialect file).feedLines first lines with inComment := false } ∧
    ((start dialect file).feedLines first (masked.map MaskedLine.code)).finish =
      ((start dialect file).feedLines first lines).finish := by
  intro masked
  have fed := feedLines_erased (start dialect file) first lines
  refine ⟨fun line member => ?_, ?_, ?_⟩
  · obtain ⟨inComment, raw, rfl⟩ := MaskedLine.mem_ofLines member
    exact MaskedLine.ofLine_rereads inComment raw
  · rw [← relabel_id]
    exact fed
  · have kept := finish_relabel id false ((start dialect file).feedLines first lines)
    rw [List.map_id'' ClassDecl.renumber_id, ← fed] at kept
    exact kept

def commentedLines : List (List Char) :=
  [braced "class A ⟨ void run() ⟨ call(\"/*\\\"//\"); /* \"",
    "' */ stop('\"', 1 / 2); // */".toList,
    braced "⟩⟩"]

theorem commentedLines_erased :
    let stop : MaskedLine :=
      ⟨"     stop('\"', 1 / 2); ".toList, "     stop(' ', 1 / 2); ".toList, false⟩
    stop ∈ MaskedLine.ofLines false commentedLines ∧
      MaskedLine.ofLine false stop.code = stop ∧
      ((start .java none).feedLines 1
          ((MaskedLine.ofLines false commentedLines).map MaskedLine.code)).finish =
        ((start .java none).feedLines 1 commentedLines).finish := by
  intro stop
  have found : stop ∈ MaskedLine.ofLines false commentedLines := by decide +kernel
  obtain ⟨rereads, -, classes⟩ := comments_erased .java none 1 commentedLines
  exact ⟨found, (rereads stop found).1, classes⟩

end Comments

end Scan

/-- A line of a source that is laid out anew: one that was there before, now with blanks around it,
or one that was added. -/
inductive RelaidLine where
  | padded (before line after : List Char)
  | added (line : List Char)

namespace RelaidLine

def raw : RelaidLine → List Char
  | padded before line after => before ++ line ++ after
  | added line => line

def old? : RelaidLine → Option (List Char)
  | padded _ line _ => some line
  | added _ => none

end RelaidLine

namespace Relayout

open Text

/-- Whether only blanks were put around lines, and only lines were added that hold nothing but
blanks and comments and end in a comment if and only if they start in one. -/
def isValid : (inComment : Bool) → List RelaidLine → Bool
  | _, [] => true
  | inComment, .padded before line after :: rest =>
    before.all isBlank && after.all isBlank &&
      isValid (MaskedLine.ofLine inComment line).inComment rest
  | inComment, .added line :: rest =>
    let masked := MaskedLine.ofLine inComment line
    masked.mask.all isBlank && masked.inComment == inComment && isValid inComment rest

/-- How many lines were added before the line that had this number, where the old lines are
numbered from `first` on. -/
def addedUpTo (number : Int) : (first : Int) → List RelaidLine → Int
  | _, [] => 0
  | first, .padded _ _ _ :: rest => addedUpTo number (first + 1) rest
  | first, .added _ :: rest => (if first ≤ number then 1 else 0) + addedUpTo number first rest

def newNumber (first : Int) (layout : List RelaidLine) (number : Int) : Int :=
  number + addedUpTo number first layout

theorem addedUpTo_of_lt {number first : Int} (before : number < first) (layout : List RelaidLine) :
    addedUpTo number first layout = 0 := by
  induction layout generalizing first with
  | nil => rfl
  | cons line rest ih =>
      cases line with
      | padded front line back => exact ih (by omega)
      | added line =>
          rw [addedUpTo, if_neg (by omega), ih before]
          rfl

end Relayout

namespace Scan

open Relayout

def renumber (number : Int → Int) (scan : Scan) : Scan :=
  scan.relabel number scan.inComment

theorem feed_padded (number : Int → Int) (scan : Scan) {before after : List Char}
    (blankBefore : ∀ c ∈ before, Text.isBlank c = true)
    (blankAfter : ∀ c ∈ after, Text.isBlank c = true) (line : List Char) (first : Int) :
    (scan.renumber number).feed (before ++ line ++ after) (number first) =
      (scan.feed line first).renumber number := by
  have same := MaskedLine.trimmed_padded blankBefore blankAfter scan.inComment line
  have inComment := congrArg MaskedLine.inComment same
  rw [renumber, renumber, feed_inComment, feed_relabel number scan.inComment scan line]
  · exact congrArg (relabel number · (scan.feed line first)) inComment
  · rw [same]
  · rw [same]

theorem feed_added (scan : Scan) {line : List Char}
    (blank : ∀ c ∈ (MaskedLine.ofLine scan.inComment line).mask, Text.isBlank c = true)
    (inComment : (MaskedLine.ofLine scan.inComment line).inComment = scan.inComment)
    (first : Int) : scan.feed line first = scan := by
  have skipped : (scan.readLine line first).isSkipped = true := by
    simp [Line.isSkipped, readLine, MaskedLine.trimmed, Text.trim_of_blanks blank]
  rw [feed_eq, if_pos skipped, pastComments, inComment]

/-- Lines in a new layout, `added` lines into it. A line that goes by is renumbered, and one that
was added leaves the scan as it is. -/
theorem feedLines_relaid {number : Int → Int} (layout : List RelaidLine) (scan : Scan)
    (first added : Int) (valid : isValid scan.inComment layout = true)
    (numbers : ∀ old, first ≤ old → number old = old + added + addedUpTo old first layout) :
    (scan.renumber number).feedLines (first + added) (layout.map RelaidLine.raw) =
      (scan.feedLines first (layout.filterMap RelaidLine.old?)).renumber number := by
  induction layout generalizing scan first added with
  | nil => rfl
  | cons line rest ih =>
      cases line with
      | padded before line after =>
          simp only [isValid, Bool.and_eq_true, List.all_eq_true] at valid
          obtain ⟨⟨blankBefore, blankAfter⟩, others⟩ := valid
          have here : first + added = number first := by
            rw [numbers first (Int.le_refl first), addedUpTo, addedUpTo_of_lt (by omega)]
            omega
          have next : first + added + 1 = first + 1 + added := by omega
          have fed := feed_padded number scan blankBefore blankAfter line first
          rw [← here] at fed
          rw [← feed_inComment scan line first] at others
          change ((scan.renumber number).feed (before ++ line ++ after)
            (first + added)).feedLines (first + added + 1) (rest.map RelaidLine.raw) = _
          rw [fed, next]
          exact ih (scan.feed line first) (first + 1) added others fun old later =>
            numbers old (by omega)
      | added line =>
          simp only [isValid, Bool.and_eq_true, List.all_eq_true, beq_iff_eq] at valid
          obtain ⟨⟨blank, inComment⟩, others⟩ := valid
          have fed := feed_added (scan.renumber number) blank inComment (first + added)
          have next : first + added + 1 = first + (added + 1) := by omega
          change ((scan.renumber number).feed line (first + added)).feedLines (first + added + 1)
            (rest.map RelaidLine.raw) = _
          rw [fed, next]
          refine ih scan first (added + 1) others fun old later => ?_
          rw [numbers old later, addedUpTo, if_pos later]
          omega

/-- Layout is of no consequence. Where blanks are put around lines, and lines of blanks and comments
are added, the scan finds the same, with the lines numbered as they now stand. -/
theorem relaid_lines (dialect : Dialect) (file : Option String) (first : Int)
    (layout : List RelaidLine) (valid : isValid false layout = true) :
    let old := (start dialect file).feedLines first (layout.filterMap RelaidLine.old?)
    let new := (start dialect file).feedLines first (layout.map RelaidLine.raw)
    new = old.renumber (newNumber first layout) ∧
      new.finish = old.finish.map (ClassDecl.renumber (newNumber first layout)) := by
  intro old new
  have fed : new = old.renumber (newNumber first layout) := by
    have relaid := @feedLines_relaid (newNumber first layout) layout (start dialect file) first 0
      valid fun number _ => by rw [newNumber, Int.add_zero]
    rw [Int.add_zero] at relaid
    exact relaid
  refine ⟨fed, ?_⟩
  rw [fed]
  exact finish_relabel (newNumber first layout) old.inComment old

/-- A class whose header is broken by added lines, with a comment that goes on over an added line
and a literal that ends in a backslash before added blanks. -/
def brokenHeader : List RelaidLine :=
  [.padded "\t".toList "class A".toList " ".toList,
    .added "  // why".toList,
    .padded [] (braced "implements B ⟨ /* open") "\x0b".toList,
    .added "call(); \"".toList,
    .padded "  ".toList (braced "*/ void run() ⟨") [],
    .added "/* all */ /**/".toList,
    .padded [] "call(\"a\\".toList [' ', '\u00a0'],
    .added [],
    .padded "    ".toList (braced "⟩⟩") []]

theorem brokenHeader_relaid :
    isValid false brokenHeader = true ∧
      ((start .java none).feedLines 1 (brokenHeader.map RelaidLine.raw)).finish =
        ((start .java none).feedLines 1 (brokenHeader.filterMap RelaidLine.old?)).finish.map
          (ClassDecl.renumber (newNumber 1 brokenHeader)) ∧
      [1, 2, 3, 4, 5].map (newNumber 1 brokenHeader) = [1, 3, 5, 7, 9] := by
  have valid : isValid false brokenHeader = true := by decide +kernel
  exact ⟨valid, (relaid_lines .java none 1 brokenHeader valid).2, by decide +kernel⟩

end Scan
end MethodFlow
