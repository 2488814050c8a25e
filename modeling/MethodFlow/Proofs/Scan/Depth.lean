import MethodFlow.Proofs.Scan.Moves
import MethodFlow.Proofs.Text.Word

/-!
The brace depth of a scan counts the braces of the masks that were fed, those of lines that look like
the inside of a block comment left out.
-/
namespace MethodFlow

namespace Scan

/-- What the moves that a line makes leave alone. -/
def frame (scan : Scan) : Dialect × Option String × Int × Bool :=
  (scan.dialect, scan.file, scan.depth, scan.inComment)

theorem closeMethod_frame (scan : Scan) : scan.closeMethod.frame = scan.frame := by
  unfold closeMethod
  split <;> rfl

theorem closeClass_frame (scan : Scan) : scan.closeClass.frame = scan.frame := by
  rw [← closeMethod_frame scan]
  unfold closeClass
  dsimp only
  split <;> rfl

theorem Move.frame_eq {line : Line} {depth : Int} {scan next : Scan}
    (moved : Move line depth scan next) : next.frame = scan.frame := by
  cases moved with
  | closeClass => exact closeClass_frame scan
  | closeMethod => exact closeMethod_frame scan
  | _ => rfl

theorem moves_frame {line : Line} {depth : Int} {scan next : Scan}
    (moves : Moves line depth scan next) : next.frame = scan.frame := by
  induction moves with
  | refl => rfl
  | tail _ last ih => rw [last.frame_eq, ih]

end Scan

def MaskedLine.isCommentLike (line : MaskedLine) : Bool :=
  line.trimmed.mask.head? == some '*'

namespace Scan

theorem braceBalance_append (mask more : List Char) :
    braceBalance (mask ++ more) = braceBalance mask + braceBalance more := by
  simp only [braceBalance, List.count_append]
  omega

theorem braceBalance_trim (mask : List Char) :
    braceBalance (Text.trim mask) = braceBalance mask := by
  rw [braceBalance, braceBalance, Text.count_trim (by decide), Text.count_trim (by decide)]

def countedBraces (lines : List MaskedLine) : Int :=
  braceBalance ((lines.filter fun line => !line.isCommentLike).flatMap MaskedLine.mask)

theorem countedBraces_cons (line : MaskedLine) (lines : List MaskedLine) :
    countedBraces (line :: lines) =
      (if line.isCommentLike then 0 else braceBalance line.mask) + countedBraces lines := by
  unfold countedBraces
  cases skipped : line.isCommentLike with
  | true => simp [skipped]
  | false => simp [skipped, braceBalance_append]

theorem feed_frame (scan : Scan) (raw : List Char) (number : Int) :
    let masked := MaskedLine.ofLine scan.inComment raw
    (scan.feed raw number).frame =
      (scan.dialect, scan.file,
        scan.depth + (if masked.isCommentLike then 0 else braceBalance masked.mask),
        masked.inComment) := by
  intro masked
  have balance : braceBalance masked.trimmed.mask = braceBalance masked.mask :=
    braceBalance_trim masked.mask
  have commentLike : masked.isCommentLike = (masked.trimmed.mask.head? == some '*') := rfl
  have skipped : (scan.readLine raw number).isSkipped =
      (masked.trimmed.mask.isEmpty || masked.isCommentLike) := rfl
  rw [feed_eq, skipped]
  cases comment : masked.isCommentLike with
  | true => simp [frame, pastComments, masked]
  | false =>
      cases mask : masked.trimmed.mask with
      | nil =>
          have none : braceBalance masked.mask = 0 := by
            rw [← balance, mask]
            rfl
          simp [frame, pastComments, masked, none]
      | cons c rest =>
          simp only [List.isEmpty_cons, Bool.or_self, Bool.false_eq_true, if_false]
          rw [moves_frame (afterHeader_moves _ _ _), ← balance]
          rfl

theorem feedLines_dialect (scan : Scan) (first : Int) (lines : List (List Char)) :
    (scan.feedLines first lines).dialect = scan.dialect := by
  induction lines generalizing scan first with
  | nil => rfl
  | cons raw lines ih =>
      have fed := feed_frame scan raw first
      simp only [frame, Prod.mk.injEq] at fed
      rw [feedLines, ih, fed.1]

theorem feedLines_depth (scan : Scan) (first : Int) (lines : List (List Char)) :
    (scan.feedLines first lines).depth =
      scan.depth + countedBraces (MaskedLine.ofLines scan.inComment lines) := by
  induction lines generalizing scan first with
  | nil => simp [feedLines, MaskedLine.ofLines, countedBraces, braceBalance]
  | cons raw lines ih =>
      have fed := feed_frame scan raw first
      simp only [frame, Prod.mk.injEq] at fed
      rw [feedLines, ih, fed.2.2.1, fed.2.2.2, MaskedLine.ofLines, countedBraces_cons]
      omega

theorem braceBalance_masks (lines : List MaskedLine) :
    braceBalance (lines.flatMap MaskedLine.mask) = countedBraces lines +
      braceBalance ((lines.filter MaskedLine.isCommentLike).flatMap MaskedLine.mask) := by
  induction lines with
  | nil => rfl
  | cons line lines ih =>
      rw [List.flatMap_cons, braceBalance_append, ih, countedBraces_cons]
      cases comment : line.isCommentLike with
      | true =>
          rw [List.filter_cons_of_pos comment, List.flatMap_cons, braceBalance_append, if_pos rfl]
          omega
      | false =>
          rw [List.filter_cons_of_neg (by simp [comment]), if_neg Bool.false_ne_true]
          omega

/-- The depth after some lines is the number of braces opened in their masks less the number of
those closed, where lines that look like the inside of a comment do not count. So it is that of all
masks if and only if the braces of these lines balance. -/
theorem depth_after_lines (dialect : Dialect) (file : Option String) (first : Int)
    (lines : List (List Char)) :
    let depth := ((start dialect file).feedLines first lines).depth
    let masked := MaskedLine.ofLines false lines
    depth = braceBalance ((masked.filter fun line => !line.isCommentLike).flatMap MaskedLine.mask) ∧
      (depth = braceBalance (masked.flatMap MaskedLine.mask) ↔
        braceBalance ((masked.filter MaskedLine.isCommentLike).flatMap MaskedLine.mask) = 0) := by
  intro depth masked
  have counted : depth = countedBraces masked := by
    have fed := feedLines_depth (start dialect file) first lines
    rwa [start, Int.zero_add] at fed
  refine ⟨counted, ?_⟩
  rw [braceBalance_masks, counted]
  omega

/-- A line that goes on with a product is taken for the inside of a comment, and its brace is not
counted. -/
theorem uncounted_brace :
    ¬∀ (dialect : Dialect) (file : Option String) (first : Int) (lines : List (List Char)),
      ((start dialect file).feedLines first lines).depth =
        braceBalance ((MaskedLine.ofLines false lines).flatMap MaskedLine.mask) := by
  intro all
  have counted := all .java none 1 ["int area = width".toList, braced "* scale(() -> ⟨"]
  revert counted
  decide +kernel

end Scan
end MethodFlow
