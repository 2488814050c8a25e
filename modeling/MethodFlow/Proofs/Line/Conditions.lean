import MethodFlow.Proofs.Line.Parentheses
import MethodFlow.Proofs.Line.Statements
import MethodFlow.Proofs.Text.Columns
import MethodFlow.Proofs.Tree.Correspondence
import Mathlib.Data.List.Infix

/-!
Conditions. A condition whose own parentheses balance is cut out whole, whatever its literals hold
(`conditionOf_heading`). It is the same text that a syntax tree gives for the condition, without the
parentheses around it.
-/
namespace MethodFlow

open Text

namespace LineStatements

theorem between_append (front inside back : List Char) :
    between (front ++ (inside ++ back)) front.length (front.length + inside.length) = inside := by
  have first : clampPosition (front ++ (inside ++ back)).length front.length = front.length := by
    rw [clampPosition, if_neg (by omega), List.length_append]
    omega
  have last : clampPosition (front ++ (inside ++ back)).length (front.length + inside.length) =
      front.length + inside.length := by
    rw [clampPosition, if_neg (by omega), List.length_append, List.length_append]
    omega
  rw [between, first, last, Nat.add_sub_cancel_left, List.drop_left, List.take_left]

/-- The columns of the code are those of the mask, so the condition that is cut out of the code is
all that stands between the parentheses of the mask. -/
theorem condition?_parenthesized {front maskFront inside maskInside : List Char}
    (columns : maskFront.length = front.length) (columnsInside : maskInside.length = inside.length)
    (balanced : IsBalanced maskInside) (back maskBack : List Char) :
    condition? (maskFront ++ '(' :: (maskInside ++ ')' :: maskBack))
        (front ++ '(' :: (inside ++ ')' :: back)) front.length =
      if (collapse inside).isEmpty then none else some (collapse inside) := by
  have opening : fromPosition (maskFront ++ '(' :: (maskInside ++ ')' :: maskBack)) front.length =
      '(' :: (maskInside ++ ')' :: maskBack) := by
    rw [fromPosition, if_neg (by omega), Int.toNat_natCast, ← columns, List.drop_left]
  have cut := between_append (front ++ ['(']) inside (')' :: back)
  have start : ((front ++ ['(']).length : Int) = front.length + 1 := by simp
  have stop : (front.length + 1 + inside.length : Int) =
      front.length + ((maskInside.length + 1 : Nat) : Int) := by omega
  rw [List.append_assoc, List.singleton_append, start, stop] at cut
  rw [condition?, opening, balanced.closingOffset_eq]
  simp only [cut]

theorem stripParentheses_eq (inside : List Char) :
    Tree.stripParentheses ('(' :: (inside ++ [')'])) = collapse inside := by
  have solid : isBlank ')' = false := by decide
  have whole : trim ('(' :: (inside ++ [')'])) = '(' :: (inside ++ [')']) := by
    have split := trim_append_cons (c := '(') (by decide) [] (inside ++ [')'])
    simpa [trimLeft, trimRight, solid] using split
  have last : ('(' :: (inside ++ [')'])).getLast? = some ')' :=
    List.getLast?_concat (l := '(' :: inside)
  rw [Tree.stripParentheses, whole, last]
  simp

/-- The branch of an `if` carries all that stands in its parentheses, as the tree would give it. -/
theorem conditionOf_heading {front maskFront inside maskInside : List Char}
    (columns : maskFront.length = front.length) (columnsInside : maskInside.length = inside.length)
    (balanced : IsBalanced maskInside) (begins : wordMayBegin maskFront.getLast? = true)
    (back maskBack : List Char) :
    let mask := maskFront ++ ("if (".toList ++ (maskInside ++ ')' :: maskBack))
    let code := front ++ ("if (".toList ++ (inside ++ ')' :: back))
    ∃ found ∈ findAll (headed? ["if"]) mask, found.start = front.length ∧
      conditionOf mask code "condition" found =
        Tree.orElse (Tree.stripParentheses ('(' :: (inside ++ [')']))) "condition" := by
  intro mask code
  have length : 4 = "if".toList.length + [' '].length + 1 := by decide
  have headed : HeadedIn ["if"] mask ⟨"if", front.length, 4, maskFront.getLast?⟩ :=
    ⟨List.mem_cons_self, maskFront, [' '], maskInside ++ ')' :: maskBack, by simp [mask],
      List.all_eq_true.mp (by decide), begins, columns.symm, length, rfl⟩
  refine ⟨_, ((headings_enumerate (areWords_of_all (by decide)) mask).mem_iff _).mpr headed, rfl,
    ?_⟩
  have columnsHeading :
      (maskFront ++ "if ".toList).length = (front ++ "if ".toList).length := by
    rw [List.length_append, List.length_append, columns]
  have cut := condition?_parenthesized columnsHeading columnsInside balanced back maskBack
  have opening : ((Found.mk "if" front.length 4 maskFront.getLast?).stop : Int) - 1 =
      (front ++ "if ".toList).length := by
    simp [Found.stop]
    omega
  rw [conditionOf, opening, stripParentheses_eq, Tree.orElse]
  rw [List.append_assoc, List.append_assoc] at cut
  change condition? mask code _ = _ at cut
  rw [cut]
  split <;> rfl

/-- A line with an `if` outside of literals, whose condition leaves no literal open. -/
theorem ofLine_heading {before inside : List Char}
    (outside : MaskedLine.modeAfter .code before = some .code)
    (terminated : MaskedLine.modeAfter .code inside = some .code) (after : List Char) :
    MaskedLine.ofLine false (before ++ ("if (".toList ++ (inside ++ ')' :: after))) =
      (MaskedLine.ofLine false before).append (.append ⟨"if (".toList, "if (".toList, false⟩
        (.append (.ofLine false inside) ((MaskedLine.ofLine false after).push ')' ')'))) := by
  have closing := MaskedLine.read_single (c := ')') (by decide) (by decide) after
  have heading (rest : List Char) : MaskedLine.read .code ("if (".toList ++ rest) =
      .append ⟨"if (".toList, "if (".toList, false⟩ (.read .code rest) := by
    have letters : "if (".toList = ['i', 'f', ' ', '('] := by decide
    simp only [letters, List.cons_append, List.nil_append]
    iterate 4 rw [MaskedLine.read_single (by decide) (by decide)]
    rfl
  have plain (c : Char) (rest : List Char) (other : c ≠ '/' ∧ c ≠ '*') :
      MaskedLine.StartsPlain (c :: rest) := by
    intro d first
    obtain rfl := Option.some.inj first
    exact other
  have parted := @MaskedLine.read_append .code trivial before
    ("if (".toList ++ (inside ++ ')' :: after)) outside (plain 'i' _ (by decide))
  have partedInside := @MaskedLine.read_append .code trivial inside (')' :: after) terminated
    (plain ')' _ (by decide))
  rw [heading, partedInside, closing] at parted
  exact parted

theorem ofLine_uncommented {before inside after : List Char}
    (outside : MaskedLine.modeAfter .code before = some .code)
    (terminated : MaskedLine.modeAfter .code inside = some .code)
    (uncommented : (MaskedLine.ofLine false
      (before ++ ("if (".toList ++ (inside ++ ')' :: after)))).code =
        before ++ ("if (".toList ++ (inside ++ ')' :: after))) :
    (MaskedLine.ofLine false before).code = before ∧
      (MaskedLine.ofLine false inside).code = inside ∧
      (MaskedLine.ofLine false after).code = after := by
  have bound (text : List Char) : (MaskedLine.ofLine false text).code.length ≤ text.length :=
    (MaskedLine.read_shows .code text).code.1
  have boundBefore := bound before
  have boundInside := bound inside
  have boundAfter := bound after
  rw [ofLine_heading outside terminated] at uncommented
  have lengths := congrArg List.length uncommented
  simp only [MaskedLine.append, MaskedLine.push, List.length_append, List.length_cons] at lengths
  obtain ⟨front, rest⟩ := List.append_inj uncommented (by omega)
  obtain ⟨middle, back⟩ := List.append_inj (List.append_cancel_left rest) (by omega)
  exact ⟨front, middle, (List.cons.inj back).2⟩

theorem trim_heading (front inside back : List Char) :
    trim (front ++ ("if (".toList ++ (inside ++ ')' :: back))) =
      trimLeft front ++ ("if (".toList ++ (inside ++ ')' :: trimRight back)) := by
  have letters : "if (".toList = 'i' :: ['f', ' ', '('] := by decide
  rw [letters, List.cons_append, trim_append_cons (by decide), ← List.append_assoc,
    trimRight_append_cons (by decide), List.append_assoc]
  rfl

theorem wordMayBegin_of_suffix {text part : List Char} (suffix : part <:+ text)
    (begins : wordMayBegin text.getLast? = true) : wordMayBegin part.getLast? = true := by
  cases last : part.getLast? with
  | none => rfl
  | some c =>
      obtain ⟨front, rfl⟩ := suffix
      rw [List.getLast?_append, last] at begins
      exact begins

theorem wordMayBegin_of_liesOver {mask text : List Char} (lies : MaskedLine.LiesOver mask text)
    (columns : mask.length = text.length) (begins : wordMayBegin text.getLast? = true) :
    wordMayBegin mask.getLast? = true := by
  cases last : mask.getLast? with
  | none => rfl
  | some c =>
      rw [List.getLast?_eq_getElem?] at last
      rcases lies.2 _ c last with rfl | same
      · decide
      · rw [columns, ← List.getLast?_eq_getElem?] at same
        rwa [same] at begins

/-- The statements of a line report a branch with this condition for the `if` at a column. -/
def ReportsBranch (dialect : Dialect) (masked : MaskedLine) (number : Int) (column : Nat)
    (condition : String) : Prop :=
  ∃ index : Nat,
    ((findAll (headed? ["if"]) masked.mask)[index]?).map Found.start = some column ∧
    (scan dialect masked.mask masked.code number)[(calls masked.mask number).length + index]? =
      some (.branch condition number [] [])

theorem reportsBranch_of_mem {dialect : Dialect} {masked : MaskedLine} {number : Int}
    {found : Found String} (member : found ∈ findAll (headed? ["if"]) masked.mask) :
    ReportsBranch dialect masked number found.start
      (conditionOf masked.mask masked.code "condition" found) := by
  obtain ⟨index, here⟩ := List.getElem?_of_mem member
  have bound := (List.getElem?_eq_some_iff.mp here).1
  refine ⟨index, by rw [here]; rfl, ?_⟩
  rw [scan, List.append_assoc, List.getElem?_append_right (Nat.le_add_right _ _),
    Nat.add_sub_cancel_left, List.getElem?_append_left (by simpa [branches] using bound), branches,
    List.getElem?_map, here]
  rfl

theorem reportsBranch_heading {masked : MaskedLine}
    {front maskFront inside maskInside back maskBack : List Char}
    (mask : masked.mask = maskFront ++ ("if (".toList ++ (maskInside ++ ')' :: maskBack)))
    (code : masked.code = front ++ ("if (".toList ++ (inside ++ ')' :: back)))
    (columns : maskFront.length = front.length) (columnsInside : maskInside.length = inside.length)
    (balanced : IsBalanced maskInside) (begins : wordMayBegin maskFront.getLast? = true)
    (dialect : Dialect) (number : Int) :
    ReportsBranch dialect masked number front.length
      (Tree.orElse (Tree.stripParentheses ('(' :: (inside ++ [')']))) "condition") := by
  obtain ⟨found, member, start, cut⟩ :=
    conditionOf_heading columns columnsInside balanced begins back maskBack
  rw [← mask] at member cut
  rw [← code] at cut
  rw [← start, ← cut]
  exact reportsBranch_of_mem member

theorem statements_branch {bytes : List UInt8} {node condition : Tree.Node} {below : List Statement}
    (kind : node.kind = "if_statement") (holds : node.child? "condition" = some condition)
    (walked : Tree.statements bytes node = .ok below) :
    ∃ earlier whenTrue whenFalse, below = earlier ++
      [.branch (Tree.orElse (Tree.stripParentheses (condition.chars bytes)) "condition") node.line
        whenTrue whenFalse] := by
  have combined : Tree.combine bytes node (Tree.parts bytes node.children) =
      Tree.branching bytes node (Tree.parts bytes node.children) := by
    simp only [Tree.combine, kind]
  rw [Tree.statements_eq, combined, Tree.branching, Tree.conditionText?_parts, holds] at walked
  cases before : Tree.below (Tree.parts bytes node.children) "condition" with
  | error missing => simp [before, bind, Except.bind] at walked
  | ok earlier =>
      cases onTrue : Tree.below (Tree.parts bytes node.children) "consequence" with
      | error missing => simp [before, onTrue, bind, Except.bind] at walked
      | ok whenTrue =>
          cases onFalse : Tree.below (Tree.parts bytes node.children) "alternative" with
          | error missing => simp [before, onTrue, onFalse, bind, Except.bind] at walked
          | ok whenFalse =>
              simp [before, onTrue, onFalse, bind, Except.bind, pure, Except.pure] at walked
              exact ⟨earlier, whenTrue, whenFalse, walked.symm⟩

/-- Lines and trees agree on conditions. An `if` outside of literals, in a line without comments,
whose condition closes its literals and its parentheses, is reported with the condition that a tree
gives for the same text. -/
theorem conditions_agree (dialect : Dialect) (number : Int) {before inside after : List Char}
    (uncommented : (MaskedLine.ofLine false
      (before ++ ("if (".toList ++ (inside ++ ')' :: after)))).code =
        before ++ ("if (".toList ++ (inside ++ ')' :: after)))
    (outside : MaskedLine.modeAfter .code before = some .code)
    (begins : wordMayBegin before.getLast? = true)
    (terminated : MaskedLine.modeAfter .code inside = some .code)
    (balanced : IsBalanced (MaskedLine.ofLine false inside).mask) :
    let masked :=
      MaskedLine.ofLine false (before ++ ("if (".toList ++ (inside ++ ')' :: after)))
    let condition := Tree.orElse (Tree.stripParentheses ('(' :: (inside ++ [')']))) "condition"
    ReportsBranch dialect masked number before.length condition ∧
      ReportsBranch dialect masked.trimmed number (trimLeft before).length condition ∧
      ∀ (bytes : List UInt8) (node child : Tree.Node) (below : List Statement),
        node.kind = "if_statement" → node.child? "condition" = some child →
        child.chars bytes = '(' :: (inside ++ [')']) → Tree.statements bytes node = .ok below →
        ∃ earlier whenTrue whenFalse,
          below = earlier ++ [.branch condition node.line whenTrue whenFalse] := by
  intro masked condition
  obtain ⟨code, codeInside, codeAfter⟩ := ofLine_uncommented outside terminated uncommented
  have shows := MaskedLine.read_shows .code before
  have showsInside := MaskedLine.read_shows .code inside
  have columns : (MaskedLine.ofLine false before).mask.length = before.length :=
    shows.length.trans (congrArg List.length code)
  have columnsInside : (MaskedLine.ofLine false inside).mask.length = inside.length :=
    showsInside.length.trans (congrArg List.length codeInside)
  have maskBegins : wordMayBegin (MaskedLine.ofLine false before).mask.getLast? = true := by
    have lies : MaskedLine.LiesOver (MaskedLine.ofLine false before).mask before := by
      conv => arg 2; rw [← code]
      exact shows.mask
    exact wordMayBegin_of_liesOver lies columns begins
  have split := ofLine_heading outside terminated after
  have mask : masked.mask = _ := congrArg MaskedLine.mask split
  obtain ⟨indent, maskTrimmed, codeTrimmed⟩ := MaskedLine.exists_indent false before
  refine ⟨?_, ?_, ?_⟩
  · exact reportsBranch_heading mask uncommented columns columnsInside balanced maskBegins _ _
  · have trimmedMask : masked.trimmed.mask = _ := congrArg trim mask
    have trimmedCode : masked.trimmed.code = _ := congrArg trim uncommented
    simp only [MaskedLine.append, MaskedLine.push, trim_heading] at trimmedMask trimmedCode
    refine reportsBranch_heading trimmedMask trimmedCode ?_ columnsInside balanced ?_ _ _
    · rw [code] at codeTrimmed
      rw [maskTrimmed, codeTrimmed, List.length_drop, List.length_drop, columns]
    · exact wordMayBegin_of_suffix (List.dropWhile_suffix isBlank) maskBegins
  · intro bytes node child below kind holds spelled walked
    have branch := statements_branch kind holds walked
    rwa [spelled] at branch

def quotedCondition : List Char :=
  " f(')', \"\\\")\")\t&& (a) ".toList

def quotedFront : List Char :=
  " g(\"if (\") / 2; ".toList

def quotedLine : List Char :=
  quotedFront ++ ("if (".toList ++ (quotedCondition ++ ')' :: "/ h(b)".toList))

def quotedBranch : Tree.Node :=
  { kind := "if_statement", named := true, start := 16, stop := 49, row := 6, field := none,
    children := [
      { kind := "parenthesized_expression", named := true, start := 19, stop := 43, row := 6,
        field := some "condition", children := [] }] }

theorem quotedLine_agrees :
    let condition := "f(')', \"\\\")\") && (a)"
    IsBalanced (MaskedLine.ofLine false quotedCondition).mask ∧
      ReportsBranch .java (MaskedLine.ofLine false quotedLine).trimmed 7 15 condition ∧
      ∃ below, Tree.statements (Utf8.encode quotedLine) quotedBranch = .ok below ∧
        ∃ earlier whenTrue whenFalse,
          below = earlier ++ [.branch condition 7 whenTrue whenFalse] := by
  intro condition
  have balanced : IsBalanced (MaskedLine.ofLine false quotedCondition).mask := by decide +kernel
  have same : Tree.orElse (Tree.stripParentheses ('(' :: (quotedCondition ++ [')']))) "condition" =
      condition := by
    decide +kernel
  obtain ⟨-, reported, agrees⟩ := @conditions_agree .java 7 quotedFront quotedCondition
    "/ h(b)".toList (by decide +kernel) (by decide +kernel) (by decide +kernel)
    (by decide +kernel) balanced
  rw [same] at reported agrees
  have spelled : Utf8.between (Utf8.encode quotedLine) 19 43 =
      '(' :: (quotedCondition ++ [')']) := by
    decide +kernel
  obtain ⟨below, walked⟩ :
      ∃ below, Tree.statements (Utf8.encode quotedLine) quotedBranch = .ok below := ⟨_, rfl⟩
  exact ⟨balanced, reported, below, walked, agrees _ quotedBranch _ below rfl rfl spelled walked⟩

end LineStatements

end MethodFlow
