import MethodFlow.Proofs.Line.Statements
import MethodFlow.Proofs.Text.Masking

/-!
A blank after a colon. A colon outside literals and comments parts the calls of a line in those
before it and those after it (`callees_colon`), and a blank after it changes them in one way only: a
call that stands right after the colon is reported with the blank and not without it.
-/
namespace MethodFlow

namespace MaskedLine

open Text

/-- Whether a line that begins with `left` and a colon shows the colon in its mask and goes on after
it as code does. -/
def ShowsColon (mode : Mode) (left : List Char) : Prop :=
  ∃ front : List Char, front.length = left.length ∧
    ∀ rest, (read mode (left ++ ':' :: rest)).mask = front ++ ':' :: (read .code rest).mask

theorem ShowsColon.append {mode next : Mode} {left : List Char} (shows : ShowsColon next left)
    (first masked : List Char) (same : masked.length = first.length)
    (step : ∀ rest, (read mode (first ++ (left ++ ':' :: rest))).mask =
      masked ++ (read next (left ++ ':' :: rest)).mask) :
    ShowsColon mode (first ++ left) := by
  obtain ⟨front, length, masks⟩ := shows
  refine ⟨masked ++ front, by simp [same, length], fun rest => ?_⟩
  rw [List.append_assoc, step, masks, List.append_assoc]

theorem head?_append_colon {rest more : List Char} {c : Char} (other : c ≠ ':')
    (first : (rest ++ ':' :: more).head? = some c) : rest.head? = some c := by
  cases rest with
  | nil => exact absurd (Option.some.inj first).symm other
  | cons next tail => exact first

theorem showsColon_of_visible {mode : Mode} (proper : mode.IsProper) {left right : List Char}
    (visible : (read mode (left ++ ':' :: right)).mask[left.length]? = some ':') :
    ShowsColon mode left := by
  fun_induction read mode left with
  | case1 mode =>
      cases mode with
      | code =>
          refine ⟨[], rfl, fun rest => ?_⟩
          rw [List.nil_append, read_plain (by simp [IsPlain])]
          rfl
      | comment =>
          rw [List.nil_append, read.eq_3 _ _ (by simp)] at visible
          cases visible
      | literal quote =>
          have inside : ':' ≠ quote := by
            rintro rfl
            cases proper
          rw [List.nil_append, read_inside (by simp) inside] at visible
          cases visible
  | case2 rest ih => exact (ih trivial visible).append ['*', '/'] [' ', ' '] rfl fun _ => rfl
  | case3 c rest unlike ih =>
      have step (more : List Char) : read .comment (c :: rest ++ ':' :: more) =
          (read .comment (rest ++ ':' :: more)).pushBlank := by
        apply read.eq_3
        intro tail star split
        have first : (rest ++ ':' :: more).head? = some '/' := congrArg List.head? split
        have next := head?_append_colon (by decide) first
        obtain ⟨others, rfl⟩ := List.head?_eq_some_iff.mp next
        exact unlike others star rfl
      rw [step] at visible
      exact (ih trivial visible).append [c] [' '] rfl fun more => congrArg mask (step more)
  | case4 quote c rest ih => exact (ih proper visible).append ['\\', c] [' ', ' '] rfl fun _ => rfl
  | case5 quote rest _ ih =>
      have step (more : List Char) := read_closing proper (rest ++ ':' :: more)
      rw [List.cons_append, step] at visible
      exact (ih trivial visible).append [quote] [quote] rfl fun more => congrArg mask (step more)
  | case6 quote c rest escape inside ih =>
      by_cases backslash : c = '\\'
      · subst backslash
        cases rest with
        | cons next tail => exact (escape next tail rfl rfl).elim
        | nil =>
            -- The backslash takes the colon with it.
            cases visible
      · have step (more : List Char) :=
          @read_inside c quote (rest ++ ':' :: more) (fun same => absurd same backslash) inside
        rw [List.cons_append, step] at visible
        exact (ih proper visible).append [c] [' '] rfl fun more => congrArg mask (step more)
  | case7 tail => cases visible
  | case8 rest ih => exact (ih trivial visible).append ['/', '*'] [' ', ' '] rfl fun _ => rfl
  | case9 c rest slash star ih =>
      have step (more : List Char) : read .code (c :: rest ++ ':' :: more) =
          (read (.after c) (rest ++ ':' :: more)).push c c := by
        apply read_plain
        intro first
        obtain ⟨noSlash, noStar⟩ := isPlain_of_unlike slash star first
        exact ⟨fun next => noSlash (head?_append_colon (by decide) next),
          fun next => noStar (head?_append_colon (by decide) next)⟩
      rw [step] at visible
      have shows := ih (Mode.after_isProper c) visible
      exact shows.append [c] [c] rfl fun more => congrArg mask (step more)

theorem ofLine_blank_after_colon {inComment : Bool} {left right : List Char}
    (visible : (ofLine inComment (left ++ ':' :: right)).mask[left.length]? = some ':') :
    ∃ front back : List Char, front.length = left.length ∧
      (ofLine inComment (left ++ ':' :: right)).mask = front ++ ':' :: back ∧
      (ofLine inComment (left ++ ':' :: ' ' :: right)).mask = front ++ ':' :: ' ' :: back := by
  have proper : (if inComment then Mode.comment else .code).IsProper := by
    cases inComment <;> trivial
  obtain ⟨front, length, masks⟩ := showsColon_of_visible proper visible
  refine ⟨front, _, length, masks right, ?_⟩
  rw [ofLine, masks, read_blank (by decide)]
  rfl

end MaskedLine

namespace CallSite

open Text

/-- No call site that begins further left reaches into this text. -/
def OutOfReach (more : List Char) : Prop :=
  ∀ site front taken rest, Spells site (front ++ taken) → more = taken ++ rest → taken = []

theorem outOfReach_colon (text : List Char) : OutOfReach (':' :: text) := by
  intro site front taken rest spells split
  cases taken with
  | nil => rfl
  | cons c taken =>
      obtain ⟨rfl, -⟩ := List.cons.inj split
      obtain ⟨body, same, plain⟩ := spells.parenthesis
      have member : ':' ∈ body ++ ['('] := by simp [← same]
      rcases List.mem_append.mp member with inBody | isOpen
      · exact absurd (plain ':' inBody) (by decide)
      · exact absurd isOpen (by decide)

theorem outOfReach_blanks {blanks : List Char} (blank : ∀ c ∈ blanks, isBlank c = true) :
    OutOfReach blanks := by
  rintro site front taken rest spells rfl
  rcases List.eq_nil_or_concat taken with rfl | ⟨others, c, rfl⟩
  · rfl
  · rw [List.concat_eq_append] at spells blank
    obtain ⟨body, same, -⟩ := spells.parenthesis
    rw [← List.append_assoc] at same
    obtain ⟨-, last⟩ := List.append_inj' same rfl
    obtain rfl := List.head_eq_of_cons_eq last
    exact absurd (blank '(' (by simp)) (by decide)

theorem OutOfReach.reader_append {more : List Char} (apart : OutOfReach more) (before : Option Char)
    (text : List Char) : reader before (text ++ more) = reader before text := by
  ext ⟨site, length⟩
  rw [reader_eq_some_iff, reader_eq_some_iff]
  constructor
  · rintro ⟨spelled, rest, spells, split, length⟩
    rcases List.append_eq_append_iff.mp split with ⟨taken, rfl, same⟩ | ⟨kept, rfl, -⟩
    · obtain rfl := apart _ _ _ _ spells same
      exact ⟨_, [], spells, by simp, length⟩
    · exact ⟨spelled, kept, spells, rfl, length⟩
  · rintro ⟨spelled, rest, spells, rfl, length⟩
    exact ⟨spelled, rest ++ more, spells, List.append_assoc _ _ _, length⟩

theorem reader_bounded (before : Option Char) (text : List Char) (site : CallSite) (length : Nat)
    (read : reader before text = some (site, length)) : length ≤ text.length := by
  obtain ⟨spelled, rest, -, rfl, rfl⟩ := reader_eq_some_iff.mp read
  simp

end CallSite

namespace LineStatements

open Text

def reported? (found : Found CallSite) : Option CallSite :=
  if isCall found then some found.value else none

theorem reported?_still (site : CallSite) (start start' length : Nat) (before : Option Char) :
    reported? ⟨site, start, length, before⟩ = reported? ⟨site, start', length, before⟩ :=
  rfl

def reportedAfter (before : Option Char) (text : List Char) : List CallSite :=
  (findAllFrom CallSite.reader 0 0 before text).filterMap reported?

theorem reportedAfter_append {more : List Char} (apart : CallSite.OutOfReach more)
    (before : Option Char) (text : List Char) :
    reportedAfter before (text ++ more) =
      reportedAfter before text ++ reportedAfter (text.getLast?.or before) more := by
  have split := findAllFrom_append CallSite.reader_bounded
    (fun before c text => apart.reader_append before (c :: text)) before.toList text 0
    (Nat.zero_le _)
  have last : before.toList.getLast? = before := by cases before <;> rfl
  have joined := congrArg (List.filterMap reported?) split
  rw [List.filterMap_append, List.getLast?_append, last, filterMap_findAllFrom reported?_still _ 0,
    filterMap_findAllFrom reported?_still before.toList.length 0,
    filterMap_findAllFrom reported?_still (before.toList ++ text).length 0] at joined
  exact joined

theorem reportedAfter_cons {c : Char} (apart : isIdentifierStart c = false)
    (before : Option Char) (text : List Char) :
    reportedAfter before (c :: text) = reportedAfter (some c) text := by
  have unread : CallSite.reader before (c :: text) = none := by
    rw [Option.eq_none_iff_forall_ne_some]
    rintro ⟨site, length⟩ read
    obtain ⟨spelled, rest, spells, split, -⟩ := CallSite.reader_eq_some_iff.mp read
    obtain ⟨d, more, rfl, start⟩ := spells.begins
    obtain rfl := List.head_eq_of_cons_eq split
    rw [apart] at start
    cases start
  rw [reportedAfter, findAllFrom, unread]
  exact filterMap_findAllFrom reported?_still _ _ _ _ _

theorem reportedAfter_blanks {blanks : List Char} (blank : ∀ c ∈ blanks, isBlank c = true)
    (before : Option Char) : reportedAfter before blanks = [] := by
  induction blanks generalizing before with
  | nil => rfl
  | cons c blanks ih =>
      obtain ⟨first, others⟩ := List.forall_mem_cons.mp blank
      have apart : isIdentifierStart c = false := by
        rw [Bool.eq_false_iff]
        intro start
        rw [isBlank_eq_false_of_part (isIdentifierPart_of_start start)] at first
        cases first
      rw [reportedAfter_cons apart]
      exact ih others _

theorem reportedAfter_trimRight (before : Option Char) (text : List Char) :
    reportedAfter before (trimRight text) = reportedAfter before text := by
  obtain ⟨blanks, blank, split⟩ := exists_trimRight_append text
  have parts := reportedAfter_append (CallSite.outOfReach_blanks blank) before (trimRight text)
  rw [← split, reportedAfter_blanks blank, List.append_nil] at parts
  exact parts.symm

def firstCall? (text : List Char) : Option CallSite :=
  ((CallSite.read? text).map Prod.fst).filter CallSite.isUser

/-- A colon hides the call that stands right after it, and a blank does not. -/
theorem reportedAfter_blank (text : List Char) :
    reportedAfter (some ' ') text = (firstCall? text).toList ++ reportedAfter (some ':') text := by
  cases text with
  | nil => rfl
  | cons c text =>
      rw [reportedAfter, reportedAfter, firstCall?, findAllFrom, findAllFrom, CallSite.reader,
        CallSite.reader]
      cases CallSite.read? (c :: text) with
      | none => rfl
      | some read =>
          obtain ⟨site, rest⟩ := read
          cases user : site.isUser with
          | false => simp [reported?, isCall, user]
          | true => simp [reported?, isCall, user, Option.filter]

theorem reportedAfter_colon (front back : List Char) :
    reportedAfter none (trim (front ++ ':' :: back)) =
      reportedAfter none (trimLeft front) ++ reportedAfter (some ':') back := by
  rw [trim_append_cons (by decide), reportedAfter_append (CallSite.outOfReach_colon _),
    reportedAfter_cons (by decide), reportedAfter_trimRight]

def callee (site : CallSite) : String × Option String :=
  (String.ofList site.name, site.receiver.map String.ofList)

def callee? : Statement → Option (String × Option String)
  | .call name _ receiver => some (name, receiver)
  | _ => none

theorem scan_callees (dialect : Dialect) (mask code : List Char) (number : Int) :
    (scan dialect mask code number).filterMap callee? = (reportedAfter none mask).map callee := by
  have branches : (branches mask code number).filterMap callee? = [] := by
    simp [branches, callee?]
  have loops : (loops dialect mask code number).filterMap callee? = [] := by
    simp [loops, callee?]
  have calls : (calls mask number).filterMap callee? = (reportedAfter none mask).map callee := by
    rw [calls, List.filterMap_map, List.filterMap_filter, reportedAfter, List.map_filterMap]
    refine List.filterMap_congr fun found _ => ?_
    cases called : isCall found <;> simp [reported?, called, callee?, callee]
  rw [scan, List.filterMap_append, List.filterMap_append, calls, branches, loops, List.append_nil,
    List.append_nil]

def calleesIn (dialect : Dialect) (inComment : Bool) (line : List Char) (number : Int) :
    List (String × Option String) :=
  let masked := (MaskedLine.ofLine inComment line).trimmed
  (scan dialect masked.mask masked.code number).filterMap callee?

theorem callees_colon (dialect : Dialect) (inComment : Bool) (number : Int)
    {line front back : List Char}
    (shown : (MaskedLine.ofLine inComment line).mask = front ++ ':' :: back) :
    calleesIn dialect inComment line number =
      (reportedAfter none (trimLeft front)).map callee ++
        (reportedAfter (some ':') back).map callee := by
  rw [calleesIn, scan_callees, MaskedLine.trimmed, shown, reportedAfter_colon, List.map_append]

/-- A blank after a colon of the code adds the call that stands right after the colon, if there is
one of the program's own, and changes no other call of the line. So it changes nothing exactly where
there is no such call. -/
theorem callees_blank_after_colon (dialect : Dialect) (inComment : Bool) (number : Int)
    {left right : List Char}
    (visible : (MaskedLine.ofLine inComment (left ++ ':' :: right)).mask[left.length]? =
      some ':') :
    let hidden? := firstCall?
      ((MaskedLine.ofLine inComment (left ++ ':' :: right)).mask.drop (left.length + 1))
    (∃ earlier later,
      calleesIn dialect inComment (left ++ ':' :: right) number = earlier ++ later ∧
      calleesIn dialect inComment (left ++ ':' :: ' ' :: right) number =
        earlier ++ (hidden?.toList.map callee ++ later)) ∧
    (calleesIn dialect inComment (left ++ ':' :: ' ' :: right) number =
      calleesIn dialect inComment (left ++ ':' :: right) number ↔ hidden? = none) := by
  obtain ⟨front, back, length, shown, spaced⟩ := MaskedLine.ofLine_blank_after_colon visible
  have after : (front ++ ':' :: back).drop (left.length + 1) = back := by
    rw [← length, List.append_cons, List.drop_append_of_le_length (by simp)]
    simp
  have without := callees_colon dialect inComment number shown
  have withBlank := callees_colon dialect inComment number spaced
  rw [reportedAfter_cons (by decide), reportedAfter_blank, List.map_append] at withBlank
  rw [shown, after]
  refine ⟨⟨_, _, without, withBlank⟩, ?_⟩
  rw [without, withBlank, List.append_cancel_left_eq, List.append_left_eq_self, List.map_eq_nil_iff]
  exact Option.toList_eq_nil_iff

/-- What stands right after this colon is no call, and the calls further right are reported with and
without a blank. -/
theorem case_blank_after_colon :
    let left := "case 1".toList
    let right := "if (ready()) run()".toList
    (MaskedLine.ofLine false (left ++ ':' :: right)).mask[left.length]? = some ':' ∧
    calleesIn .java false (left ++ ':' :: ' ' :: right) 1 =
      calleesIn .java false (left ++ ':' :: right) 1 ∧
    calleesIn .java false (left ++ ':' :: right) 1 = [("ready", none), ("run", none)] := by
  intro left right
  have visible :
      (MaskedLine.ofLine false (left ++ ':' :: right)).mask[left.length]? = some ':' := by
    decide
  have unchanged := (callees_blank_after_colon .java false 1 visible).2.mpr (by decide +kernel)
  exact ⟨visible, unchanged, by decide +kernel⟩

/-- The second call of this line is reported after a blank only. -/
theorem choice_call_hidden :
    let left := "c ? a() ".toList
    let right := "b()".toList
    (MaskedLine.ofLine false (left ++ ':' :: right)).mask[left.length]? = some ':' ∧
    left.getLast? ≠ some ':' ∧ right.head? ≠ some ':' ∧
    calleesIn .java false (left ++ ':' :: right) 1 = [("a", none)] ∧
    calleesIn .java false (left ++ ':' :: ' ' :: right) 1 = [("a", none), ("b", none)] := by
  decide +kernel

end LineStatements

end MethodFlow
