import MethodFlow.FunctionMap
import MethodFlow.Scan.Feed
import Mathlib.Data.List.Perm.Basic

/-!
Classes and methods in the order of their source: each declaration on a line of its own, and between
the lines of two methods no statement of the one on the wrong side of the other.
-/
namespace MethodFlow

def Statement.line? : Statement → Option Int
  | .call _ line _ => some line
  | .branch _ line _ _ => some line
  | .loop _ _ line _ => some line
  | .unsupported _ => none

namespace Scan.Line

theorem line?_of_mem_statements {dialect : Dialect} {line : Line} {statement : Statement}
    (member : statement ∈ line.statements dialect) : statement.line? = some line.number := by
  simp only [statements, LineStatements.scan, LineStatements.calls, LineStatements.branches,
    LineStatements.loops, List.mem_append, List.mem_map] at member
  rcases member with (⟨_, _, rfl⟩ | ⟨_, _, rfl⟩) | ⟨_, _, rfl⟩ <;> rfl

def IsPartOf (source : List Line) (part : Line) : Prop :=
  ∃ line ∈ source, ∃ count, part = line.drop count

end Scan.Line

namespace Method

def statementLines (method : Method) : List Int :=
  method.statements.filterMap Statement.line?

/-- A method begins before the line `fresh`, and its statements are those of some lines of the source
before `unread`, each line once and from its own line on. -/
structure IsRecorded (dialect : Dialect) (source : List Scan.Line) (fresh unread : Int)
    (method : Method) : Prop where
  line : method.line < fresh
  statements : ∃ parts : List Scan.Line,
    parts.Pairwise (fun part later => part.number < later.number) ∧
    (∀ part ∈ parts, part.IsPartOf source ∧ method.line ≤ part.number ∧ part.number < unread) ∧
    method.statements = parts.flatMap (Scan.Line.statements dialect)

structure EndsBefore (method : Method) (limit : Int) : Prop where
  line : method.line < limit
  statements : ∀ number ∈ method.statementLines, number < limit

/-- One of two methods ends before the other begins. -/
def Apart (method other : Method) : Prop :=
  method.EndsBefore other.line ∨ other.EndsBefore method.line

theorem Apart.symm {method other : Method} (apart : method.Apart other) : other.Apart method :=
  Or.symm apart

section Recorded

variable {dialect : Dialect} {source : List Scan.Line} {fresh unread fresh' unread' : Int}
  {method : Method}

theorem IsRecorded.mono (recorded : method.IsRecorded dialect source fresh unread)
    (later : fresh ≤ fresh') (laterUnread : unread ≤ unread') :
    method.IsRecorded dialect source fresh' unread' := by
  obtain ⟨parts, increasing, inside, statements⟩ := recorded.statements
  refine ⟨Int.lt_of_lt_of_le recorded.line later, parts, increasing, ?_, statements⟩
  intro part member
  obtain ⟨isPart, notBefore, before⟩ := inside part member
  exact ⟨isPart, notBefore, Int.lt_of_lt_of_le before laterUnread⟩

theorem IsRecorded.grow {grown : Method} {line : Scan.Line}
    (recorded : method.IsRecorded dialect source fresh unread) (same : grown.line = method.line)
    (listed : line ∈ source) (notBefore : method.line ≤ line.number) (read : unread ≤ line.number)
    (statements : grown.statements = method.statements ∨ ∃ count,
      grown.statements = method.statements ++ (line.drop count).statements dialect) :
    grown.IsRecorded dialect source fresh (line.number + 1) := by
  obtain ⟨parts, increasing, inside, old⟩ := recorded.statements
  have earlier : ∀ part ∈ parts, part.number < line.number := fun part member =>
    Int.lt_of_lt_of_le (inside part member).2.2 read
  have kept : ∀ part ∈ parts,
      part.IsPartOf source ∧ grown.line ≤ part.number ∧ part.number < line.number + 1 := by
    intro part member
    obtain ⟨isPart, notBefore, -⟩ := inside part member
    exact ⟨isPart, same ▸ notBefore, Int.lt_trans (earlier part member) (Int.lt_succ _)⟩
  refine ⟨same ▸ recorded.line, ?_⟩
  rcases statements with unchanged | ⟨count, added⟩
  · exact ⟨parts, increasing, kept, unchanged.trans old⟩
  · refine ⟨parts ++ [line.drop count], ?_, ?_, ?_⟩
    · rw [List.pairwise_append]
      refine ⟨increasing, List.pairwise_singleton _ _, ?_⟩
      intro part member last isLast
      obtain rfl := List.mem_singleton.mp isLast
      exact earlier part member
    · intro part member
      rcases List.mem_append.mp member with before | last
      · exact kept part before
      · obtain rfl := List.mem_singleton.mp last
        exact ⟨⟨line, listed, count, rfl⟩, same ▸ notBefore, Int.lt_succ _⟩
    · rw [added, old, List.flatMap_append, List.flatMap_singleton]

theorem IsRecorded.map_line? (recorded : method.IsRecorded dialect source fresh unread) :
    method.statements.map Statement.line? = method.statementLines.map some := by
  obtain ⟨parts, -, -, statements⟩ := recorded.statements
  have lined : ∀ statement ∈ method.statements, ∃ number, statement.line? = some number := by
    intro statement member
    rw [statements] at member
    obtain ⟨part, -, inPart⟩ := List.mem_flatMap.mp member
    exact ⟨part.number, Scan.Line.line?_of_mem_statements inPart⟩
  rw [statementLines]
  clear statements
  generalize method.statements = statements at lined ⊢
  induction statements with
  | nil => rfl
  | cons statement rest ih =>
      obtain ⟨number, line⟩ := lined statement List.mem_cons_self
      have restLined := ih fun other member => lined other (List.mem_cons_of_mem _ member)
      rw [List.map_cons, List.filterMap_cons, line, restLined]
      rfl

theorem IsRecorded.mem_statementLines (recorded : method.IsRecorded dialect source fresh unread) :
    ∀ number ∈ method.statementLines, method.line ≤ number ∧ number < unread := by
  obtain ⟨parts, -, inside, statements⟩ := recorded.statements
  intro number member
  rw [statementLines, statements, List.mem_filterMap] at member
  obtain ⟨statement, found, line⟩ := member
  obtain ⟨part, partMember, inPart⟩ := List.mem_flatMap.mp found
  have same := Scan.Line.line?_of_mem_statements inPart
  rw [line, Option.some.injEq] at same
  rw [same]
  exact (inside part partMember).2

theorem IsRecorded.statementLines_sorted
    (recorded : method.IsRecorded dialect source fresh unread) :
    method.statementLines.Pairwise (· ≤ ·) := by
  obtain ⟨parts, increasing, -, statements⟩ := recorded.statements
  have lines (part : Scan.Line) :
      ∀ number ∈ (part.statements dialect).filterMap Statement.line?, number = part.number := by
    intro number member
    obtain ⟨statement, inPart, line⟩ := List.mem_filterMap.mp member
    have same := Scan.Line.line?_of_mem_statements inPart
    rw [line, Option.some.injEq] at same
    exact same
  rw [statementLines, statements, List.filterMap_flatMap, List.pairwise_flatMap]
  constructor
  · intro part _
    rw [List.eq_replicate_of_mem (lines part)]
    exact List.pairwise_replicate.mpr (.inr (Int.le_refl _))
  · refine increasing.imp ?_
    intro part later before number member other otherMember
    rw [lines part number member, lines later other otherMember]
    exact Int.le_of_lt before

theorem IsRecorded.endsBefore (recorded : method.IsRecorded dialect source fresh unread)
    {limit : Int} (declared : fresh ≤ limit) (read : unread ≤ limit) :
    method.EndsBefore limit := by
  refine ⟨Int.lt_of_lt_of_le recorded.line declared, fun number member => ?_⟩
  exact Int.lt_of_lt_of_le (recorded.mem_statementLines number member).2 read

end Recorded

end Method

/-- The methods of a class belong to it, stand below its own line and follow each other. -/
structure ClassDecl.IsOrdered (cls : ClassDecl) : Prop where
  members : ∀ method ∈ cls.methods, method.className = cls.name ∧ cls.line < method.line
  increasing : (cls.methods.map Method.line).Pairwise (· < ·)

theorem ClassDecl.IsOrdered.grow {cls changed : ClassDecl} {added : Option Method}
    (ordered : cls.IsOrdered) (name : changed.name = cls.name) (line : changed.line = cls.line)
    (methods : changed.methods = cls.methods ++ added.toList)
    (belongs : ∀ method ∈ added, method.className = cls.name ∧ cls.line < method.line)
    (last : ∀ method ∈ added, ∀ sibling ∈ cls.methods, sibling.line < method.line) :
    changed.IsOrdered := by
  constructor
  · intro method member
    rw [methods, List.mem_append, Option.mem_toList] at member
    rw [name, line]
    rcases member with old | new
    · exact ordered.members method old
    · exact belongs method new
  · rw [methods, List.map_append, List.pairwise_append]
    refine ⟨ordered.increasing, ?_, ?_⟩
    · cases added <;> simp
    · intro line member other new
      obtain ⟨sibling, found, rfl⟩ := List.mem_map.mp member
      obtain ⟨method, isNew, rfl⟩ := List.mem_map.mp new
      exact last method (Option.mem_toList.mp isNew) sibling found

/-- Classes in the order of their source, with declarations before the line `fresh` and statements
before the line `unread`. -/
structure Arranged (dialect : Dialect) (source : List Scan.Line) (fresh unread : Int)
    (classes : List ClassDecl) : Prop where
  increasing : (classes.map ClassDecl.line).Pairwise (· < ·)
  before : ∀ cls ∈ classes, cls.line < fresh
  ordered : ∀ cls ∈ classes, cls.IsOrdered
  recorded : ∀ method ∈ FunctionMap.methodsOf classes,
    method.IsRecorded dialect source fresh unread
  apart : (FunctionMap.methodsOf classes).Pairwise Method.Apart

theorem methodsOf_replace {before after : List ClassDecl} {cls changed : ClassDecl}
    {added : List Method} (methods : changed.methods = cls.methods ++ added) :
    (FunctionMap.methodsOf (before ++ changed :: after)).Perm
      (FunctionMap.methodsOf (before ++ cls :: after) ++ added) := by
  simp only [FunctionMap.methodsOf, List.flatMap_append, List.flatMap_cons, methods,
    List.append_assoc]
  exact (List.perm_append_comm.append_left cls.methods).append_left _

namespace Arranged

variable {dialect : Dialect} {source : List Scan.Line} {fresh unread fresh' unread' : Int}
  {classes : List ClassDecl}

theorem mono (arranged : Arranged dialect source fresh unread classes) (later : fresh ≤ fresh')
    (laterUnread : unread ≤ unread') : Arranged dialect source fresh' unread' classes where
  increasing := arranged.increasing
  before := fun cls member => Int.lt_of_lt_of_le (arranged.before cls member) later
  ordered := arranged.ordered
  recorded := fun method member => (arranged.recorded method member).mono later laterUnread
  apart := arranged.apart

theorem append (arranged : Arranged dialect source fresh unread classes) {cls : ClassDecl}
    (bare : cls.methods = []) (later : fresh ≤ cls.line) :
    Arranged dialect source (cls.line + 1) unread (classes ++ [cls]) := by
  have same : FunctionMap.methodsOf (classes ++ [cls]) = FunctionMap.methodsOf classes := by
    simp [FunctionMap.methodsOf, bare]
  have grown : Arranged dialect source (cls.line + 1) unread classes :=
    arranged.mono (by omega) (Int.le_refl unread)
  refine ⟨?_, ?_, ?_, ?_, ?_⟩
  · rw [List.map_append, List.pairwise_append]
    refine ⟨arranged.increasing, List.pairwise_singleton _ _, ?_⟩
    intro line member other last
    obtain ⟨earlier, found, rfl⟩ := List.mem_map.mp member
    obtain rfl := List.mem_singleton.mp last
    exact Int.lt_of_lt_of_le (arranged.before earlier found) later
  · intro other member
    rcases List.mem_append.mp member with old | new
    · exact grown.before other old
    · obtain rfl := List.mem_singleton.mp new
      exact Int.lt_succ other.line
  · intro other member
    rcases List.mem_append.mp member with old | new
    · exact arranged.ordered other old
    · obtain rfl := List.mem_singleton.mp new
      exact ⟨by simp [bare], by simp [bare]⟩
  · rw [same]
    exact grown.recorded
  · rw [same]
    exact arranged.apart

theorem replace {before after : List ClassDecl} {cls changed : ClassDecl} {added : Option Method}
    (arranged : Arranged dialect source fresh unread (before ++ cls :: after))
    (name : changed.name = cls.name) (line : changed.line = cls.line)
    (methods : changed.methods = cls.methods ++ added.toList)
    (belongs : ∀ method ∈ added, method.className = cls.name ∧ cls.line < method.line)
    (recorded : ∀ method ∈ added, method.IsRecorded dialect source fresh unread)
    (last : ∀ method ∈ added, ∀ other ∈ FunctionMap.methodsOf (before ++ cls :: after),
      other.EndsBefore method.line) :
    Arranged dialect source fresh unread (before ++ changed :: after) := by
  have sameMethods : (FunctionMap.methodsOf (before ++ changed :: after)).Perm
      (FunctionMap.methodsOf (before ++ cls :: after) ++ added.toList) := methodsOf_replace methods
  have place : cls ∈ before ++ cls :: after := by simp
  refine ⟨?_, ?_, ?_, ?_, ?_⟩
  · have increasing := arranged.increasing
    rw [List.map_append, List.map_cons] at increasing ⊢
    rwa [line]
  · intro other member
    rw [List.mem_append, List.mem_cons] at member
    rcases member with early | rfl | late
    · exact arranged.before other (by simp [early])
    · rw [line]
      exact arranged.before cls place
    · exact arranged.before other (by simp [late])
  · intro other member
    rw [List.mem_append, List.mem_cons] at member
    rcases member with early | rfl | late
    · exact arranged.ordered other (by simp [early])
    · refine (arranged.ordered cls place).grow name line methods belongs fun method new => ?_
      intro sibling member
      have listed : sibling ∈ FunctionMap.methodsOf (before ++ cls :: after) :=
        List.mem_flatMap.mpr ⟨cls, place, member⟩
      exact (last method new sibling listed).line
    · exact arranged.ordered other (by simp [late])
  · intro method member
    rcases List.mem_append.mp (sameMethods.mem_iff.mp member) with old | new
    · exact arranged.recorded method old
    · exact recorded method (Option.mem_toList.mp new)
  · rw [sameMethods.pairwise_iff fun apart => apart.symm, List.pairwise_append]
    refine ⟨arranged.apart, ?_, ?_⟩
    · cases added <;> simp
    · intro other old method new
      exact .inl (last method (Option.mem_toList.mp new) other old)

theorem withPackage (arranged : Arranged dialect source fresh unread classes)
    (package : Option String) :
    Arranged dialect source fresh unread (classes.map fun cls => { cls with package }) := by
  have methods : FunctionMap.methodsOf (classes.map fun cls => { cls with package }) =
      FunctionMap.methodsOf classes := by
    rw [FunctionMap.methodsOf, List.flatMap_map]
    rfl
  refine ⟨?_, ?_, ?_, ?_, ?_⟩
  · rw [List.map_map]
    exact arranged.increasing
  · exact List.forall_mem_map.mpr arranged.before
  · refine List.forall_mem_map.mpr fun cls member => ?_
    have ordered := arranged.ordered cls member
    exact ⟨ordered.members, ordered.increasing⟩
  · rw [methods]
    exact arranged.recorded
  · rw [methods]
    exact arranged.apart

end Arranged
end MethodFlow
