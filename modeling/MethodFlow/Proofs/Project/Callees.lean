import MethodFlow.Proofs.Line.Statements
import MethodFlow.Proofs.Project.Entries

/-!
Declared names and called names. A name is declared by any word characters, but it is called by its
letters from the first Latin one or underscore on (`scan_bareCall_iff`). Whatever is called by the
name of a declared method goes to a declared method of that name (`callee?_declared`).
-/
namespace MethodFlow

open Text

namespace LineStatements

def bareCall (name : List Char) : List Char :=
  name ++ ['(', ')']

section BareCall

variable {name : List Char} (letters : ∀ c ∈ name, isWord c = true)

include letters

theorem bareCall_split {left right : List Char} (split : bareCall name = left ++ '(' :: right) :
    name = left ∧ right = [')'] := by
  have apart : '(' ∉ name := fun member => absurd (letters _ member) (by decide)
  obtain ⟨same, -, rest⟩ := (List.append_cons_inj_of_notMem apart (by decide)).mp split
  exact ⟨same, rest.symm⟩

theorem headings_bareCall {words : List String} (proper : AreWords words)
    (other : String.ofList name ∉ words) : findAll (headed? words) (bareCall name) = [] := by
  rw [List.eq_nil_iff_forall_not_mem]
  intro found member
  obtain ⟨known, left, blanks, right, split, blank, begins, -, -, -⟩ :=
    ((headings_enumerate proper (bareCall name)).mem_iff found).mp member
  rw [← List.append_assoc, ← List.append_assoc] at split
  obtain ⟨rfl, -⟩ := bareCall_split letters split
  have noBlanks : blanks = [] := by
    rw [List.eq_nil_iff_forall_not_mem]
    intro c inBlanks
    have solid := isBlank_eq_false_of_isWord (letters c (by simp [inBlanks]))
    rw [blank c inBlanks] at solid
    cases solid
  have alone : left = [] := by
    cases last : left.getLast? with
    | none => exact List.getLast?_eq_none_iff.mp last
    | some c =>
        have word := letters c (by simp [List.mem_of_getLast? last])
        simp [wordMayBegin, last, word] at begins
  apply other
  simpa [noBlanks, alone] using known

theorem sites_bareCall (identifier : CallSite.IsIdentifier name) :
    CallSite.findAll (bareCall name) = [⟨⟨none, name⟩, 0, name.length + 1, none⟩] := by
  have stands := CallSite.standsIn_plain [] [')'] identifier (List.forall_mem_nil _)
  have first : ⟨⟨none, name⟩, 0, name.length + 1, none⟩ ∈ CallSite.findAll (bareCall name) :=
    CallSite.mem_findAll_iff.mpr ⟨stands, fun _ _ _ => Nat.zero_le _⟩
  have only : ∀ found ∈ CallSite.findAll (bareCall name),
      found = ⟨⟨none, name⟩, 0, name.length + 1, none⟩ := by
    intro found member
    apply CallSite.eq_of_stop first member
    obtain ⟨left, lead, blanks, right, split, stop, -⟩ := CallSite.namedBefore_of_mem member
    rw [← List.append_assoc, ← List.append_assoc, ← List.append_assoc] at split
    have lengths := congrArg List.length (bareCall_split letters split).1
    simp only [List.length_append] at lengths
    rw [stop]
    change _ = 0 + (name.length + 1)
    omega
  have ordered := CallSite.stops_sorted (bareCall name)
  cases found : CallSite.findAll (bareCall name) with
  | nil => simp [found] at first
  | cons site sites =>
      rw [found] at only ordered
      obtain rfl := only site List.mem_cons_self
      cases sites with
      | nil => rfl
      | cons next sites =>
          obtain rfl := only next (by simp)
          simp at ordered

/-- A call of a name that is no keyword and not the platform's is reported by that name if it begins
with a Latin letter or an underscore, and else it is not. -/
theorem scan_bareCall_iff (ordinary : name ∉ CallSite.keywords.map String.toList)
    (own : CallSite.isFrameworkName name = false) (dialect : Dialect) (line : Int) :
    scan dialect (bareCall name) (bareCall name) line = [.call (String.ofList name) line none] ↔
      ∃ c, name.head? = some c ∧ (c.isAlpha = true ∨ c = '_') := by
  have unknown {words : List String} (known : words ⊆ CallSite.keywords) :
      String.ofList name ∉ words := fun member =>
    ordinary (List.mem_map.mpr ⟨_, known member, String.toList_ofList⟩)
  constructor
  · intro reported
    have member : Statement.call (String.ofList name) line none ∈
        scan dialect (bareCall name) (bareCall name) line := by
      rw [reported]
      exact List.mem_cons_self
    obtain ⟨found, inMask, called⟩ : ∃ found ∈ CallSite.findAll (bareCall name),
        found.value.name = name := by
      simp only [scan, calls, branches, loops, List.mem_append, List.mem_map, List.mem_filter,
        reduceCtorEq, and_false, exists_false, or_false, Statement.call.injEq,
        String.ofList_inj] at member
      obtain ⟨found, ⟨inMask, -⟩, called, -⟩ := member
      exact ⟨found, inMask, called⟩
    obtain ⟨-, -, -, -, -, -, -, -, identifier, -⟩ := CallSite.namedBefore_of_mem inMask
    rw [called] at identifier
    obtain ⟨c, rest, rfl, start, -⟩ := identifier
    refine ⟨c, rfl, ?_⟩
    have word := letters c List.mem_cons_self
    simp only [isIdentifierStart, Bool.or_eq_true, beq_iff_eq] at start
    refine start.resolve_right ?_
    rintro rfl
    exact absurd word (by decide)
  · rintro ⟨c, first, begins⟩
    have identifier : CallSite.IsIdentifier name := by
      obtain ⟨rest, rfl⟩ := List.head?_eq_some_iff.mp first
      refine ⟨c, rest, rfl, ?_, fun d member => ?_⟩
      · rcases begins with letter | rfl
        · simp [isIdentifierStart, letter]
        · decide
      · simp [isIdentifierPart, letters d (List.mem_cons_of_mem _ member)]
    have user : CallSite.isUser ⟨none, name⟩ = true := by
      simpa [CallSite.isUser, CallSite.isFramework, own] using ordinary
    have noBranch := headings_bareCall letters (areWords_of_all (by decide))
      (unknown (show ["if"] ⊆ CallSite.keywords by decide))
    have noLoop := headings_bareCall letters (areWords_of_all (by decide))
      (unknown (show ["for", "while", "do"] ⊆ CallSite.keywords by decide))
    rw [scan, calls, branches, loops, sites_bareCall letters identifier, noBranch, noLoop]
    simp [isCall, user]

end BareCall

end LineStatements

namespace FunctionMap

theorem dot_not_mem {name : String} (letters : Header.isName name = true) : '.' ∉ name.toList :=
  fun member => absurd (List.all_eq_true.mp letters _ member) (by decide)

theorem name_of_namesMethod {method : Method} {name : String}
    (letters : Header.isName name = true) (own : Header.isName method.name = true)
    (names : namesMethod name method.fullName = true) : method.name = name := by
  obtain ⟨front, split⟩ := List.isSuffixOf_iff_suffix.mp names
  have full : method.fullName.toList = method.className.toList ++ '.' :: method.name.toList := by
    simp [Method.fullName]
  rw [full] at split
  -- A dot further left or right would stand in one of the two names.
  have alike {right dotless more : List Char} (apart : '.' ∉ dotless)
      (same : '.' :: dotless = more ++ '.' :: right) : dotless = right := by
    cases more with
    | nil => exact (List.cons.inj same).2
    | cons c more =>
        have member : '.' ∈ dotless := by
          rw [(List.cons.inj same).2]
          simp
        exact (apart member).elim
  rcases List.append_eq_append_iff.mp split with ⟨more, -, same⟩ | ⟨more, -, same⟩
  · exact (String.toList_inj.mp (alike (dot_not_mem letters) same)).symm
  · exact String.toList_inj.mp (alike (dot_not_mem own) same)

theorem callee?_declared {classes : List ClassDecl}
    (named : ∀ method ∈ methodsOf classes, Header.isName method.name = true) {method : Method}
    (member : method ∈ methodsOf classes) :
    ∃ target ∈ methodsOf classes,
      (ofClasses classes).callee? method.name = some target.fullName ∧
        target.name = method.name := by
  have listed : method.fullName ∈ (ofClasses classes).keys :=
    (mem_keys_ofClasses classes _).mpr ⟨method, member, rfl⟩
  have names : namesMethod method.name method.fullName = true := by
    rw [namesMethod, List.isSuffixOf_iff_suffix]
    exact ⟨method.className.toList, by simp [Method.fullName]⟩
  have some : ((ofClasses classes).keys.find? (namesMethod method.name)).isSome = true :=
    List.find?_isSome.mpr ⟨_, listed, names⟩
  obtain ⟨key, found⟩ := Option.isSome_iff_exists.mp some
  obtain ⟨target, declared, rfl⟩ :=
    (mem_keys_ofClasses classes key).mp (List.mem_of_find?_eq_some found)
  refine ⟨target, declared, ?_, ?_⟩
  · rw [callee?, found]
    rfl
  · exact name_of_namesMethod (named method member) (named target declared)
      (List.find?_some found)

end FunctionMap

namespace Project

/-- Methods are called as they are declared, if their names begin with a Latin letter or an
underscore: a call of any other name is not reported by that name. What is reported by the name of a
declared method goes to a declared method of that name. -/
theorem declared_call_iff (sources : List Source) :
    ∃ project, ofSources .lines sources = .ok project ∧
      (∀ (dialect : Dialect) (line : Int) (name : List Char), (∀ c ∈ name, isWord c = true) →
        name ∉ CallSite.keywords.map String.toList → CallSite.isFrameworkName name = false →
        (LineStatements.scan dialect (name ++ ['(', ')']) (name ++ ['(', ')']) line =
            [.call (String.ofList name) line none] ↔
          ∃ c, name.head? = some c ∧ (c.isAlpha = true ∨ c = '_'))) ∧
      ∀ method ∈ FunctionMap.methodsOf project.classes,
        ∃ target ∈ FunctionMap.methodsOf project.classes,
          project.functions.callee? method.name = some target.fullName ∧
            target.name = method.name := by
  refine ⟨_, ofSources_lines sources, ?_, ?_⟩
  · intro dialect line name letters ordinary own
    exact LineStatements.scan_bareCall_iff letters ordinary own dialect line
  · intro method member
    apply FunctionMap.callee?_declared _ member
    intro other declared
    exact (scannedClasses_flat sources other declared).name

def accentedSource : Source :=
  { path := "Seasons.java"
    text := String.ofList (Scan.braced
      "class Seasons ⟨\nvoid _été() ⟨ été(); ⟩\nvoid été() ⟨ _été(); ⟩\n⟩")
    dialect := none }

theorem underscored_called :
    (∀ c ∈ "_été".toList, isWord c = true) ∧
      "_été".toList ∉ CallSite.keywords.map String.toList ∧
      CallSite.isFrameworkName "_été".toList = false ∧
      ∃ project, ofSources .lines [accentedSource] = .ok project ∧
        LineStatements.scan .java ("_été".toList ++ ['(', ')']) ("_été".toList ++ ['(', ')']) 1 =
          [.call "_été" 1 none] ∧
        ∃ method ∈ FunctionMap.methodsOf project.classes, method.name = "_été" ∧
          ∃ target ∈ FunctionMap.methodsOf project.classes,
            project.functions.callee? method.name = some target.fullName ∧
              target.name = method.name := by
  have letters : ∀ c ∈ "_été".toList, isWord c = true := List.all_eq_true.mp (by decide +kernel)
  have ordinary : "_été".toList ∉ CallSite.keywords.map String.toList := by decide +kernel
  have own : CallSite.isFrameworkName "_été".toList = false := by decide +kernel
  obtain ⟨project, analysed, called, resolved⟩ := declared_call_iff [accentedSource]
  have declared : ∃ method ∈ FunctionMap.methodsOf project.classes, method.name = "_été" := by
    obtain rfl := Except.ok.inj ((ofSources_lines [accentedSource]).symm.trans analysed)
    decide +kernel
  obtain ⟨method, member, name⟩ := declared
  have reported := (called .java 1 _ letters ordinary own).mpr ⟨'_', by decide +kernel, .inr rfl⟩
  exact ⟨letters, ordinary, own, project, analysed, reported, method, member, name,
    resolved method member⟩

/-- The call of a declared method goes nowhere: it is reported without its first letter. -/
theorem accented_call_lost :
    (∀ c ∈ "été".toList, isWord c = true) ∧
      "été".toList ∉ CallSite.keywords.map String.toList ∧
      CallSite.isFrameworkName "été".toList = false ∧
      LineStatements.scan .java "été()".toList "été()".toList 1 = [.call "té" 1 none] ∧
      ∃ project, ofSources .lines [accentedSource] = .ok project ∧
        (∃ method ∈ FunctionMap.methodsOf project.classes, method.name = "été") ∧
        project.functions.callee? "té" = none := by
  refine ⟨List.all_eq_true.mp ?_, ?_, ?_, rfl, _, ofSources_lines [accentedSource], ?_, ?_⟩
  all_goals decide +kernel

end Project

end MethodFlow
