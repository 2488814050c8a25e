import MethodFlow.Proofs.CommandLine.Settings
import MethodFlow.Proofs.Project.Entries
import MethodFlow.Proofs.Tree.Totality

/-!
How commands end: with 2 if and only if they are refused for a reason that the user can mend, and
with 0 otherwise. No fault is met, as long as the trees that a grammar gives have conditions at
their branches.
-/
namespace MethodFlow

def Grammar.IsConditioned (grammar : Grammar) : Prop :=
  ∀ text, (grammar text).IsConditioned

namespace Project

/-- A project all of whose methods can be traced and printed. -/
structure IsTraceable (project : Project) : Prop where
  classes : ∀ cls ∈ project.classes, cls.IsSupported
  functions : project.functions.isSupported = true
  named : "" ∉ project.listing.allMethods

theorem ofClasses_traceable {classes : List ClassDecl}
    (supported : ∀ cls ∈ classes, cls.IsSupported) : (ofClasses classes).IsTraceable where
  classes := supported
  functions := by
    rw [FunctionMap.isSupported, List.all_eq_true]
    intro entry member
    obtain ⟨method, found, rfl⟩ := FunctionMap.mem_ofClasses member
    obtain ⟨cls, listed, inClass⟩ := List.mem_flatMap.mp found
    exact supported cls listed method inClass
  named := ofClasses_named classes

end Project

namespace Extractor

/-- That the trees that are read have conditions at their branches. -/
def IsConditioned : Extractor → Prop
  | .lines => True
  | .tree grammar => grammar.IsConditioned

variable {extractor : Extractor} (conditioned : extractor.IsConditioned)

include conditioned

theorem extract_yields (source : Source) :
    Yields (∀ cls ∈ ·, ClassDecl.IsSupported cls) (extractor.extract source) := by
  unfold extract
  cases found : extractor.grammarFor? source with
  | none =>
      refine .ok fun cls listed method inClass => Statement.areSupported_of_flat ?_
      have flat := Scan.extract_flat source.resolvedDialect (some source.path) source.text method
        (List.mem_flatMap.mpr ⟨cls, listed, inClass⟩)
      exact flat.statements
  | some grammar =>
      unfold grammarFor? at found
      split at found
      · obtain rfl := Option.some.inj found
        exact Tree.extract_yields _ _ (conditioned source.text)
      · nomatch found

theorem ofSources_yields (sources : List Source) :
    Yields Project.IsTraceable (Project.ofSources extractor sources) := by
  apply (Yields.mapM fun source _ => extract_yields conditioned source).bind
  intro found supported
  refine .ok (Project.ofClasses_traceable fun cls member => ?_)
  obtain ⟨classes, listed, inClasses⟩ := List.mem_flatten.mp member
  exact supported classes listed cls inClasses

theorem ofVisit_yields (visit : FileTree.Visit) :
    Yields (fun _ => True) (LogRecord.ofVisit extractor visit) := by
  cases visit with
  | source source => exact (extract_yields conditioned source).map fun _ _ => trivial
  | unreadable path => exact .ok trivial

end Extractor

namespace Command

def LacksFolder (world : World) (options : Options) : Prop :=
  ∃ path, given options.path = some path ∧ world.files.folder? path = none

def LacksEntry (options : Options) (functions : FunctionMap) : Prop :=
  ∃ entry, given options.entry = some entry ∧
    (Text.trim entry.toList = [] ∨ String.ofList (Text.trim entry.toList) ∉ functions.keys)

/-- The backend that the options and the environment name, whether it can be had or not. -/
def Selects (world : World) (options : Options) (backend : Backend) : Prop :=
  Settings.lowered (Setting.backend.selected world.lookup options) = backend.label

inductive Refused (world : World) (options : Options) : Prop
  | environment (setting : Setting) (refused : ¬setting.AcceptedIn world.lookup)
  | option (setting : Setting) (refused : ¬setting.AcceptedOption options)
  | folder (lacking : LacksFolder world options)
  | grammar (selected : Selects world options .tree) (missing : world.grammar = none)
  | entry (backend : Backend) (project : Project) (log : List LogRecord)
      (selected : Selects world options backend)
      (analysed : analyse world backend options.path = .ok (project, log))
      (lacking : LacksEntry options project.functions)

def Mendable (error : RunError) : Prop :=
  ∀ fault, error ≠ .fault fault

theorem stopped_mendable {error : RunError} (mendable : Mendable error) (stdout records : String) :
    stopped stdout records error = .ok ⟨2, stdout, records ++ complaint error⟩ := by
  cases error with
  | fault fault => exact absurd rfl (mendable fault)
  | settings error => rfl
  | notADirectory path => rfl
  | project error => rfl

section Analysis

variable {world : World} {options : Options} {backend : Backend}

theorem visits_yields (folder : ¬LacksFolder world options) :
    Yields (fun _ => True) (visits world.files options.path) := by
  unfold visits
  cases asked : given options.path with
  | none => exact .ok trivial
  | some path =>
      cases found : world.files.folder? path with
      | none => exact absurd ⟨path, asked, found⟩ folder
      | some entries =>
          simp only [found]
          exact .ok trivial

theorem ofBackend_yields (grammar : ¬(world.grammar = none ∧ backend = .tree))
    (conditioned : backend = .tree → ∀ grammar ∈ world.grammar, grammar.IsConditioned) :
    Yields Extractor.IsConditioned (Extractor.ofBackend world.grammar backend) := by
  cases backend with
  | lines => exact .ok trivial
  | tree =>
      cases installed : world.grammar with
      | none => exact absurd ⟨installed, rfl⟩ grammar
      | some grammar => exact .ok (conditioned rfl grammar installed)

theorem analyse_refused
    (refused : LacksFolder world options ∨ world.grammar = none ∧ backend = .tree) :
    ∃ error, analyse world backend options.path = .error error ∧ Mendable error := by
  unfold analyse
  by_cases folder : LacksFolder world options
  · obtain ⟨path, asked, missing⟩ := folder
    have stops : visits world.files options.path = .error (.notADirectory path) := by
      simp only [visits, asked, missing]
    rw [stops]
    exact ⟨_, rfl, fun _ same => nomatch same⟩
  · obtain ⟨visited, walked, -⟩ := visits_yields folder
    obtain ⟨missing, rfl⟩ := refused.resolve_left folder
    rw [walked, missing]
    exact ⟨_, rfl, fun _ same => nomatch same⟩

theorem analyse_yields (folder : ¬LacksFolder world options)
    (grammar : ¬(world.grammar = none ∧ backend = .tree))
    (conditioned : backend = .tree → ∀ grammar ∈ world.grammar, grammar.IsConditioned) :
    Yields (fun found => found.1.IsTraceable) (analyse world backend options.path) := by
  apply (visits_yields folder).bind
  intro visited _
  apply ((ofBackend_yields grammar conditioned).mapError _).bind
  intro extractor extracts
  apply ((Extractor.ofSources_yields extracts (FileTree.sources visited)).mapError _).bind
  intro project traceable
  apply ((Yields.mapM fun visit _ => Extractor.ofVisit_yields extracts visit).mapError _).bind
  intro log _
  exact .ok traceable

end Analysis

section Report

variable {options : Options} {project : Project} (traceable : project.IsTraceable)

include traceable

theorem answer_total (known : ¬LacksEntry options project.functions) (linkEnd : Bool) :
    ∃ output, answer options linkEnd project = .ok output := by
  unfold answer
  cases asked : given options.entry with
  | none => exact ⟨_, rfl⟩
  | some entry =>
      have listed : String.ofList (Text.trim entry.toList) ∈ project.listing.allMethods := by
        by_contra unlisted
        exact known ⟨entry, asked, .inr unlisted⟩
      have settles : project.Settles (some entry) (project.trace (some entry) linkEnd) :=
        Project.trace_settles traceable.functions traceable.named linkEnd
      obtain ⟨graph, traced⟩ := settles.answered.mpr ⟨_, rfl, listed⟩
      obtain ⟨-, text, printed⟩ := Project.readable_of_trace traceable.functions traced
      simp only [traced, printed]
      split
      · exact ⟨_, rfl⟩
      · exact ⟨_, rfl⟩

theorem answer_refused (lacking : LacksEntry options project.functions) (linkEnd : Bool) :
    ∃ error, answer options linkEnd project = .error error ∧ Mendable error := by
  obtain ⟨entry, asked, amiss⟩ := lacking
  have unlisted : String.ofList (Text.trim entry.toList) ∉ project.listing.allMethods := by
    rcases amiss with blank | unlisted
    · rw [blank]
      exact traceable.named
    · exact unlisted
  have settles : project.Settles (some entry) (project.trace (some entry) linkEnd) :=
    Project.trace_settles traceable.functions traceable.named linkEnd
  by_cases blank : String.ofList (Text.trim entry.toList) = ""
  · have refused := settles.required.mpr (.inr (congrArg some blank))
    simp only [answer, asked, refused]
    exact ⟨_, rfl, fun _ same => nomatch same⟩
  · have refused := (settles.unknown _).mpr ⟨rfl, blank, unlisted⟩
    simp only [answer, asked, refused]
    exact ⟨_, rfl, fun _ same => nomatch same⟩

theorem classes_printed (options : Options) : ∃ classes,
    (if options.list then Printout.classes project.classes else .ok "") = .ok classes := by
  split
  · apply Printout.classes_total
    intro method found
    obtain ⟨cls, listed, inClass⟩ := List.mem_flatMap.mp found
    exact traceable.classes cls listed method inClass
  · exact ⟨"", rfl⟩

theorem report_total (known : ¬LacksEntry options project.functions) (linkEnd : Bool) :
    (report options linkEnd project).error = none := by
  obtain ⟨classes, printed⟩ := classes_printed traceable options
  obtain ⟨output, answered⟩ := answer_total traceable known linkEnd
  simp only [report, printed, answered]

theorem report_refused (lacking : LacksEntry options project.functions) (linkEnd : Bool) :
    ∃ error, (report options linkEnd project).error = some error ∧ Mendable error := by
  obtain ⟨classes, printed⟩ := classes_printed traceable options
  obtain ⟨error, answered, mendable⟩ := answer_refused traceable lacking linkEnd
  exact ⟨error, by simp only [report, printed, answered], mendable⟩

end Report

section Runs

variable {world : World} {options : Options} {result : Settings}

theorem not_refused {project : Project} {log : List LogRecord}
    (read : settings world.lookup options = .ok result)
    (folder : ¬LacksFolder world options)
    (grammar : ¬(world.grammar = none ∧ result.backend = .tree))
    (analysed : analyse world result.backend options.path = .ok (project, log))
    (known : ¬LacksEntry options project.functions) : ¬Refused world options := by
  have selected := label_of_settings read
  have accepted := settings_total.mp ⟨result, read⟩
  intro refused
  cases refused with
  | environment setting refused => exact refused (accepted setting).1
  | option setting refused => exact refused (accepted setting).2
  | folder lacking => exact folder lacking
  | grammar tree missing =>
      exact grammar ⟨missing, Backend.label_injective (selected.symm.trans tree)⟩
  | entry backend other otherLog same found lacking =>
      obtain rfl : result.backend = backend := Backend.label_injective (selected.symm.trans same)
      rw [analysed] at found
      obtain ⟨rfl, rfl⟩ := Prod.mk.inj (Except.ok.inj found)
      exact known lacking

theorem refused_of_settings {error : SettingsError}
    (read : settings world.lookup options = .error error) : Refused world options := by
  by_contra unrefused
  have accepted (setting : Setting) :
      setting.AcceptedIn world.lookup ∧ setting.AcceptedOption options :=
    ⟨by_contra fun refused => unrefused (.environment setting refused),
      by_contra fun refused => unrefused (.option setting refused)⟩
  obtain ⟨result, settled⟩ := settings_total.mpr accepted
  rw [read] at settled
  cases settled

theorem refused_of_analysis (read : settings world.lookup options = .ok result)
    (lacking : LacksFolder world options ∨ world.grammar = none ∧ result.backend = .tree) :
    Refused world options := by
  rcases lacking with folder | ⟨missing, tree⟩
  · exact .folder folder
  · exact .grammar (tree ▸ label_of_settings read) missing

theorem runWith_ends (conditioned : Selects world options .tree →
      ∀ grammar ∈ world.grammar, grammar.IsConditioned) :
    (∃ stdout stderr, runWith world options = .ok ⟨0, stdout, stderr⟩) ∧ ¬Refused world options ∨
      (∃ stdout stderr, runWith world options = .ok ⟨2, stdout, stderr⟩) ∧
        Refused world options := by
  unfold runWith
  cases read : settings world.lookup options with
  | error error => exact .inr ⟨⟨_, _, rfl⟩, refused_of_settings read⟩
  | ok result =>
      have selected : Selects world options result.backend := label_of_settings read
      by_cases lacking : LacksFolder world options ∨ world.grammar = none ∧ result.backend = .tree
      · obtain ⟨error, stops, mendable⟩ := analyse_refused lacking
        simp only [stops, stopped_mendable mendable]
        exact .inr ⟨⟨_, _, rfl⟩, refused_of_analysis read lacking⟩
      · obtain ⟨folder, grammar⟩ := not_or.mp lacking
        obtain ⟨⟨project, log⟩, analysed, traceable⟩ :=
          analyse_yields folder grammar fun tree => conditioned (tree ▸ selected)
        simp only [analysed]
        by_cases lacking : LacksEntry options project.functions
        · obtain ⟨error, stops, mendable⟩ := report_refused traceable lacking result.linkEnd
          simp only [stops, stopped_mendable mendable]
          exact .inr ⟨⟨_, _, rfl⟩, .entry _ project log selected analysed lacking⟩
        · simp only [report_total traceable lacking result.linkEnd]
          exact .inl ⟨⟨_, _, rfl⟩, not_refused read folder grammar analysed lacking⟩

end Runs

/-- A command whose options can be read ends with 0 or with 2, and with 2 if and only if it is
refused. The name of its log level is one that the logger takes. -/
theorem exitCode_iff (world : World) (arguments : List String) (options : Options)
    (parsed : Options.parse arguments = .ok options)
    (conditioned : Selects world options .tree →
      ∀ grammar ∈ world.grammar, grammar.IsConditioned) :
    (∃ outcome, run world arguments = .ok outcome ∧
      (outcome.exitCode = 0 ∨ outcome.exitCode = 2) ∧
      (outcome.exitCode = 2 ↔ Refused world options)) ∧
    ∀ result, settings world.lookup options = .ok result → ∀ logger : Logger,
      logger.configure (Settings.raised (Setting.logLevel.selected world.lookup options)) =
        .ok ⟨result.logLevel, max logger.handlers 1⟩ := by
  constructor
  · rw [run, parsed]
    rcases runWith_ends conditioned with
      ⟨⟨stdout, stderr, ended⟩, unrefused⟩ | ⟨⟨stdout, stderr, ended⟩, refused⟩
    · exact ⟨_, ended, .inl rfl, iff_of_false (by simp) unrefused⟩
    · exact ⟨_, ended, .inr rfl, iff_of_true rfl refused⟩
  · intro result read logger
    rw [Logger.configure, ofName?_of_settings read]

def branchingClass : Tree.Node :=
  let node (kind : String) (start stop : Int) (field : Option String) (children : List Tree.Node) :=
    Tree.Node.mk kind true start stop 0 field children
  node "program" 0 36 none
    [node "class_declaration" 0 36 none
      [node "identifier" 6 7 "name" [],
        node "class_body" 8 36 "body"
          [node "method_declaration" 10 34 none
            [node "identifier" 15 16 "name" [],
              node "block" 19 34 "body"
                [node "if_statement" 21 32 none
                  [node "parenthesized_expression" 24 27 "condition" []]]]]]]

def branchingWorld : World where
  lookup _ := none
  files := ⟨.folder
    [("home", .folder [("A.java", .file
      (Text.Utf8.encode (Scan.braced "class A ⟨ void f() ⟨ if (x) g(); ⟩ ⟩")))]),
      ("work", .folder [])], ["work"]⟩
  grammar := some fun _ => branchingClass
  time := ""

def homeOptions (path entry : String) : Options :=
  { path := some path, backend := some "tree-sitter", entry := some entry }

theorem branchingWorld_conditioned :
    ∀ grammar ∈ branchingWorld.grammar, grammar.IsConditioned := by
  have shaped : branchingClass.IsConditioned := by
    unfold Tree.Node.IsConditioned
    decide +kernel
  intro grammar installed text
  obtain rfl := Option.some.inj installed
  exact shaped

section Home

variable {path : String} (known : path = "/home" ∨ path = "../home")

include known

theorem branchingWorld_folder (entry : String) :
    ¬LacksFolder branchingWorld (homeOptions path entry) := by
  rintro ⟨other, asked, missing⟩
  rcases known with rfl | rfl
  · obtain rfl : "/home" = other := Option.some.inj asked
    exact absurd missing (by decide +kernel)
  · obtain rfl : "../home" = other := Option.some.inj asked
    exact absurd missing (by decide +kernel)

theorem branchingWorld_analysed : ∃ project log,
    analyse branchingWorld .tree (some path) = .ok (project, log) ∧
      project.functions.keys = ["A.f"] := by
  have found : (analyse branchingWorld .tree (some path)).map
      (fun found => found.1.functions.keys) = .ok ["A.f"] := by
    rcases known with rfl | rfl <;> decide +kernel
  cases analysed : analyse branchingWorld .tree (some path) with
  | error error =>
      rw [analysed] at found
      nomatch found
  | ok result =>
      rw [analysed] at found
      exact ⟨result.1, result.2, rfl, Except.ok.inj found⟩

end Home

theorem branchingWorld_exitCode :
    (∃ outcome, run branchingWorld ["/home", "--backend", "tree-sitter", "--entry", " A.f"] =
      .ok outcome ∧ outcome.exitCode = 0) ∧
    ∃ outcome, run branchingWorld ["../home", "--backend", "tree-sitter", "--entry", "A.g"] =
      .ok outcome ∧ outcome.exitCode = 2 := by
  constructor
  · have parsed : Options.parse ["/home", "--backend", "tree-sitter", "--entry", " A.f"] =
        .ok (homeOptions "/home" " A.f") := by decide +kernel
    have read : settings branchingWorld.lookup (homeOptions "/home" " A.f") =
        .ok { backend := .tree, linkEnd := false, logLevel := .warning } := by decide +kernel
    obtain ⟨⟨outcome, ended, codes, refusal⟩, -⟩ :=
      exitCode_iff branchingWorld _ _ parsed fun _ => branchingWorld_conditioned
    obtain ⟨project, log, analysed, keys⟩ := branchingWorld_analysed (.inl rfl)
    refine ⟨outcome, ended, codes.resolve_right fun refused => ?_⟩
    refine not_refused read (branchingWorld_folder (.inl rfl) " A.f")
      (fun lacking => nomatch lacking.1) analysed ?_ (refusal.mp refused)
    rintro ⟨entry, asked, lacking⟩
    obtain rfl : " A.f" = entry := Option.some.inj asked
    rw [keys] at lacking
    exact absurd lacking (by decide +kernel)
  · have parsed : Options.parse ["../home", "--backend", "tree-sitter", "--entry", "A.g"] =
        .ok (homeOptions "../home" "A.g") := by decide +kernel
    have selected : Selects branchingWorld (homeOptions "../home" "A.g") .tree := by
      unfold Selects
      decide +kernel
    obtain ⟨⟨outcome, ended, -, refusal⟩, -⟩ :=
      exitCode_iff branchingWorld _ _ parsed fun _ => branchingWorld_conditioned
    obtain ⟨project, log, analysed, keys⟩ := branchingWorld_analysed (.inr rfl)
    refine ⟨outcome, ended, refusal.mpr (.entry .tree project log selected analysed ?_)⟩
    refine ⟨"A.g", rfl, .inr ?_⟩
    rw [keys]
    decide +kernel

end Command
end MethodFlow
