import MethodFlow.Proofs.Project.Lines

/-!
What becomes of a request for a trace in a project that was scanned line by line: it is answered for
the methods of the project, and refused for nothing but its entry method.
-/
namespace MethodFlow

namespace Printout

mutual

theorem statement_total : ∀ (statement : Statement) (indent : String),
    statement.isSupported = true → ∃ lines, Printout.statement indent statement = .ok lines
  | .call _ _ _, _, _ => ⟨_, rfl⟩
  | .branch _ _ whenTrue whenFalse, indent, supported => by
      simp only [Statement.isSupported, Bool.and_eq_true] at supported
      obtain ⟨trueLines, trueTotal⟩ := statements_total whenTrue (indent ++ "  ") supported.1
      obtain ⟨falseLines, falseTotal⟩ := statements_total whenFalse (indent ++ "  ") supported.2
      exact ⟨_, bind_eq_ok.mpr ⟨trueLines, trueTotal, bind_eq_ok.mpr ⟨falseLines, falseTotal, rfl⟩⟩⟩
  | .loop _ _ _ body, indent, supported => by
      obtain ⟨lines, total⟩ := statements_total body (indent ++ "  ") supported
      exact ⟨_, bind_eq_ok.mpr ⟨lines, total, rfl⟩⟩
  | .unsupported _, _, supported => nomatch supported

theorem statements_total : ∀ (list : List Statement) (indent : String),
    Statement.areSupported list = true → ∃ lines, statements indent list = .ok lines
  | [], _, _ => ⟨_, rfl⟩
  | first :: rest, indent, supported => by
      simp only [Statement.areSupported, Bool.and_eq_true] at supported
      obtain ⟨lines, total⟩ := statement_total first indent supported.1
      obtain ⟨restLines, restTotal⟩ := statements_total rest indent supported.2
      exact ⟨_, bind_eq_ok.mpr ⟨lines, total, bind_eq_ok.mpr ⟨restLines, restTotal, rfl⟩⟩⟩

end

theorem method_total {declared : Method}
    (supported : Statement.areSupported declared.statements = true) :
    ∃ lines, method declared = .ok lines := by
  obtain ⟨lines, total⟩ := statements_total declared.statements "      " supported
  exact ⟨_, bind_eq_ok.mpr ⟨lines, total, rfl⟩⟩

theorem classes_total {list : List ClassDecl}
    (supported : ∀ method ∈ FunctionMap.methodsOf list,
      Statement.areSupported method.statements = true) : ∃ text, classes list = .ok text := by
  have each : ∀ cls ∈ list, ∃ lines, classDecl cls = .ok lines := by
    intro cls member
    obtain ⟨lines, total⟩ := mapM_total fun method inClass =>
      method_total (supported method (List.mem_flatMap.mpr ⟨cls, member, inClass⟩))
    exact ⟨_, bind_eq_ok.mpr ⟨lines, total, rfl⟩⟩
  obtain ⟨lines, total⟩ := mapM_total each
  exact ⟨_, bind_eq_ok.mpr ⟨lines, total, rfl⟩⟩

end Printout

namespace FunctionMap

theorem mem_keys_insertEntry {key name : String} {statements : List Statement}
    {entries : List (String × List Statement)} :
    name ∈ (insertEntry key statements entries).map Prod.fst ↔
      name = key ∨ name ∈ entries.map Prod.fst := by
  induction entries with
  | nil => simp [insertEntry]
  | cons entry entries ih =>
      unfold insertEntry
      split
      · next same => simp [same]
      · simp only [List.map_cons, List.mem_cons, ih]
        exact or_left_comm

theorem mem_keys_insert {map : FunctionMap} {key name : String} {statements : List Statement} :
    name ∈ (map.insert key statements).keys ↔ name = key ∨ name ∈ map.keys :=
  mem_keys_insertEntry

theorem mem_keys_foldl_insert {map : FunctionMap} {entries : List (String × List Statement)}
    {name : String} :
    name ∈ (entries.foldl (fun map (key, statements) => map.insert key statements) map).keys ↔
      name ∈ map.keys ∨ name ∈ entries.map Prod.fst := by
  induction entries generalizing map with
  | nil => simp
  | cons entry entries ih =>
      rw [List.foldl_cons, ih, mem_keys_insert, List.map_cons, List.mem_cons, or_assoc]
      exact or_left_comm

theorem mem_keys_ofClasses (classes : List ClassDecl) (name : String) :
    name ∈ (ofClasses classes).keys ↔ ∃ method ∈ methodsOf classes, method.fullName = name := by
  rw [ofClasses, ofList, mem_keys_foldl_insert]
  simp [keys]

end FunctionMap

namespace Project

def asked (entry : Option String) : Option String :=
  entry.map fun name => String.ofList (Text.trim name.toList)

/-- How a request that needs an entry method of the project ends: well if and only if it asks for
one of the project's methods, and otherwise with what is wrong about its entry. -/
structure Settles {α : Type} (project : Project) (entry : Option String)
    (outcome : Except ProjectError α) : Prop where
  answered : (∃ value, outcome = .ok value) ↔
    ∃ name, asked entry = some name ∧ name ∈ project.listing.allMethods
  required : outcome = .error .entryRequired ↔ asked entry = none ∨ asked entry = some ""
  unknown : ∀ name, outcome = .error (.unknownEntry name) ↔
    asked entry = some name ∧ name ≠ "" ∧ name ∉ project.listing.allMethods

section Requests

variable {project : Project} {entry : Option String}

theorem validEntry_some (project : Project) (text : String) :
    project.validEntry (some text) =
      if (String.ofList (Text.trim text.toList)).isEmpty then .error .entryRequired
      else if project.functions.contains (String.ofList (Text.trim text.toList)) then
        .ok (String.ofList (Text.trim text.toList))
      else .error (.unknownEntry (String.ofList (Text.trim text.toList))) :=
  rfl

theorem validEntry_settles (named : "" ∉ project.listing.allMethods) :
    project.Settles entry (project.validEntry entry) := by
  cases entry with
  | none =>
      have refused : project.validEntry none = .error .entryRequired := rfl
      rw [refused]
      constructor <;> simp [asked]
  | some text =>
      have given : asked (some text) = some (String.ofList (Text.trim text.toList)) := rfl
      rw [validEntry_some]
      generalize String.ofList (Text.trim text.toList) = name at given ⊢
      by_cases blank : name = ""
      · subst blank
        constructor <;> simp [given, named]
      · have solid : name.isEmpty = false := by simpa using blank
        by_cases listed : name ∈ project.listing.allMethods
        · have known : project.functions.contains name = true := List.contains_iff_mem.mpr listed
          constructor <;> simp [given, solid, known, blank, listed]
        · have unknown : project.functions.contains name = false := by
            rw [Bool.eq_false_iff]
            exact fun known => listed (List.contains_iff_mem.mp known)
          constructor <;> simp [given, solid, unknown, blank, listed]

theorem asked_of_validEntry {name : String} (valid : project.validEntry entry = .ok name) :
    asked entry = some name := by
  cases entry with
  | none => nomatch valid
  | some text =>
      rw [validEntry_some] at valid
      split at valid
      · nomatch valid
      · split at valid
        · exact congrArg some (Except.ok.inj valid)
        · nomatch valid

/-- What is done with a valid entry method changes nothing about a request if it cannot fail. -/
theorem Settles.bind {α β : Type} {outcome : Except ProjectError α}
    {next : α → Except ProjectError β} (settles : project.Settles entry outcome)
    (total : ∀ value, ∃ result, next value = .ok result) :
    project.Settles entry (outcome >>= next) := by
  have answered : (∃ result, outcome >>= next = .ok result) ↔ ∃ value, outcome = .ok value := by
    cases outcome with
    | error error => simp [Bind.bind, Except.bind]
    | ok value => simpa [Bind.bind, Except.bind] using total value
  have refused (error : ProjectError) :
      outcome >>= next = .error error ↔ outcome = .error error := by
    cases outcome with
    | error error => simp [Bind.bind, Except.bind]
    | ok value =>
        obtain ⟨result, done⟩ := total value
        simp [Bind.bind, Except.bind, done]
  exact ⟨answered.trans settles.answered, (refused _).trans settles.required,
    fun name => (refused _).trans (settles.unknown name)⟩

theorem trace_eq (project : Project) (entry : Option String) (linkEnd : Bool) :
    project.trace entry linkEnd = project.validEntry entry >>= fun name =>
      match Trace.graph project.functions linkEnd name with
      | .ok graph => .ok graph
      | .error error => .error (.unsupported error) :=
  rfl

theorem response_eq (project : Project) (entry : Option String) (linkEnd : Bool) :
    project.response entry linkEnd = project.trace entry linkEnd >>= fun graph =>
      .ok (graph.toResponse project.listing) :=
  rfl

theorem graph_of_trace {linkEnd : Bool} {graph : FlowGraph}
    (traced : project.trace entry linkEnd = .ok graph) :
    asked entry = some graph.entryMethod ∧
      Trace.graph project.functions linkEnd graph.entryMethod = .ok graph := by
  rw [trace_eq] at traced
  obtain ⟨name, valid, traced⟩ := bind_eq_ok.mp traced
  cases drawn : Trace.graph project.functions linkEnd name with
  | error error => simp [drawn] at traced
  | ok drawing =>
      obtain rfl : drawing = graph := by simpa [drawn] using traced
      obtain ⟨draft, last, -, rfl⟩ := Trace.graph_eq_ok.mp drawn
      exact ⟨asked_of_validEntry valid, drawn⟩

theorem response_of_trace {linkEnd : Bool} {graph : FlowGraph}
    (traced : project.trace entry linkEnd = .ok graph) :
    project.response entry linkEnd = .ok (graph.toResponse project.listing) := by
  rw [response_eq, traced]
  rfl

variable (supported : project.functions.isSupported = true)

include supported

theorem trace_settles (named : "" ∉ project.listing.allMethods) (linkEnd : Bool) :
    project.Settles entry (project.trace entry linkEnd) := by
  rw [trace_eq]
  refine (validEntry_settles named).bind fun name => ?_
  obtain ⟨draft, last, -, -, traced, -⟩ := Trace.graph_total supported name
  exact ⟨_, by rw [traced linkEnd]⟩

theorem response_settles (named : "" ∉ project.listing.allMethods) (linkEnd : Bool) :
    project.Settles entry (project.response entry linkEnd) := by
  rw [response_eq]
  exact (trace_settles supported named linkEnd).bind fun graph => ⟨_, rfl⟩

theorem readable_of_trace {linkEnd : Bool} {graph : FlowGraph}
    (traced : project.trace entry linkEnd = .ok graph) : graph.Readable := by
  obtain ⟨-, drawn⟩ := graph_of_trace traced
  obtain ⟨draft, last, trail, -, total, draws⟩ := Trace.graph_total supported graph.entryMethod
  have same := Except.ok.inj ((total linkEnd).symm.trans drawn)
  have wellFormed := (Trace.unclosed_of_draws draws).toGraph_wellFormed linkEnd graph.entryMethod
  exact same ▸ wellFormed.readable

end Requests

theorem ofClasses_named (classes : List ClassDecl) :
    "" ∉ (ofClasses classes).listing.allMethods := by
  intro listed
  obtain ⟨known, member, unnamed⟩ := List.mem_map.mp listed
  obtain ⟨method, -, rfl⟩ := FunctionMap.mem_ofClasses member
  simp [Method.fullName] at unnamed

section Scanned

variable {classes : List ClassDecl}
  (flat : ∀ method ∈ FunctionMap.methodsOf classes, method.IsFlat)

include flat

theorem ofClasses_supported : (ofClasses classes).functions.isSupported = true :=
  FunctionMap.isSupported_of_flat (ofClasses_flat flat)

theorem ofClasses_trace_listed {name : String}
    (listed : name ∈ (ofClasses classes).listing.allMethods) (linkEnd : Bool) :
    ∃ graph, (ofClasses classes).trace (some name) linkEnd = .ok graph ∧
      graph.entryMethod = name := by
  obtain ⟨draft, last, -, -, traced, -⟩ := Trace.graph_total (ofClasses_supported flat) name
  exact ⟨_, trace_eq_ok (ofClasses_validEntry flat listed) (traced linkEnd), rfl⟩

end Scanned

theorem lines_requests_settled (sources : List Source) :
    ∃ project, ofSources .lines sources = .ok project ∧
      (∀ name, name ∈ project.listing.allMethods ↔
        ∃ method ∈ FunctionMap.methodsOf project.classes, method.fullName = name) ∧
      (∀ entry linkEnd, project.Settles entry (project.trace entry linkEnd) ∧
        project.Settles entry (project.response entry linkEnd)) ∧
      (∀ entry linkEnd graph, project.trace entry linkEnd = .ok graph →
        asked entry = some graph.entryMethod ∧
        Trace.graph project.functions linkEnd graph.entryMethod = .ok graph ∧ graph.Readable ∧
        project.response entry linkEnd = .ok (graph.toResponse project.listing)) ∧
      (∀ name ∈ project.listing.entryMethods ++ project.listing.allMethods, ∀ linkEnd,
        ∃ graph, project.trace (some name) linkEnd = .ok graph ∧ graph.entryMethod = name) ∧
      ∃ text, Printout.classes project.classes = .ok text := by
  have flat := scannedClasses_flat sources
  have supported := ofClasses_supported flat
  have named := ofClasses_named (scannedClasses sources)
  refine ⟨_, ofSources_lines sources, FunctionMap.mem_keys_ofClasses _, fun entry linkEnd => ?_,
    fun entry linkEnd graph traced => ?_, fun name listed linkEnd => ?_, ?_⟩
  · exact ⟨trace_settles supported named linkEnd, response_settles supported named linkEnd⟩
  · obtain ⟨entryMethod, drawn⟩ := graph_of_trace traced
    exact ⟨entryMethod, drawn, readable_of_trace supported traced, response_of_trace traced⟩
  · rcases List.mem_append.mp listed with entryMethod | method
    · exact ofClasses_trace_listed flat (List.mem_of_mem_filter entryMethod) linkEnd
    · exact ofClasses_trace_listed flat method linkEnd
  · exact Printout.classes_total fun method found =>
      Statement.areSupported_of_flat (flat method found).statements

theorem mutualSource_requests_settled :
    ∃ project, ofSources .lines [mutualSource] = .ok project ∧
      project.listing = ⟨["A.main"], ["A.main", "A.go"], 1⟩ ∧
      (∃ graph, project.trace (some "\t A.main\n") false = .ok graph ∧
        graph.entryMethod = "A.main" ∧ ∃ text, Printout.graph graph = .ok text) ∧
      (∃ nodes links, project.response (some "A.go ") true = .ok (.obj
        [("callFlowGraph",
          .obj [("nodes", nodes), ("links", links), ("entryMethod", .str "A.go")]),
          ("availableEntryMethods", .strings ["A.main"]),
          ("allMethods", .strings ["A.main", "A.go"]),
          ("totalMethods", .int 2), ("totalClasses", .int 1)])) ∧
      project.response (some "A. go") true = .error (.unknownEntry "A. go") ∧
      project.trace (some "\t") true = .error .entryRequired ∧
      project.trace none false = .error .entryRequired := by
  obtain ⟨project, analysed, -, settled, answered, -, -⟩ := lines_requests_settled [mutualSource]
  have listing : project.listing = ⟨["A.main"], ["A.main", "A.go"], 1⟩ := by
    obtain rfl := Except.ok.inj ((ofSources_lines [mutualSource]).symm.trans analysed)
    decide +kernel
  obtain ⟨graph, traced⟩ := (settled (some "\t A.main\n") false).1.answered.mpr
    ⟨"A.main", by decide +kernel, by simp [listing]⟩
  obtain ⟨given, -, ⟨-, printed⟩, -⟩ := answered _ _ _ traced
  have trimmed : asked (some "\t A.main\n") = some "A.main" := by decide +kernel
  refine ⟨project, analysed, listing,
    ⟨graph, traced, Option.some.inj (given.symm.trans trimmed), printed⟩, ?_, ?_, ?_, ?_⟩
  · obtain ⟨graph, traced⟩ := (settled (some "A.go ") true).1.answered.mpr
      ⟨"A.go", by decide +kernel, by simp [listing]⟩
    obtain ⟨given, -, -, responded⟩ := answered _ _ _ traced
    have trimmed : asked (some "A.go ") = some "A.go" := by decide +kernel
    have entryMethod := Option.some.inj (given.symm.trans trimmed)
    rw [FlowGraph.toResponse, FlowGraph.toJson, listing, entryMethod] at responded
    exact ⟨_, _, responded⟩
  · exact ((settled _ true).2.unknown "A. go").mpr
      ⟨by decide +kernel, by decide, by simp [listing]⟩
  · exact (settled _ true).1.required.mpr (.inr (by decide +kernel))
  · exact (settled _ false).1.required.mpr (.inl rfl)

end Project
end MethodFlow
