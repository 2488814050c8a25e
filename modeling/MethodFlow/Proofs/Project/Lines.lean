import MethodFlow.Project
import MethodFlow.Proofs.Scan.Flat
import MethodFlow.Proofs.Text.Word

/-!
Projects whose sources are scanned line by line. Their methods have no statements with bodies, so
what is traced in them is a chain, whatever the sources hold.
-/
namespace MethodFlow

namespace FunctionMap

theorem mem_insertEntry {key : String} {statements : List Statement}
    {entries : List (String × List Statement)} {entry : String × List Statement}
    (member : entry ∈ insertEntry key statements entries) :
    entry = (key, statements) ∨ entry ∈ entries := by
  induction entries with
  | nil => exact .inl (List.mem_singleton.mp member)
  | cons other entries ih =>
      unfold insertEntry at member
      split at member
      · rcases List.mem_cons.mp member with rfl | old
        · exact .inl rfl
        · exact .inr (List.mem_cons_of_mem _ old)
      · rcases List.mem_cons.mp member with rfl | later
        · exact .inr List.mem_cons_self
        · exact (ih later).imp_right (List.mem_cons_of_mem _)

theorem mem_foldl_insert (map : FunctionMap) (entries : List (String × List Statement))
    {entry : String × List Statement}
    (member : entry ∈
      (entries.foldl (fun map (key, statements) => map.insert key statements) map).entries) :
    entry ∈ map.entries ∨ entry ∈ entries := by
  induction entries generalizing map with
  | nil => exact .inl member
  | cons other entries ih =>
      rcases ih _ member with old | later
      · rcases mem_insertEntry old with rfl | older
        · exact .inr List.mem_cons_self
        · exact .inl older
      · exact .inr (List.mem_cons_of_mem _ later)

theorem mem_ofList {entries : List (String × List Statement)} {entry : String × List Statement}
    (member : entry ∈ (ofList entries).entries) : entry ∈ entries :=
  (mem_foldl_insert ⟨[]⟩ entries member).resolve_left List.not_mem_nil

theorem mem_ofClasses {classes : List ClassDecl} {entry : String × List Statement}
    (member : entry ∈ (ofClasses classes).entries) :
    ∃ method ∈ methodsOf classes, (method.fullName, method.statements) = entry :=
  List.mem_map.mp (mem_ofList member)

end FunctionMap

theorem Method.IsFlat.fullName_solid {method : Method} (flat : method.IsFlat) :
    ∀ c ∈ method.fullName.toList, Text.isBlank c = false := by
  have solid {name : String} (word : Header.isName name = true) :
      ∀ c ∈ name.toList, Text.isBlank c = false := fun c member =>
    Text.isBlank_eq_false_of_isWord (List.all_eq_true.mp word c member)
  intro c member
  simp only [fullName, String.toList_append, List.mem_append] at member
  rcases member with (inClass | dot) | inName
  · exact solid flat.className c inClass
  · obtain rfl : c = '.' := by simpa using dot
    decide
  · exact solid flat.name c inName

namespace Project

theorem validEntry_eq_self {project : Project} {entry : String}
    (listed : entry ∈ project.functions.keys) (nonempty : entry ≠ "")
    (solid : ∀ c ∈ entry.toList, Text.isBlank c = false) :
    project.validEntry (some entry) = .ok entry := by
  simp [validEntry, Text.trim_eq_self solid, FunctionMap.contains, listed, nonempty]

theorem trace_eq_ok {project : Project} {entry : Option String} {name : String} {linkEnd : Bool}
    {graph : FlowGraph} (valid : project.validEntry entry = .ok name)
    (traced : Trace.graph project.functions linkEnd name = .ok graph) :
    project.trace entry linkEnd = .ok graph := by
  simp [trace, valid, traced, bind, Except.bind, pure, Except.pure]

def scannedClasses (sources : List Source) : List ClassDecl :=
  sources.flatMap fun source =>
    Scan.extract source.resolvedDialect (some source.path) source.text

theorem ofSources_lines (sources : List Source) :
    ofSources .lines sources = .ok (ofClasses (scannedClasses sources)) := by
  have scanned : Extractor.lines.extract = fun source =>
      pure (Scan.extract source.resolvedDialect (some source.path) source.text) := rfl
  rw [ofSources, scanned, List.mapM_pure, scannedClasses, List.flatMap_def]
  rfl

theorem scannedClasses_flat (sources : List Source) :
    ∀ method ∈ FunctionMap.methodsOf (scannedClasses sources), method.IsFlat := by
  intro method member
  obtain ⟨cls, found, inClass⟩ := List.mem_flatMap.mp member
  obtain ⟨source, -, inSource⟩ := List.mem_flatMap.mp found
  exact Scan.extract_flat _ _ _ method (List.mem_flatMap.mpr ⟨cls, inSource, inClass⟩)

variable {classes : List ClassDecl}
  (flat : ∀ method ∈ FunctionMap.methodsOf classes, method.IsFlat)

include flat

theorem ofClasses_flat : (ofClasses classes).functions.isFlat = true := by
  rw [FunctionMap.isFlat, List.all_eq_true]
  intro entry member
  obtain ⟨method, found, rfl⟩ := FunctionMap.mem_ofClasses member
  exact (flat method found).statements

theorem ofClasses_validEntry {entry : String}
    (listed : entry ∈ (ofClasses classes).functions.keys) :
    (ofClasses classes).validEntry (some entry) = .ok entry := by
  obtain ⟨known, member, rfl⟩ := List.mem_map.mp listed
  obtain ⟨method, found, rfl⟩ := FunctionMap.mem_ofClasses member
  refine validEntry_eq_self listed ?_ (flat method found).fullName_solid
  simp [Method.fullName]

omit flat

theorem lines_trace_isChain (sources : List Source) :
    ∃ project, ofSources .lines sources = .ok project ∧
      ∀ entry ∈ project.listing.entryMethods ++ project.listing.allMethods,
        ∃ unlinked : FlowGraph,
          project.trace (some entry) false = .ok unlinked ∧
          project.trace (some entry) true = .ok unlinked.linked ∧
          unlinked.IsChain ∧ ∀ edge ∈ unlinked.linked.edges, edge.IsPlain := by
  have flat := scannedClasses_flat sources
  refine ⟨_, ofSources_lines sources, fun entry listed => ?_⟩
  have known : entry ∈ (ofClasses (scannedClasses sources)).functions.keys := by
    rcases List.mem_append.mp listed with entryMethod | method
    · exact List.mem_of_mem_filter entryMethod
    · exact method
  have valid := ofClasses_validEntry flat known
  obtain ⟨unlinked, traced, tracedLinked, chain⟩ :=
    Trace.graph_of_flat (ofClasses_flat flat) entry
  exact ⟨unlinked, trace_eq_ok valid traced, trace_eq_ok valid tracedLinked, chain,
    chain.linked_plain⟩

def mutualSource : Source :=
  { path := "A.java"
    text := String.ofList (Scan.braced
      "class A ⟨\nvoid main() ⟨\nif (x) go();\n⟩\nvoid go() ⟨\nfor (;;) main();\n⟩\n⟩")
    dialect := none }

theorem mutualSource_trace_isChain :
    ∃ project, ofSources .lines [mutualSource] = .ok project ∧
      "A.main" ∈ project.listing.entryMethods ++ project.listing.allMethods ∧
      ∃ unlinked : FlowGraph,
        project.trace (some "A.main") false = .ok unlinked ∧
        project.trace (some "A.main") true = .ok unlinked.linked ∧
        unlinked.IsChain ∧ ∀ edge ∈ unlinked.linked.edges, edge.IsPlain := by
  obtain ⟨project, analysed, chains⟩ := lines_trace_isChain [mutualSource]
  have listed : "A.main" ∈ project.listing.entryMethods ++ project.listing.allMethods := by
    obtain rfl := Except.ok.inj ((ofSources_lines [mutualSource]).symm.trans analysed)
    decide +kernel
  exact ⟨project, analysed, listed, chains "A.main" listed⟩

end Project
end MethodFlow
