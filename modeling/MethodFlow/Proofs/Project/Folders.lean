import MethodFlow.CommandLine.Run
import Mathlib.Data.List.Nodup
import Mathlib.Data.String.Basic

/-!
The order in which a folder lists its entries does not matter: a walk sorts them at every depth. So
a project read from folders is the same each time, with every source below them in it once.
-/
namespace MethodFlow

namespace FileTree

/-- No folder has two entries of one name, at any depth. -/
inductive Proper : List (String × FileTree) → Prop
  | intro {entries : List (String × FileTree)} (names : (entries.map Prod.fst).Nodup)
      (inside : ∀ name inner, (name, .folder inner) ∈ entries → Proper inner) : Proper entries

/-- The same entries in another order, in a folder or in those inside it. -/
inductive Relisted : List (String × FileTree) → List (String × FileTree) → Prop
  | nil : Relisted [] []
  | cons (entry : String × FileTree) {entries entries' : List (String × FileTree)}
      (rest : Relisted entries entries') : Relisted (entry :: entries) (entry :: entries')
  | inside (name : String) {inner inner' entries entries' : List (String × FileTree)}
      (folder : Relisted inner inner') (rest : Relisted entries entries') :
      Relisted ((name, .folder inner) :: entries) ((name, .folder inner') :: entries')
  | swap (first second : String × FileTree) (entries : List (String × FileTree)) :
      Relisted (first :: second :: entries) (second :: first :: entries)
  | trans {entries entries' entries'' : List (String × FileTree)}
      (first : Relisted entries entries') (second : Relisted entries' entries'') :
      Relisted entries entries''

inductive Relists : FileTree → FileTree → Prop
  | file (bytes : List UInt8) : Relists (.file bytes) (.file bytes)
  | broken : Relists .broken .broken
  | folder {entries entries' : List (String × FileTree)} (relisted : Relisted entries entries') :
      Relists (.folder entries) (.folder entries')

section Relisting

variable {entries entries' : List (String × FileTree)}

theorem Relisted.refl : ∀ entries, Relisted entries entries
  | [] => .nil
  | entry :: entries => .cons entry (Relisted.refl entries)

theorem Relists.refl (tree : FileTree) : Relists tree tree := by
  cases tree with
  | file bytes => exact .file bytes
  | broken => exact .broken
  | folder entries => exact .folder (.refl entries)

theorem Relists.trans {tree tree' tree'' : FileTree} (first : Relists tree tree')
    (second : Relists tree' tree'') : Relists tree tree'' := by
  cases first with
  | file bytes => exact second
  | broken => exact second
  | folder relisted =>
      cases second with
      | folder relisted' => exact .folder (relisted.trans relisted')

theorem Relisted.names (relisted : Relisted entries entries') :
    (entries.map Prod.fst).Perm (entries'.map Prod.fst) := by
  induction relisted with
  | nil => exact .refl _
  | cons entry rest ih => exact ih.cons _
  | inside name folder rest ihFolder ih => exact ih.cons _
  | swap first second entries => exact .swap _ _ _
  | trans first second ihFirst ihSecond => exact ihFirst.trans ihSecond

theorem Relisted.exists_mem (relisted : Relisted entries entries') {name : String}
    {tree' : FileTree} (member : (name, tree') ∈ entries') :
    ∃ tree, (name, tree) ∈ entries ∧ Relists tree tree' := by
  induction relisted generalizing tree' with
  | nil => cases member
  | cons entry rest ih =>
      rcases List.mem_cons.mp member with rfl | member
      · exact ⟨tree', List.mem_cons_self, .refl tree'⟩
      · obtain ⟨tree, listed, relists⟩ := ih member
        exact ⟨tree, List.mem_cons_of_mem _ listed, relists⟩
  | inside _ folder rest _ ih =>
      rcases List.mem_cons.mp member with own | member
      · cases own
        exact ⟨_, List.mem_cons_self, .folder folder⟩
      · obtain ⟨tree, listed, relists⟩ := ih member
        exact ⟨tree, List.mem_cons_of_mem _ listed, relists⟩
  | swap first second entries =>
      exact ⟨tree', (List.Perm.swap first second entries).mem_iff.mp member, .refl tree'⟩
  | trans first second ihFirst ihSecond =>
      obtain ⟨between, listed, relists⟩ := ihSecond member
      obtain ⟨tree, listed, relists'⟩ := ihFirst listed
      exact ⟨tree, listed, relists'.trans relists⟩

theorem Proper.tail {entry : String × FileTree} (proper : Proper (entry :: entries)) :
    Proper entries := by
  cases proper with
  | intro names inside =>
      exact ⟨names.of_cons, fun name inner member =>
        inside name inner (List.mem_cons_of_mem _ member)⟩

theorem Proper.folder {name : String} {inner : List (String × FileTree)} (proper : Proper entries)
    (member : (name, .folder inner) ∈ entries) : Proper inner := by
  cases proper with
  | intro names inside => exact inside name inner member

theorem Proper.names (proper : Proper entries) : (entries.map Prod.fst).Nodup := by
  cases proper with
  | intro names inside => exact names

theorem Proper.relisted (proper : Proper entries) (relisted : Relisted entries entries') :
    Proper entries' := by
  induction proper generalizing entries' with
  | intro names inside ih =>
      refine ⟨relisted.names.nodup names, fun name inner' member => ?_⟩
      obtain ⟨tree, listed, relists⟩ := relisted.exists_mem member
      cases relists with
      | folder folder => exact ih name _ listed folder

end Relisting

section Order

def sortedByName (entries : List EntryVisits) : List EntryVisits :=
  entries.mergeSort fun a b => decide (a.name ≤ b.name)

theorem inOrder_eq (entries : List EntryVisits) :
    inOrder entries =
      ((sortedByName entries).filter fun entry => !entry.isFolder).flatMap EntryVisits.visits ++
        ((sortedByName entries).filter fun entry => entry.isFolder).flatMap EntryVisits.visits :=
  rfl

theorem sortedByName_perm (entries : List EntryVisits) : (sortedByName entries).Perm entries :=
  List.mergeSort_perm _ _

theorem sortedByName_pairwise (entries : List EntryVisits) :
    (sortedByName entries).Pairwise fun a b => a.name ≤ b.name := by
  have ordered : (sortedByName entries).Pairwise fun a b => decide (a.name ≤ b.name) = true := by
    apply List.pairwise_mergeSort
    · intro a b c first second
      exact decide_eq_true (le_trans (of_decide_eq_true first) (of_decide_eq_true second))
    · intro a b
      simpa using le_total a.name b.name
  exact ordered.imp of_decide_eq_true

theorem sortedByName_eq_of_perm {entries entries' : List EntryVisits}
    (same : entries.Perm entries') (names : (entries.map EntryVisits.name).Nodup) :
    sortedByName entries = sortedByName entries' := by
  have moved : (sortedByName entries).Perm (sortedByName entries') :=
    (sortedByName_perm entries).trans (same.trans (sortedByName_perm entries').symm)
  refine moved.eq_of_pairwise ?_ (sortedByName_pairwise entries) (sortedByName_pairwise entries')
  intro a b inFirst inSecond before after
  have listed : b ∈ sortedByName entries := moved.mem_iff.mpr inSecond
  exact List.inj_on_of_nodup_map names ((sortedByName_perm entries).mem_iff.mp inFirst)
    ((sortedByName_perm entries).mem_iff.mp listed) (le_antisymm before after)

theorem inOrder_eq_of_perm {entries entries' : List EntryVisits} (same : entries.Perm entries')
    (names : (entries.map EntryVisits.name).Nodup) : inOrder entries = inOrder entries' := by
  rw [inOrder_eq, inOrder_eq, sortedByName_eq_of_perm same names]

theorem inOrder_perm (entries : List EntryVisits) :
    (inOrder entries).Perm (entries.flatMap EntryVisits.visits) := by
  have parts : ((sortedByName entries).filter (fun entry => !entry.isFolder) ++
      (sortedByName entries).filter fun entry => entry.isFolder).Perm entries := by
    have halves := List.filter_append_perm (fun entry => !entry.isFolder) (sortedByName entries)
    simp only [Bool.not_not] at halves
    exact halves.trans (sortedByName_perm entries)
  have visits := parts.flatMap_right EntryVisits.visits
  rw [List.flatMap_append] at visits
  rw [inOrder_eq]
  exact visits

end Order

section Walk

variable {entries entries' : List (String × FileTree)}

theorem visitEntry_name (path name : String) (tree : FileTree) :
    (visitEntry path name tree).name = name := by
  cases tree with
  | file bytes => rfl
  | broken => rfl
  | folder entries => simp [visitEntry]

theorem visitEntries_names (path : String) (entries : List (String × FileTree)) :
    (visitEntries path entries).map EntryVisits.name = entries.map Prod.fst := by
  induction entries with
  | nil => simp [visitEntries]
  | cons entry entries ih => simp [visitEntries, visitEntry_name, ih]

theorem Relisted.visits (relisted : Relisted entries entries') (proper : Proper entries)
    (path : String) : (visitEntries path entries).Perm (visitEntries path entries') := by
  induction relisted generalizing path with
  | nil => exact .refl _
  | cons entry rest ih =>
      obtain ⟨name, tree⟩ := entry
      rw [visitEntries, visitEntries]
      exact (ih proper.tail path).cons _
  | @inside name inner inner' _ _ folder rest ihFolder ih =>
      -- A folder is sorted before its visits are passed on, so how it was listed is lost here.
      have properInner : Proper inner := proper.folder List.mem_cons_self
      have names : ((visitEntries (join path name) inner).map EntryVisits.name).Nodup := by
        rw [visitEntries_names]
        exact properInner.names
      rw [visitEntries, visitEntries, visitEntry, visitEntry,
        inOrder_eq_of_perm (ihFolder properInner (join path name)) names]
      exact (ih proper.tail path).cons _
  | swap first second entries =>
      obtain ⟨name, tree⟩ := first
      obtain ⟨name', tree'⟩ := second
      rw [visitEntries, visitEntries, visitEntries, visitEntries]
      exact .swap _ _ _
  | trans first second ihFirst ihSecond =>
      exact (ihFirst proper path).trans (ihSecond (proper.relisted first) path)

theorem Relisted.walk_eq (relisted : Relisted entries entries') (proper : Proper entries)
    (path : String) : walk path entries' = walk path entries := by
  have names : ((visitEntries path entries).map EntryVisits.name).Nodup := by
    rw [visitEntries_names]
    exact proper.names
  exact (inOrder_eq_of_perm (relisted.visits proper path) names).symm

end Walk

/-- The names lead to a file that can be read, with these bytes. -/
inductive Holds : List (String × FileTree) → List String → List UInt8 → Prop
  | file {entries : List (String × FileTree)} {name : String} {bytes : List UInt8}
      (member : (name, .file bytes) ∈ entries) : Holds entries [name] bytes
  | inside {entries inner : List (String × FileTree)} {name : String} {names : List String}
      {bytes : List UInt8} (member : (name, .folder inner) ∈ entries)
      (holds : Holds inner names bytes) : Holds entries (name :: names) bytes

def LeadsToSource (names : List String) : Prop :=
  ∃ stem, ∃ suffix ∈ [".java", ".kt", ".kts"], names.getLast? = some (stem ++ suffix)

/-- The source that is read where names lead to from a folder that is given as `path`. -/
def sourceAt (path : String) (names : List String) (bytes : List UInt8) : Source :=
  ⟨names.foldl join path, textOf bytes, none⟩

mutual

def foundAt (name : String) : FileTree → List (List String × List UInt8)
  | .file bytes => if isSourceName name then [([name], bytes)] else []
  | .broken => []
  | .folder entries => (foundIn entries).map fun found => (name :: found.1, found.2)

def foundIn : List (String × FileTree) → List (List String × List UInt8)
  | [] => []
  | (name, tree) :: entries => foundAt name tree ++ foundIn entries

end

section Found

theorem isSourceName_iff (name : String) :
    isSourceName name = true ↔
      ∃ stem, ∃ suffix ∈ [".java", ".kt", ".kts"], name = stem ++ suffix := by
  simp only [isSourceName, List.any_eq_true, List.isSuffixOf_iff_suffix]
  constructor
  · rintro ⟨suffix, member, stem, split⟩
    refine ⟨String.ofList stem, suffix, member, ?_⟩
    rw [← String.toList_inj, String.toList_append, String.toList_ofList, split]
  · rintro ⟨stem, suffix, member, rfl⟩
    refine ⟨suffix, member, ?_⟩
    rw [String.toList_append]
    exact List.suffix_append _ _

theorem foundIn_eq (entries : List (String × FileTree)) :
    foundIn entries = entries.flatMap fun entry => foundAt entry.1 entry.2 := by
  induction entries with
  | nil => rfl
  | cons entry entries ih => rw [foundIn, ih, List.flatMap_cons]

theorem mem_foundAt {name : String} {tree : FileTree} {names : List String} {bytes : List UInt8} :
    (names, bytes) ∈ foundAt name tree ↔
      tree = .file bytes ∧ names = [name] ∧ isSourceName name = true ∨
      ∃ inner rest,
        tree = .folder inner ∧ names = name :: rest ∧ (rest, bytes) ∈ foundIn inner := by
  cases tree with
  | file content =>
      by_cases source : isSourceName name = true
      · simp [foundAt, source, and_comm, eq_comm]
      · simp [foundAt, source]
  | broken => simp [foundAt]
  | folder entries =>
      simp only [foundAt, List.mem_map, Prod.exists, Prod.mk.injEq]
      constructor
      · rintro ⟨rest, content, found, rfl, rfl⟩
        exact .inr ⟨entries, rest, rfl, rfl, found⟩
      · rintro (⟨file, -⟩ | ⟨inner, rest, same, rfl, found⟩)
        · cases file
        · cases same
          exact ⟨rest, bytes, found, rfl, rfl⟩

theorem mem_foundIn {entries : List (String × FileTree)} {names : List String}
    {bytes : List UInt8} :
    (names, bytes) ∈ foundIn entries ↔
      ∃ name tree, (name, tree) ∈ entries ∧ (names, bytes) ∈ foundAt name tree := by
  rw [foundIn_eq, List.mem_flatMap]
  exact Prod.exists

theorem leadsToSource_singleton {name : String} :
    LeadsToSource [name] ↔ isSourceName name = true := by
  simp only [LeadsToSource, List.getLast?_singleton, Option.some.injEq, isSourceName_iff]

theorem leadsToSource_cons {name : String} {names : List String} (proper : names ≠ []) :
    LeadsToSource (name :: names) ↔ LeadsToSource names := by
  obtain ⟨next, rest, rfl⟩ := List.exists_cons_of_ne_nil proper
  simp only [LeadsToSource, List.getLast?_cons_cons]

theorem Holds.ne_nil {entries : List (String × FileTree)} {names : List String}
    {bytes : List UInt8} (holds : Holds entries names bytes) : names ≠ [] := by
  cases holds with
  | file member => exact List.cons_ne_nil _ _
  | inside member holds => exact List.cons_ne_nil _ _

theorem mem_foundIn_of_holds {entries : List (String × FileTree)} {names : List String}
    {bytes : List UInt8} (holds : Holds entries names bytes) (source : LeadsToSource names) :
    (names, bytes) ∈ foundIn entries := by
  induction holds with
  | file member =>
      have own := leadsToSource_singleton.mp source
      exact mem_foundIn.mpr ⟨_, _, member, mem_foundAt.mpr (.inl ⟨rfl, rfl, own⟩)⟩
  | inside member holds ih =>
      have found := ih ((leadsToSource_cons holds.ne_nil).mp source)
      exact mem_foundIn.mpr ⟨_, _, member, mem_foundAt.mpr (.inr ⟨_, _, rfl, rfl, found⟩)⟩

theorem holds_of_mem_foundIn {entries : List (String × FileTree)} {names : List String}
    {bytes : List UInt8} (found : (names, bytes) ∈ foundIn entries) :
    Holds entries names bytes ∧ LeadsToSource names := by
  induction names generalizing entries with
  | nil =>
      obtain ⟨name, tree, -, own⟩ := mem_foundIn.mp found
      rcases mem_foundAt.mp own with ⟨-, none, -⟩ | ⟨inner, rest, -, none, -⟩
      · cases none
      · cases none
  | cons first names ih =>
      obtain ⟨name, tree, member, own⟩ := mem_foundIn.mp found
      rcases mem_foundAt.mp own with ⟨rfl, same, source⟩ | ⟨inner, rest, rfl, same, below⟩
      · cases same
        exact ⟨.file member, leadsToSource_singleton.mpr source⟩
      · cases same
        obtain ⟨holds, source⟩ := ih below
        exact ⟨.inside member holds, (leadsToSource_cons holds.ne_nil).mpr source⟩

theorem head?_of_foundAt {name : String} {tree : FileTree} {names : List String}
    (member : names ∈ (foundAt name tree).map Prod.fst) : names.head? = some name := by
  obtain ⟨⟨_, bytes⟩, found, rfl⟩ := List.mem_map.mp member
  rcases mem_foundAt.mp found with ⟨-, same, -⟩ | ⟨inner, rest, -, same, -⟩
  · rw [same]
    rfl
  · rw [same]
    rfl

theorem Proper.foundIn_nodup {entries : List (String × FileTree)} (proper : Proper entries) :
    ((foundIn entries).map Prod.fst).Nodup := by
  induction proper with
  | @intro entries names inside ih =>
      rw [foundIn_eq, List.map_flatMap, List.nodup_flatMap]
      constructor
      · rintro ⟨name, tree⟩ member
        cases tree with
        | file bytes =>
            simp only [foundAt]
            split
            · exact List.nodup_singleton _
            · exact List.nodup_nil
        | broken => exact List.nodup_nil
        | folder inner =>
            have below := (ih name inner member).map (List.cons_injective (a := name))
            rw [foundAt, List.map_map]
            rw [List.map_map] at below
            exact below
      · apply (List.pairwise_map.mp names).imp
        intro first second apart found inFirst inSecond
        have same : some first.1 = some second.1 :=
          (head?_of_foundAt inFirst).symm.trans (head?_of_foundAt inSecond)
        exact apart (Option.some.inj same)

mutual

theorem sources_visitEntry (path name : String) :
    ∀ tree : FileTree, (sources (visitEntry (join path name) name tree).visits).Perm
      ((foundAt name tree).map fun found => sourceAt path found.1 found.2)
  | .file bytes => by
      rw [visitEntry, foundAt]
      split
      · exact .refl _
      · exact .refl _
  | .broken => by
      rw [visitEntry, foundAt]
      split
      · exact .refl _
      · exact .refl _
  | .folder entries => by
      have below := sources_visitEntries (join path name) entries
      have ordered := (inOrder_perm (visitEntries (join path name) entries)).filterMap
        Visit.readable?
      rw [visitEntry, foundAt, List.map_map]
      exact ordered.trans below

theorem sources_visitEntries (path : String) :
    ∀ entries : List (String × FileTree),
      (sources ((visitEntries path entries).flatMap EntryVisits.visits)).Perm
        ((foundIn entries).map fun found => sourceAt path found.1 found.2)
  | [] => by
      rw [visitEntries, foundIn]
      exact .refl _
  | (name, tree) :: entries => by
      have own := sources_visitEntry path name tree
      have rest := sources_visitEntries path entries
      rw [visitEntries, foundIn, List.flatMap_cons, List.map_append, sources, List.filterMap_append]
      exact own.append rest

end

end Found

section Descent

/-- Two trees that differ in the order of entries alone, with no name twice in a folder. -/
structure Alike (tree tree' : FileTree) : Prop where
  relists : Relists tree tree'
  proper : ∀ entries, tree = .folder entries → Proper entries

variable {entries entries' : List (String × FileTree)}

theorem Proper.lookup_eq_some_iff (proper : Proper entries) {name : String} {tree : FileTree} :
    entries.lookup name = some tree ↔ (name, tree) ∈ entries := by
  constructor
  · intro found
    obtain ⟨before, after, rfl, -⟩ := List.lookup_eq_some_iff.mp found
    exact List.mem_append_right _ List.mem_cons_self
  · intro member
    obtain ⟨before, after, rfl⟩ := List.append_of_mem member
    have names := proper.names
    rw [List.map_append, List.map_cons, List.nodup_append'] at names
    refine List.lookup_eq_some_iff.mpr ⟨before, after, rfl, fun entry earlier => ?_⟩
    have apart : entry.1 ≠ name := by
      rintro rfl
      exact names.2.2 (List.mem_map_of_mem earlier) List.mem_cons_self
    simpa using apart.symm

theorem Relisted.lookup_alike (relisted : Relisted entries entries') (proper : Proper entries)
    (name : String) : Option.Rel Alike (entries.lookup name) (entries'.lookup name) := by
  have proper' := proper.relisted relisted
  cases found' : entries'.lookup name with
  | some tree' =>
      obtain ⟨tree, listed, relists⟩ := relisted.exists_mem (proper'.lookup_eq_some_iff.mp found')
      rw [proper.lookup_eq_some_iff.mpr listed]
      exact .some ⟨relists, fun inner folder => proper.folder (folder ▸ listed)⟩
  | none =>
      cases found : entries.lookup name with
      | none => exact .none
      | some tree =>
          have listed : name ∈ entries'.map Prod.fst :=
            relisted.names.mem_iff.mp (List.mem_map_of_mem (proper.lookup_eq_some_iff.mp found))
          obtain ⟨⟨_, tree'⟩, member, rfl⟩ := List.mem_map.mp listed
          rw [proper'.lookup_eq_some_iff.mpr member] at found'
          cases found'

/-- The same names lead to the same places, also where they lead up again. -/
theorem descend?_alike (names : List String) {above above' : List FileTree}
    {tree tree' : FileTree} (outer : List.Forall₂ Alike above above') (alike : Alike tree tree') :
    Option.Rel Alike (descend? above tree names) (descend? above' tree' names) := by
  induction names generalizing above above' tree tree' with
  | nil =>
      simp only [descend?]
      exact .some alike
  | cons name names ih =>
      obtain ⟨relists, proper⟩ := alike
      cases relists with
      | file bytes =>
          simp only [descend?]
          exact .none
      | broken =>
          simp only [descend?]
          exact .none
      | @folder entries entries' relisted =>
          have here : Alike (.folder entries) (.folder entries') := ⟨.folder relisted, proper⟩
          simp only [descend?]
          split
          · -- Two dots lead to the folder around, which is alike as well, or stay at the root.
            cases outer with
            | nil => exact ih .nil here
            | cons first rest => exact ih rest first
          · have found := relisted.lookup_alike (proper entries rfl) name
            generalize entries.lookup name = inner, entries'.lookup name = inner' at found
            cases found with
            | none => exact .none
            | some next => exact ih (outer.cons here) next

theorem folder?_relisted {files : FileSystem} {root : FileTree} (alike : Alike files.root root)
    (path : String) :
    Option.Rel (fun entries entries' => Relisted entries entries' ∧ Proper entries)
      (files.folder? path) ({ files with root }.folder? path) := by
  unfold FileSystem.folder?
  split
  · exact .none
  · have found := descend?_alike (files.origin path ++ names path) .nil alike
    change Option.Rel _ _ ((descend? [] root (files.origin path ++ names path)).bind entries?)
    generalize descend? [] files.root (files.origin path ++ names path) = place,
      descend? [] root (files.origin path ++ names path) = place' at found ⊢
    cases found with
    | none => exact .none
    | some next =>
        obtain ⟨relists, proper⟩ := next
        cases relists with
        | file bytes => exact .none
        | broken => exact .none
        | folder relisted => exact .some ⟨relisted, proper _ rfl⟩

end Descent

end FileTree

namespace Command

theorem visits_alike {files : FileSystem} {root : FileTree} (alike : files.root.Alike root)
    (path : Option String) : visits { files with root } path = visits files path := by
  unfold visits
  split
  · rfl
  · next path _ =>
      have found := FileTree.folder?_relisted alike path
      generalize files.folder? path = entries, { files with root }.folder? path = entries' at found
      cases found with
      | none => rfl
      | some listed => simp only [listed.1.walk_eq listed.2 path]

theorem analyse_alike {world : World} {root : FileTree} (alike : world.files.root.Alike root)
    (backend : Backend) (path : Option String) :
    analyse { world with files := { world.files with root } } backend path =
      analyse world backend path := by
  simp only [analyse, visits_alike alike path]

end Command

namespace FileTree

/-- However folders are listed, a walk comes by the same sources in the same order. They are all
files below the folder that can be read and have the name of a source, each of them once; and what
is made of them is the same. -/
theorem walk_reproducible {entries entries' : List (String × FileTree)} (proper : Proper entries)
    (relisted : Relisted entries entries') :
    (∀ path, walk path entries' = walk path entries) ∧
    (∃ found : List (List String × List UInt8),
      (found.map Prod.fst).Nodup ∧
      (∀ names bytes, (names, bytes) ∈ found ↔ Holds entries names bytes ∧ LeadsToSource names) ∧
      ∀ path, (sources (walk path entries)).Perm
        (found.map fun file => sourceAt path file.1 file.2)) ∧
    ∀ (world : World) (backend : Backend) (path : Option String),
      world.files.root = .folder entries →
      Command.analyse { world with files := { world.files with root := .folder entries' } } backend
        path = Command.analyse world backend path := by
  refine ⟨relisted.walk_eq proper, ⟨foundIn entries, proper.foundIn_nodup, ?_, ?_⟩, ?_⟩
  · intro names bytes
    exact ⟨holds_of_mem_foundIn, fun ⟨holds, source⟩ => mem_foundIn_of_holds holds source⟩
  · intro path
    have ordered := (inOrder_perm (visitEntries path entries)).filterMap Visit.readable?
    exact ordered.trans (sources_visitEntries path entries)
  · intro world backend path root
    have alike : world.files.root.Alike (.folder entries') := by
      rw [root]
      exact ⟨.folder relisted, fun inner same => FileTree.folder.inj same ▸ proper⟩
    exact Command.analyse_alike alike backend path

def scattered : List (String × FileTree) :=
  [("B.kt", .file [0x66]), ("a", .folder [("X.java", .file []), ("notes.txt", .file [])]),
    ("C.java", .broken)]

def rescattered : List (String × FileTree) :=
  [("a", .folder [("notes.txt", .file []), ("X.java", .file [])]), ("C.java", .broken),
    ("B.kt", .file [0x66])]

theorem scattered_reproducible :
    Proper scattered ∧ Relisted scattered rescattered ∧
    (∀ path, walk path rescattered = walk path scattered) ∧
    (∃ found : List (List String × List UInt8),
      (found.map Prod.fst).Nodup ∧
      (∀ names bytes, (names, bytes) ∈ found ↔ Holds scattered names bytes ∧ LeadsToSource names) ∧
      ∀ path, (sources (walk path scattered)).Perm
        (found.map fun file => sourceAt path file.1 file.2)) ∧
    ∀ (world : World) (backend : Backend) (path : Option String),
      world.files.root = .folder scattered →
      Command.analyse { world with files := { world.files with root := .folder rescattered } }
        backend path = Command.analyse world backend path := by
  have proper : Proper scattered := by
    refine ⟨by decide, fun name inner member => ?_⟩
    obtain ⟨rfl, rfl⟩ : name = "a" ∧ inner = [("X.java", .file []), ("notes.txt", .file [])] := by
      simpa [scattered] using member
    exact ⟨by decide, fun name inner member => by simp at member⟩
  have relisted : Relisted scattered rescattered :=
    .trans (.swap _ _ _) (.inside "a" (.swap _ _ _) (.swap _ _ _))
  exact ⟨proper, relisted, walk_reproducible proper relisted⟩

end FileTree

end MethodFlow
