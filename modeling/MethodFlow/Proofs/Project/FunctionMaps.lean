import MethodFlow.Flow.Trace
import MethodFlow.Proofs.Project.Entries
import Mathlib.Data.List.Dedup
import Mathlib.Data.List.Induction

/-!
Maps of declared methods. A full name stands where it came first and has the statements of the
method that came last, and the map of two lists of classes is that of the first, overridden by that
of the second (`ofClasses_laws`). A call goes to the first dotted full name whose method it names,
or else to the full name without a dot that it gives itself (`callee?_first`).
-/
namespace MethodFlow.FunctionMap

section Inserting

variable {key : String} {statements : List Statement}

theorem keys_insertEntry (entries : List (String × List Statement)) :
    (insertEntry key statements entries).map Prod.fst =
      if key ∈ entries.map Prod.fst then entries.map Prod.fst
      else entries.map Prod.fst ++ [key] := by
  induction entries with
  | nil => rfl
  | cons entry entries ih =>
      rw [insertEntry]
      by_cases same : entry.1 = key
      · simp [same]
      · rw [if_neg same, List.map_cons, ih, List.map_cons]
        by_cases listed : key ∈ entries.map Prod.fst
        · rw [if_pos listed, if_pos (List.mem_cons_of_mem _ listed)]
        · have apart : key ∉ entry.1 :: entries.map Prod.fst := by
            rw [List.mem_cons, not_or]
            exact ⟨Ne.symm same, listed⟩
          rw [if_neg listed, if_neg apart, List.cons_append]

theorem lookup_entry (name : String) (entry : String × List Statement)
    (entries : List (String × List Statement)) :
    (entry :: entries).lookup name =
      if name = entry.1 then some entry.2 else entries.lookup name := by
  obtain ⟨key, statements⟩ := entry
  by_cases same : name = key
  · simp [same]
  · rw [List.lookup_cons, beq_eq_false_iff_ne.mpr same, if_neg same]

theorem lookup_insertEntry (name : String) (entries : List (String × List Statement)) :
    (insertEntry key statements entries).lookup name =
      if name = key then some statements else entries.lookup name := by
  induction entries with
  | nil => rw [insertEntry, lookup_entry]
  | cons entry entries ih =>
      rw [insertEntry]
      by_cases same : entry.1 = key
      · by_cases asked : name = key <;> simp [lookup_entry, same, asked]
      · rw [if_neg same, lookup_entry, lookup_entry, ih]
        by_cases asked : name = entry.1 <;> simp [asked, same]

theorem insertEntry_append_of_mem {entries : List (String × List Statement)}
    (listed : key ∈ entries.map Prod.fst) (more : List (String × List Statement)) :
    insertEntry key statements (entries ++ more) =
      insertEntry key statements entries ++ more := by
  induction entries with
  | nil => cases listed
  | cons entry entries ih =>
      rw [List.cons_append, insertEntry, insertEntry]
      by_cases same : entry.1 = key
      · rw [if_pos same, if_pos same, List.cons_append]
      · have later : key ∈ entries.map Prod.fst :=
          (List.mem_cons.mp listed).resolve_left (Ne.symm same)
        rw [if_neg same, if_neg same, ih later, List.cons_append]

theorem insertEntry_append_of_not_mem {entries : List (String × List Statement)}
    (unlisted : key ∉ entries.map Prod.fst) (more : List (String × List Statement)) :
    insertEntry key statements (entries ++ more) =
      entries ++ insertEntry key statements more := by
  induction entries with
  | nil => rfl
  | cons entry entries ih =>
      rw [List.map_cons, List.mem_cons, not_or] at unlisted
      rw [List.cons_append, insertEntry, if_neg (Ne.symm unlisted.1), ih unlisted.2,
        List.cons_append]

theorem insertEntry_of_nodup {entries : List (String × List Statement)}
    (nodup : (entries.map Prod.fst).Nodup) (listed : key ∈ entries.map Prod.fst) :
    insertEntry key statements entries =
      entries.map fun entry => if entry.1 = key then (key, statements) else entry := by
  induction entries with
  | nil => cases listed
  | cons entry entries ih =>
      obtain ⟨apart, nodup⟩ := List.nodup_cons.mp nodup
      rw [insertEntry, List.map_cons]
      by_cases same : entry.1 = key
      · have others :
            entries.map (fun entry => if entry.1 = key then (key, statements) else entry) =
              entries.map id := by
          apply List.map_congr_left
          intro other member
          exact if_neg fun again => apart (List.mem_map.mpr ⟨other, member, again.trans same.symm⟩)
        rw [if_pos same, if_pos same, others, List.map_id]
      · have later : key ∈ entries.map Prod.fst :=
          (List.mem_cons.mp listed).resolve_left (Ne.symm same)
        rw [if_neg same, if_neg same, ih nodup later]

theorem filter_insertEntry (keep : String → Bool) (entries : List (String × List Statement)) :
    (insertEntry key statements entries).filter (fun entry => keep entry.1) =
      if keep key then insertEntry key statements (entries.filter fun entry => keep entry.1)
      else entries.filter fun entry => keep entry.1 := by
  induction entries with
  | nil => by_cases kept : keep key <;> simp [insertEntry, kept]
  | cons entry entries ih =>
      rw [insertEntry]
      by_cases same : entry.1 = key
      · by_cases kept : keep key <;> simp [insertEntry, same, kept]
      · rw [if_neg same, List.filter_cons, ih, List.filter_cons]
        by_cases kept : keep key <;> by_cases stays : keep entry.1 <;>
          simp [insertEntry, same, kept, stays]

end Inserting

section Building

theorem ofList_concat (entries : List (String × List Statement))
    (entry : String × List Statement) :
    ofList (entries ++ [entry]) = (ofList entries).insert entry.1 entry.2 := by
  simp [ofList, List.foldl_append]

theorem keys_ofList_concat (entries : List (String × List Statement))
    (entry : String × List Statement) :
    (ofList (entries ++ [entry])).keys =
      if entry.1 ∈ (ofList entries).keys then (ofList entries).keys
      else (ofList entries).keys ++ [entry.1] := by
  rw [ofList_concat]
  exact keys_insertEntry _

theorem mem_keys_ofList (entries : List (String × List Statement)) (key : String) :
    key ∈ (ofList entries).keys ↔ key ∈ entries.map Prod.fst := by
  rw [ofList, mem_keys_foldl_insert]
  simp [keys]

theorem keys_ofList_ordered (entries : List (String × List Statement)) :
    (ofList entries).keys.Pairwise fun key later =>
      (entries.map Prod.fst).idxOf key < (entries.map Prod.fst).idxOf later := by
  induction entries using List.reverseRecOn with
  | nil => exact .nil
  | append_singleton entries entry ih =>
      have before : (ofList entries).keys.Pairwise fun key later =>
          ((entries ++ [entry]).map Prod.fst).idxOf key <
            ((entries ++ [entry]).map Prod.fst).idxOf later := by
        refine ih.imp_of_mem fun here there earlier => ?_
        rw [mem_keys_ofList] at here there
        rwa [List.map_append, List.idxOf_append_of_mem here, List.idxOf_append_of_mem there]
      rw [keys_ofList_concat]
      split
      · exact before
      · rename_i fresh
        refine List.pairwise_append.mpr ⟨before, List.pairwise_singleton _ _, ?_⟩
        intro key listed last alone
        obtain rfl := List.mem_singleton.mp alone
        rw [mem_keys_ofList] at listed fresh
        rw [List.map_append, List.idxOf_append_of_mem listed, List.idxOf_append_of_notMem fresh]
        exact Nat.lt_add_right _ (List.idxOf_lt_length_of_mem listed)

theorem keys_ofList_nodup (entries : List (String × List Statement)) :
    (ofList entries).keys.Nodup := by
  refine (keys_ofList_ordered entries).imp fun earlier same => ?_
  rw [same] at earlier
  exact Nat.lt_irrefl _ earlier

theorem get?_ofList (entries : List (String × List Statement)) (key : String) :
    (ofList entries).get? key =
      ((entries.filter fun entry => entry.1 = key).getLast?).map Prod.snd := by
  induction entries using List.reverseRecOn with
  | nil => rfl
  | append_singleton entries entry ih =>
      have found := @lookup_insertEntry entry.1 entry.2 key (ofList entries).entries
      rw [ofList_concat, List.filter_append]
      refine found.trans ?_
      by_cases same : key = entry.1
      · simp [same]
      · have other : entry.1 ≠ key := Ne.symm same
        rw [get?] at ih
        rw [if_neg same]
        simpa [other] using ih

/-- The first map with the values of the second and behind it the new keys of the second. -/
def override (first second : FunctionMap) : FunctionMap :=
  ⟨first.entries.map (fun entry => (entry.1, (second.get? entry.1).getD entry.2)) ++
    second.entries.filter fun entry => !first.contains entry.1⟩

theorem override_insert {first : FunctionMap} (nodup : first.keys.Nodup) (second : FunctionMap)
    (key : String) (statements : List Statement) :
    first.override (second.insert key statements) =
      (first.override second).insert key statements := by
  let changed := first.entries.map fun entry => (entry.1, (second.get? entry.1).getD entry.2)
  have found (name : String) : (second.insert key statements).get? name =
      if name = key then some statements else second.get? name :=
    lookup_insertEntry name second.entries
  have keys : changed.map Prod.fst = first.keys := by
    rw [List.map_map]
    rfl
  apply congrArg FunctionMap.mk
  change first.entries.map (fun entry =>
      (entry.1, ((second.insert key statements).get? entry.1).getD entry.2)) ++
        (insertEntry key statements second.entries).filter (fun entry => !first.contains entry.1) =
      insertEntry key statements
        (changed ++ second.entries.filter fun entry => !first.contains entry.1)
  rw [filter_insertEntry fun name => !first.contains name]
  by_cases listed : key ∈ first.keys
  · have known : first.contains key = true := List.contains_iff_mem.mpr listed
    rw [← keys] at nodup listed
    rw [insertEntry_append_of_mem listed, insertEntry_of_nodup nodup listed, List.map_map, known]
    congr 1
    apply List.map_congr_left
    intro entry _
    by_cases same : entry.1 = key <;> simp [found, same]
  · have unknown : first.contains key = false := by
      rw [Bool.eq_false_iff]
      exact fun known => listed (List.contains_iff_mem.mp known)
    have others : first.entries.map (fun entry =>
        (entry.1, ((second.insert key statements).get? entry.1).getD entry.2)) = changed := by
      apply List.map_congr_left
      intro entry member
      have other : entry.1 ≠ key := fun same => listed (same ▸ List.mem_map_of_mem member)
      rw [found, if_neg other]
    rw [← keys] at listed
    rw [insertEntry_append_of_not_mem listed, unknown, others]
    rfl

theorem ofList_append (entries more : List (String × List Statement)) :
    ofList (entries ++ more) = (ofList entries).override (ofList more) := by
  induction more using List.reverseRecOn with
  | nil => simp [override, ofList, get?]
  | append_singleton more entry ih =>
      rw [← List.append_assoc, ofList_concat, ih, ofList_concat,
        override_insert (keys_ofList_nodup entries)]

end Building

/-- A map of methods: each full name stands where it came first and has the statements of the method
that came last. -/
structure Gathers (map : FunctionMap) (methods : List Method) : Prop where
  listed : ∀ key, key ∈ map.keys ↔ ∃ method ∈ methods, method.fullName = key
  once : map.keys.Nodup
  ordered : map.keys.Pairwise fun key later =>
    (methods.map Method.fullName).idxOf key < (methods.map Method.fullName).idxOf later
  last : ∀ key, map.get? key =
    ((methods.filter fun method => method.fullName = key).getLast?).map Method.statements

theorem ofClasses_gathers (classes : List ClassDecl) :
    (ofClasses classes).Gathers (methodsOf classes) := by
  have names : ((methodsOf classes).map fun method => (method.fullName, method.statements)).map
      Prod.fst = (methodsOf classes).map Method.fullName := by
    rw [List.map_map]
    rfl
  refine ⟨mem_keys_ofClasses classes, keys_ofList_nodup _, ?_, fun key => ?_⟩
  · rw [← names]
    exact keys_ofList_ordered _
  · rw [ofClasses, get?_ofList, List.filter_map, List.getLast?_map, Option.map_map]
    rfl

theorem Gathers.size_iff {map : FunctionMap} {methods : List Method}
    (gathers : map.Gathers methods) :
    map.entries.length = methods.length ↔ (methods.map Method.fullName).Nodup := by
  have same : map.keys.Perm (methods.map Method.fullName).dedup := by
    rw [List.perm_ext_iff_of_nodup gathers.once (List.nodup_dedup _)]
    intro key
    rw [gathers.listed, List.mem_dedup, List.mem_map]
  have size : map.entries.length = (methods.map Method.fullName).dedup.length := by
    rw [← same.length_eq, keys, List.length_map]
  rw [size, ← List.dedup_eq_self]
  constructor
  · intro equal
    apply (List.dedup_sublist _).eq_of_length
    rw [equal, List.length_map]
  · intro equal
    rw [equal, List.length_map]

theorem ofClasses_laws (classes : List ClassDecl) :
    (ofClasses classes).Gathers (methodsOf classes) ∧
      ((ofClasses classes).entries.length = (methodsOf classes).length ↔
        ((methodsOf classes).map Method.fullName).Nodup) ∧
      ∀ others : List ClassDecl,
        ofClasses (classes ++ others) = (ofClasses classes).override (ofClasses others) := by
  refine ⟨ofClasses_gathers classes, (ofClasses_gathers classes).size_iff, fun others => ?_⟩
  rw [ofClasses, methodsOf, List.flatMap_append, List.map_append, ofList_append]
  rfl

section Names

theorem splitMethodName_undotted {fullName : String} (undotted : '.' ∉ fullName.toList) :
    splitMethodName fullName = ("Unknown", fullName) := by
  have none : fullName.toList.reverse.dropWhile (· != '.') = [] := by
    rw [List.dropWhile_eq_nil_iff]
    intro c member
    exact bne_iff_ne.mpr fun dot => undotted (dot ▸ List.mem_reverse.mp member)
  rw [splitMethodName, none]

theorem splitMethodName_dotted {fullName : String} {className method : List Char}
    (split : fullName.toList = className ++ '.' :: method) (apart : '.' ∉ method) :
    splitMethodName fullName = (String.ofList className, String.ofList method) := by
  have letters : ∀ c ∈ method.reverse, (c != '.') = true := fun c member =>
    bne_iff_ne.mpr fun dot => apart (dot ▸ List.mem_reverse.mp member)
  have reversed : fullName.toList.reverse = method.reverse ++ '.' :: className.reverse := by
    simp [split]
  obtain ⟨taken, left⟩ := @Text.span_append (· != '.') method.reverse ('.' :: className.reverse)
    letters (by simp)
  rw [splitMethodName, reversed, left, taken]
  simp

/-- A key with a class, or what stands for one, before the method of this name. -/
structure IsDottedFor (name key : String) : Prop where
  dotted : '.' ∈ key.toList
  method : (splitMethodName key).2 = name

/-- What follows the last dot of a key is a name without dots, and so a name without dots follows a
dot at the end of the key just if it follows the last one. -/
theorem namesMethod_iff {name : String} (undotted : '.' ∉ name.toList) (key : String) :
    namesMethod name key = true ↔ IsDottedFor name key := by
  rw [namesMethod, List.isSuffixOf_iff_suffix]
  constructor
  · rintro ⟨className, split⟩
    refine ⟨split ▸ List.mem_append_right className List.mem_cons_self, ?_⟩
    rw [splitMethodName_dotted split.symm undotted, String.ofList_toList]
  · rintro ⟨dotted, rfl⟩
    obtain ⟨method, className, reversed, apart⟩ :=
      List.eq_append_cons_of_mem (List.mem_reverse.mpr dotted)
    have split : key.toList = className.reverse ++ '.' :: method.reverse := by
      rw [← List.reverse_reverse key.toList, reversed]
      simp
    rw [splitMethodName_dotted split (by simpa using apart), String.toList_ofList]
    exact ⟨className.reverse, split.symm⟩

end Names

section Resolving

variable {map : FunctionMap} {name key : String} (undotted : '.' ∉ name.toList)

include undotted

theorem find?_namesMethod (keys : List String) :
    keys.find? (namesMethod name) = some key ↔
      ∃ before after, keys = before ++ key :: after ∧ IsDottedFor name key ∧
        ∀ other ∈ before, ¬IsDottedFor name other := by
  rw [List.find?_eq_some_iff_append, namesMethod_iff undotted]
  simp only [Bool.not_eq_true', ← Bool.not_eq_true, namesMethod_iff undotted]
  exact ⟨fun ⟨names, before, after, split, first⟩ => ⟨before, after, split, names, first⟩,
    fun ⟨before, after, split, names, first⟩ => ⟨names, before, after, split, first⟩⟩

theorem find?_namesMethod_eq_none (keys : List String) :
    keys.find? (namesMethod name) = none ↔ ∀ key ∈ keys, ¬IsDottedFor name key := by
  simp only [List.find?_eq_none, namesMethod_iff undotted]

theorem callee?_eq_some_iff :
    map.callee? name = some key ↔
      (∃ before after, map.keys = before ++ key :: after ∧ IsDottedFor name key ∧
        ∀ other ∈ before, ¬IsDottedFor name other) ∨
      (∀ other ∈ map.keys, ¬IsDottedFor name other) ∧ key = name ∧ name ∈ map.keys := by
  rw [callee?, Option.orElse_eq_some, find?_namesMethod undotted,
    find?_namesMethod_eq_none undotted, Option.ite_none_right_eq_some, Option.some.injEq, contains,
    List.contains_iff_mem, eq_comm (a := name), and_comm (a := name ∈ map.keys)]

theorem method_eq_iff : (splitMethodName key).2 = name ↔ IsDottedFor name key ∨ key = name := by
  by_cases dotted : '.' ∈ key.toList
  · have other : key ≠ name := fun same => undotted (same ▸ dotted)
    exact ⟨fun method => .inl ⟨dotted, method⟩,
      fun either => (either.resolve_right other).method⟩
  · rw [splitMethodName_undotted dotted]
    exact ⟨.inr, fun either => either.resolve_left fun names => dotted names.dotted⟩

theorem callee?_eq_none_iff :
    map.callee? name = none ↔ ∀ key ∈ map.keys, (splitMethodName key).2 ≠ name := by
  simp only [ne_eq, method_eq_iff undotted, not_or]
  rw [callee?, Option.orElse_eq_none, find?_namesMethod_eq_none undotted, contains]
  constructor
  · rintro ⟨undeclared, absent⟩ key listed
    refine ⟨undeclared key listed, ?_⟩
    rintro rfl
    simp [listed] at absent
  · intro apart
    have absent : name ∉ map.keys := fun listed => (apart name listed).2 rfl
    exact ⟨fun key listed => (apart key listed).1, by simp [absent]⟩

/-- What a call of a name without dots goes to: the first dotted key with that method, or else the
name itself. The method of that key is the name, and keys behind it make no difference. -/
theorem callee?_first :
    (∀ key, map.callee? name = some key ↔
      (∃ before after, map.keys = before ++ key :: after ∧ IsDottedFor name key ∧
        ∀ other ∈ before, ¬IsDottedFor name other) ∨
      (∀ other ∈ map.keys, ¬IsDottedFor name other) ∧ key = name ∧ name ∈ map.keys) ∧
    (map.callee? name = none ↔ ∀ key ∈ map.keys, (splitMethodName key).2 ≠ name) ∧
    (∀ key, map.callee? name = some key →
      (splitMethodName key).2 = name ∧ (NodeLabel.method key).name = name) ∧
    ∀ key (other : FunctionMap), map.callee? name = some key → '.' ∈ key.toList →
      map.keys <+: other.keys → other.callee? name = some key := by
  refine ⟨fun key => callee?_eq_some_iff undotted, callee?_eq_none_iff undotted, ?_, ?_⟩
  · intro key resolved
    have method : (splitMethodName key).2 = name := by
      rw [method_eq_iff undotted]
      rcases (callee?_eq_some_iff undotted).mp resolved with ⟨-, -, -, names, -⟩ | ⟨-, same, -⟩
      · exact .inl names
      · exact .inr same
    exact ⟨method, method⟩
  · rintro key other resolved dotted ⟨more, longer⟩
    rcases (callee?_eq_some_iff undotted).mp resolved with
      ⟨before, after, split, names, first⟩ | ⟨-, rfl, -⟩
    · refine (callee?_eq_some_iff undotted).mpr (.inl ⟨before, after ++ more, ?_, names, first⟩)
      rw [← longer, split, List.append_assoc, List.cons_append]
    · exact absurd dotted undotted

end Resolving

def crowdedMap : FunctionMap :=
  ofList [("walk", []), ("run", []), ("Shop.Cart.run", []), ("Shop.run", [])]

theorem crowdedMap_callee?_first :
    '.' ∉ "run".toList ∧ crowdedMap.callee? "run" = some "Shop.Cart.run" ∧
      (splitMethodName "Shop.Cart.run").2 = "run" ∧
      (crowdedMap.insert "Bank.run" []).callee? "run" = some "Shop.Cart.run" := by
  have undotted : '.' ∉ "run".toList := by decide
  obtain ⟨first, -, method, stays⟩ := @callee?_first crowdedMap "run" undotted
  have earlier : ∀ other ∈ ["walk", "run"], ¬IsDottedFor "run" other := by
    have plain : ∀ other ∈ ["walk", "run"], '.' ∉ other.toList := by decide
    exact fun other member names => plain other member names.dotted
  have resolved : crowdedMap.callee? "run" = some "Shop.Cart.run" :=
    (first _).mpr (.inl ⟨["walk", "run"], ["Shop.run"], by decide, ⟨by decide, by decide⟩, earlier⟩)
  have longer : crowdedMap.keys <+: (crowdedMap.insert "Bank.run" []).keys := by decide
  exact ⟨undotted, resolved, (method _ resolved).1, stays _ _ resolved (by decide) longer⟩

end MethodFlow.FunctionMap
