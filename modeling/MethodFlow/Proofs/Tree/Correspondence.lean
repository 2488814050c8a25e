import MethodFlow.Proofs.Tree.Roles
import Mathlib.Tactic.Choose

/-!
Statements and the nodes they were read from. The statements below a node, at all depths, are those
that its tree has by address, each once and with the same bodies around it.
-/
namespace MethodFlow.Tree

/-- A statement with the address of the node it was read from. -/
inductive Located where
  | call (address : Address) (name : String) (line : Int) (receiver : Option String)
  | branch (address : Address) (condition : String) (line : Int) (whenTrue whenFalse : List Located)
  | loop (address : Address) (kind : LoopKind) (condition : String) (line : Int)
      (repeated : List Located)

namespace Located

mutual

def statement : Located → Statement
  | call _ name line receiver => .call name line receiver
  | branch _ condition line whenTrue whenFalse =>
    .branch condition line (statementsOf whenTrue) (statementsOf whenFalse)
  | loop _ kind condition line repeated => .loop kind condition line (statementsOf repeated)

def statementsOf : List Located → List Statement
  | [] => []
  | first :: rest => first.statement :: statementsOf rest

end

mutual

def sites (bodies : Bodies) : Located → List Site
  | call address name line receiver => [⟨bodies, address, .call name line receiver⟩]
  | branch address condition line whenTrue whenFalse =>
    ⟨bodies, address, .branch condition line⟩ ::
      (sitesOf (bodies ++ [(address, .whenTrue)]) whenTrue ++
        sitesOf (bodies ++ [(address, .whenFalse)]) whenFalse)
  | loop address kind condition line repeated =>
    ⟨bodies, address, .loop kind condition line⟩ ::
      sitesOf (bodies ++ [(address, .repeated)]) repeated

def sitesOf (bodies : Bodies) : List Located → List Site
  | [] => []
  | first :: rest => first.sites bodies ++ sitesOf bodies rest

end

theorem statementsOf_eq (list : List Located) : statementsOf list = list.map statement := by
  induction list with
  | nil => rfl
  | cons first rest ih => rw [statementsOf, ih, List.map_cons]

theorem sitesOf_eq (bodies : Bodies) (list : List Located) :
    sitesOf bodies list = list.flatMap (sites bodies) := by
  induction list with
  | nil => rfl
  | cons first rest ih => rw [sitesOf, ih, List.flatMap_cons]

end Located

structure Renders (bytes : List UInt8) (root : Address) (node : Node) (list : List Located) :
    Prop where
  walked : statements bytes node = .ok (list.map Located.statement)
  sites : ∀ bodies site, site ∈ list.flatMap (Located.sites bodies) ↔
    node.IsSite bytes bodies root site
  ordered : ∀ bodies, ((list.flatMap (Located.sites bodies)).map Site.address).Pairwise
    (node.InOrder root)

section Children

variable {bytes : List UInt8} {root : Address} {node : Node} {located : Node × Nat → List Located}

def sitesBelow (located : Node × Nat → List Located) (root : Address) (node : Node)
    (bodies : Bodies) (child : Node × Nat) : List Site :=
  (located child).flatMap (Located.sites (bodies ++ (node.role child.2).entered root))

/-- The sites at and below a node: its own between those that come before and after it. -/
def sitesAround (bytes : List UInt8) (located : Node × Nat → List Located) (root : Address)
    (node : Node) (bodies : Bodies) : List Site :=
  node.before.flatMap (sitesBelow located root node bodies) ++ node.ownSites bytes bodies root ++
    node.after.flatMap (sitesBelow located root node bodies)

variable (rendered : ∀ child ∈ node.children.zipIdx,
  Renders bytes (root ++ [child.2]) child.1 (located child))

include rendered

theorem prefix_of_mem_sitesBelow {bodies : Bodies} {child : Node × Nat}
    (member : child ∈ node.children.zipIdx) {address : Address}
    (below : address ∈ (sitesBelow located root node bodies child).map Site.address) :
    root ++ [child.2] <+: address := by
  obtain ⟨site, stands, rfl⟩ := List.mem_map.mp below
  exact (((rendered child member).sites _ site).mp stands).prefix_address

theorem sitesBelow_ordered (bodies : Bodies) {list : List (Node × Nat)}
    (known : ∀ child ∈ list, child ∈ node.children.zipIdx)
    (distinct : list.Pairwise fun one other => one.2 ≠ other.2) :
    ((list.flatMap (sitesBelow located root node bodies)).map Site.address).Pairwise
      (node.InOrder root) := by
  rw [List.map_flatMap, List.pairwise_flatMap]
  constructor
  · intro child member
    have there := List.mem_zipIdx_iff_getElem?.mp (known child member)
    have below {address} := @prefix_of_mem_sitesBelow _ _ _ _ rendered bodies child
      (known child member) address
    refine ((rendered child (known child member)).ordered _).imp_of_mem ?_
    intro earlier later inEarlier inLater ordered
    exact Node.inOrder_below there (below inLater) (below inEarlier) ordered
  · refine distinct.imp_of_mem fun inOne inOther different earlier inEarlier later inLater => ?_
    have there := List.mem_zipIdx_iff_getElem?.mp (known _ inOther)
    exact Node.inOrder_apart there (prefix_of_mem_sitesBelow rendered (known _ inOther) inLater)
      different (prefix_of_mem_sitesBelow rendered (known _ inOne) inEarlier)

theorem mem_sitesAround (shaped : node.isShaped bytes = true) {bodies : Bodies} {site : Site} :
    site ∈ sitesAround bytes located root node bodies ↔ node.IsSite bytes bodies root site := by
  have atChild : ∀ child ∈ node.children.zipIdx, site ∈ sitesBelow located root node bodies child ↔
      child.1.IsSite bytes (bodies ++ (node.role child.2).entered root) (root ++ [child.2]) site :=
    fun child member => (rendered child member).sites _ site
  rw [sitesAround, Node.isSite_iff, List.mem_append, List.mem_append, List.mem_flatMap,
    List.mem_flatMap]
  constructor
  · rintro ((⟨child, visited, below⟩ | own) | ⟨child, visited, below⟩)
    · have member := Node.mem_children_iff.mpr (.inl visited)
      exact .inr ⟨child, member, (atChild child member).mp below⟩
    · exact .inl own
    · have member := Node.mem_children_iff.mpr (.inr (.inl visited))
      exact .inr ⟨child, member, (atChild child member).mp below⟩
  · rintro (own | ⟨child, member, below⟩)
    · exact .inl (.inr own)
    · rcases Node.mem_children_iff.mp member with visited | visited | apart
      · exact .inl (.inl ⟨child, visited, (atChild child member).mpr below⟩)
      · exact .inr ⟨child, visited, (atChild child member).mpr below⟩
      · exact absurd below (Node.not_isSite_of_nodes (Node.quiet_of_apart shaped apart))

theorem sitesAround_ordered (bodies : Bodies) :
    ((sitesAround bytes located root node bodies).map Site.address).Pairwise
      (node.InOrder root) := by
  have known : ∀ child ∈ node.before ++ node.after, child ∈ node.children.zipIdx := by
    intro child member
    rcases List.mem_append.mp member with visited | visited
    · exact Node.mem_children_iff.mpr (.inl visited)
    · exact Node.mem_children_iff.mpr (.inr (.inl visited))
  have ordered := sitesBelow_ordered rendered bodies known node.before_after_distinct
  rw [List.flatMap_append, List.map_append, List.pairwise_append] at ordered
  obtain ⟨before, after, between⟩ := ordered
  have own : ∀ address ∈ (node.ownSites bytes bodies root).map Site.address, address = root := by
    intro address member
    obtain ⟨site, stands, rfl⟩ := List.mem_map.mp member
    exact (Node.mem_ownSites.mp stands).2.1
  have alone : ((node.ownSites bytes bodies root).map Site.address).Pairwise
      (node.InOrder root) := by
    rw [Node.ownSites]
    cases node.head? bytes <;> simp
  rw [sitesAround, List.map_append, List.map_append, List.pairwise_append, List.pairwise_append]
  refine ⟨⟨before, alone, ?_⟩, after, ?_⟩
  -- The node itself is below none of its children, so it comes after any of them.
  · intro earlier inEarlier later inLater
    rw [own later inLater]
    rw [List.map_flatMap] at inEarlier
    obtain ⟨child, visited, below⟩ := List.mem_flatMap.mp inEarlier
    have member := known child (List.mem_append_left _ visited)
    exact Node.inOrder_self (prefix_of_mem_sitesBelow rendered member below)
  · intro earlier inEarlier later inLater
    rcases List.mem_append.mp inEarlier with inBefore | inOwn
    · exact between earlier inBefore later inLater
    · rw [own earlier inOwn]
      rw [List.map_flatMap] at inLater
      obtain ⟨child, visited, below⟩ := List.mem_flatMap.mp inLater
      have member := known child (List.mem_append_right _ visited)
      exact Node.inOrder_root (List.mem_zipIdx_iff_getElem?.mp member)
        (prefix_of_mem_sitesBelow rendered member below) (Node.role_of_mem_after visited)

end Children

theorem statements_eq (bytes : List UInt8) (node : Node) :
    statements bytes node = combine bytes node (parts bytes node.children) := by
  cases node
  rw [statements]

theorem parts_eq (bytes : List UInt8) (children : List Node) :
    parts bytes children = children.map fun child => ⟨child, statements bytes child⟩ := by
  induction children with
  | nil => rfl
  | cons child children ih => rw [parts, ih, List.map_cons]

theorem parts_eq_zipIdx (bytes : List UInt8) (children : List Node) : parts bytes children =
    children.zipIdx.map fun child => ⟨child.1, statements bytes child.1⟩ := by
  have numbered := List.zipIdx_map_fst 0 children
  calc
    parts bytes children = (children.zipIdx.map Prod.fst).map fun child =>
        ⟨child, statements bytes child⟩ := by rw [numbered, parts_eq]
    _ = children.zipIdx.map fun child => ⟨child.1, statements bytes child.1⟩ := List.map_map

theorem part?_node (bytes : List UInt8) (node : Node) (field : String) :
    (part? (parts bytes node.children) field).map Part.node = node.child? field := by
  rw [parts_eq, part?, List.find?_map, Option.map_map]
  exact Option.map_id'

theorem invocation_eq (bytes : List UInt8) (node : Node) :
    invocation bytes node (parts bytes node.children) = do
      let before ← below (parts bytes node.children) "object"
      let after ← below (parts bytes node.children) "arguments"
      let calls := (node.child? "name").elim [] fun name =>
        callUnlessFramework (name.chars bytes) ((node.child? "object").map (Node.chars bytes))
          node.line
      return before ++ calls ++ after := by
  rw [← part?_node bytes, ← part?_node bytes, Option.map_map, invocation]
  cases part? (parts bytes node.children) "name" <;> rfl

theorem creation_eq (bytes : List UInt8) (node : Node) :
    creation bytes node (parts bytes node.children) = do
      let calls := (node.child? "type").elim [] fun type =>
        callUnlessFramework (simpleName (type.chars bytes)) none node.line
      return calls ++ (← belowOthers (parts bytes node.children) "type") := by
  rw [← part?_node bytes, creation]
  cases part? (parts bytes node.children) "type" <;> rfl

theorem conditionText?_parts (bytes : List UInt8) (node : Node) :
    conditionText? bytes (parts bytes node.children) =
      (node.child? "condition").map fun child => stripParentheses (child.chars bytes) := by
  rw [← part?_node bytes, Option.map_map]
  rfl

theorem exists_calls (root : Address) (named : Option Node) (name : Node → List Char)
    (receiver : Option (List Char)) (line : Int) : ∃ calls : List Located,
      (named.elim [] fun node => callUnlessFramework (name node) receiver line) =
        calls.map Located.statement ∧
      ∀ bodies, calls.flatMap (Located.sites bodies) =
        (named.bind fun node => Node.callHead? (name node) receiver line).toList.map
          fun head => ⟨bodies, root, head⟩ := by
  cases named with
  | none => exact ⟨[], rfl, fun _ => rfl⟩
  | some node =>
      rw [Option.elim_some, Option.bind_some, callUnlessFramework, Node.callHead?]
      split
      · exact ⟨[], rfl, fun _ => rfl⟩
      · exact ⟨[.call root _ line _], rfl, fun _ => rfl⟩

section Kinds

variable {bytes : List UInt8} {root : Address} {node : Node} {located : Node × Nat → List Located}

def locatedIn (located : Node × Nat → List Located) (node : Node) (role : Role) : List Located :=
  (node.inRole role).flatMap located

theorem flatMap_sitesBelow_inRole (bodies : Bodies) (role : Role) :
    (node.inRole role).flatMap (sitesBelow located root node bodies) =
      (locatedIn located node role).flatMap (Located.sites (bodies ++ role.entered root)) := by
  rw [locatedIn, List.flatMap_assoc]
  refine List.flatMap_congr fun child member => ?_
  rw [sitesBelow, (Node.mem_inRole.mp member).2]

theorem locatedIn_unused {roles : List Role}
    (unused : ∀ role ∈ roles, Node.IsUnused node.kind role) :
    ∀ role ∈ roles, locatedIn located node role = [] := by
  intro role listed
  have none : node.inRole role = [] := List.filter_eq_nil_iff.mpr fun child _ => by
    simpa using Node.role_ne (unused role listed) child.2
  rw [locatedIn, none, List.flatMap_nil]

variable (rendered : ∀ child ∈ node.children.zipIdx,
  Renders bytes (root ++ [child.2]) child.1 (located child))

include rendered

theorem belowAll_map (children : List (Node × Nat))
    (known : ∀ child ∈ children, child ∈ node.children.zipIdx) :
    belowAll (children.map fun child => ⟨child.1, statements bytes child.1⟩) =
      .ok ((children.flatMap located).map Located.statement) := by
  have each : (children.map fun child => Part.mk child.1 (statements bytes child.1)).mapM
      Part.statements = .ok (children.map fun child => (located child).map Located.statement) := by
    induction children with
    | nil => rfl
    | cons child children ih =>
        have first := (rendered child (known child List.mem_cons_self)).walked
        have rest := ih fun child member => known child (List.mem_cons_of_mem _ member)
        simp [first, rest, bind, Except.bind, pure, Except.pure]
  rw [belowAll, each, List.map_flatMap, List.flatMap_def]
  rfl

theorem below_slot {field : String} {role : Role} (isSlot : Node.IsSlot node.kind field role) :
    below (parts bytes node.children) field =
      .ok ((locatedIn located node role).map Located.statement) := by
  rw [locatedIn, Node.inRole_eq_filter (node.holds field) (Node.role_eq_iff_holds isSlot),
    Node.filter_holds, below, part?, parts_eq_zipIdx, List.find?_map]
  change ((Option.map _ (node.children.zipIdx.find? fun child =>
    child.1.field == some field)).map Part.statements).getD (.ok []) = _
  cases found : node.children.zipIdx.find? fun child => child.1.field == some field with
  | none => rfl
  | some child =>
      have walked := (rendered child (List.mem_of_find?_eq_some found)).walked
      simpa using walked

theorem belowOthers_slot {field : String} {role rest : Role}
    (isOnlySlot : Node.IsOnlySlot node.kind field role rest) :
    belowOthers (parts bytes node.children) field =
      .ok ((locatedIn located node rest).map Located.statement) := by
  rw [locatedIn, Node.inRole_eq_filter (fun number => !node.holds field number)
    (Node.role_eq_iff_not_holds isOnlySlot), Node.filter_not_holds, belowOthers, parts_eq_zipIdx,
    List.eraseP_map]
  exact belowAll_map rendered _ fun child member => List.mem_of_mem_eraseP member

theorem belowAll_no_slots (none : Node.slots node.kind = []) :
    belowAll (parts bytes node.children) =
      .ok ((locatedIn located node (Node.elsewhere node.kind)).map Located.statement) := by
  have all : node.inRole (Node.elsewhere node.kind) = node.children.zipIdx :=
    List.filter_eq_self.mpr fun child _ => by simp [Node.role, none]
  rw [locatedIn, all, parts_eq_zipIdx]
  exact belowAll_map rendered _ fun _ member => member

/-- A node gives its statements if its own stands between those of its header and those of its
bodies and other children. -/
theorem Renders.of_roles (shaped : node.isShaped bytes = true) {list : List Located}
    (walked : statements bytes node = .ok (list.map Located.statement))
    (unrolled : ∀ bodies, list.flatMap (Located.sites bodies) =
      (locatedIn located node .header).flatMap (Located.sites bodies) ++
        node.ownSites bytes bodies root ++
        ((locatedIn located node (.body .whenTrue)).flatMap
            (Located.sites (bodies ++ [(root, .whenTrue)])) ++
          (locatedIn located node (.body .whenFalse)).flatMap
            (Located.sites (bodies ++ [(root, .whenFalse)])) ++
          (locatedIn located node (.body .repeated)).flatMap
            (Located.sites (bodies ++ [(root, .repeated)])) ++
          (locatedIn located node .other).flatMap (Located.sites bodies))) :
    Renders bytes root node list := by
  have around (bodies : Bodies) : list.flatMap (Located.sites bodies) =
      sitesAround bytes located root node bodies := by
    rw [unrolled]
    simp only [sitesAround, Node.before, Node.after, List.flatMap_cons, List.flatMap_nil,
      List.flatMap_append, flatMap_sitesBelow_inRole, Role.entered, List.append_nil,
      List.append_assoc]
  refine ⟨walked, fun bodies site => ?_, fun bodies => ?_⟩
  · rw [around]
    exact mem_sitesAround rendered shaped
  · rw [around]
    exact sitesAround_ordered rendered bodies

theorem renders_invocation (kind : node.kind = "method_invocation")
    (shaped : node.isShaped bytes = true) : ∃ list, Renders bytes root node list := by
  have object := below_slot rendered
    (by rw [kind]; decide : Node.IsSlot node.kind "object" .header)
  have arguments := below_slot rendered
    (by rw [kind]; decide : Node.IsSlot node.kind "arguments" .other)
  have never := @locatedIn_unused node located
    [.body .whenTrue, .body .whenFalse, .body .repeated] (by rw [kind]; decide)
  have own : node.head? bytes = (node.child? "name").bind fun name =>
      Node.callHead? (name.chars bytes) ((node.child? "object").map (Node.chars bytes))
        node.line := by
    simp only [Node.head?, kind]
  have combined : combine bytes node (parts bytes node.children) =
      invocation bytes node (parts bytes node.children) := by
    simp only [combine, kind]
  obtain ⟨calls, called, stand⟩ := exists_calls root (node.child? "name") (Node.chars bytes)
    ((node.child? "object").map (Node.chars bytes)) node.line
  refine ⟨locatedIn located node .header ++ calls ++ locatedIn located node .other,
    .of_roles rendered shaped ?_ fun bodies => ?_⟩
  · rw [statements_eq, combined, invocation_eq, object, arguments, called]
    simp [bind, Except.bind, pure, Except.pure]
  · simp [never, Node.ownSites, own, stand]

theorem renders_creation (kind : node.kind = "object_creation_expression")
    (shaped : node.isShaped bytes = true) : ∃ list, Renders bytes root node list := by
  have others := belowOthers_slot rendered
    (by rw [kind]; decide : Node.IsOnlySlot node.kind "type" .apart .other)
  have never := @locatedIn_unused node located
    [.header, .body .whenTrue, .body .whenFalse, .body .repeated] (by rw [kind]; decide)
  have own : node.head? bytes = (node.child? "type").bind fun type =>
      Node.callHead? (simpleName (type.chars bytes)) none node.line := by
    simp only [Node.head?, kind]
  have combined : combine bytes node (parts bytes node.children) =
      creation bytes node (parts bytes node.children) := by
    simp only [combine, kind]
  obtain ⟨calls, called, stand⟩ := exists_calls root (node.child? "type")
    (fun type => simpleName (type.chars bytes)) none node.line
  refine ⟨calls ++ locatedIn located node .other, .of_roles rendered shaped ?_ fun bodies => ?_⟩
  · rw [statements_eq, combined, creation_eq, others, called]
    simp [bind, Except.bind, pure, Except.pure]
  · simp [never, Node.ownSites, own, stand]

theorem renders_branch (kind : node.kind = "if_statement")
    (shaped : node.isShaped bytes = true) : ∃ list, Renders bytes root node list := by
  have condition := below_slot rendered
    (by rw [kind]; decide : Node.IsSlot node.kind "condition" .header)
  have consequence := below_slot rendered
    (by rw [kind]; decide : Node.IsSlot node.kind "consequence" (.body .whenTrue))
  have alternative := below_slot rendered
    (by rw [kind]; decide : Node.IsSlot node.kind "alternative" (.body .whenFalse))
  have never := @locatedIn_unused node located [.body .repeated, .other] (by rw [kind]; decide)
  obtain ⟨child, given⟩ : ∃ child, node.child? "condition" = some child := by
    simpa [Node.isShaped, kind, Option.isSome_iff_exists] using (Bool.and_eq_true_iff.mp shaped).1
  have own : node.head? bytes =
      some (.branch (orElse (node.condition bytes) "condition") node.line) := by
    simp only [Node.head?, kind]
  have combined : combine bytes node (parts bytes node.children) =
      branching bytes node (parts bytes node.children) := by
    simp only [combine, kind]
  refine ⟨locatedIn located node .header ++
    [.branch root (orElse (node.condition bytes) "condition") node.line
      (locatedIn located node (.body .whenTrue)) (locatedIn located node (.body .whenFalse))],
    .of_roles rendered shaped ?_ fun bodies => ?_⟩
  · rw [statements_eq, combined, branching, condition, consequence, alternative,
      conditionText?_parts]
    simp [bind, Except.bind, pure, Except.pure, given, Node.condition, Located.statement,
      Located.statementsOf_eq]
  · simp [never, Node.ownSites, own, Located.sites, Located.sitesOf_eq]

theorem renders_loop (shaped : node.isShaped bytes = true) {loop : LoopKind} {condition : String}
    (walked : statements bytes node =
      .ok ((locatedIn located node .header).map Located.statement ++ [.loop loop condition node.line
        ((locatedIn located node (.body .repeated)).map Located.statement)]))
    (own : node.head? bytes = some (.loop loop condition node.line))
    (unused : ∀ role ∈ [Role.body .whenTrue, .body .whenFalse, .other],
      Node.IsUnused node.kind role) : ∃ list, Renders bytes root node list := by
  have never := @locatedIn_unused node located _ unused
  refine ⟨locatedIn located node .header ++ [.loop root loop condition node.line
    (locatedIn located node (.body .repeated))], .of_roles rendered shaped ?_ fun bodies => ?_⟩
  · rw [walked]
    simp [Located.statement, Located.statementsOf_eq]
  · simp [never, Node.ownSites, own, Located.sites, Located.sitesOf_eq]

theorem renders_counting
    (kind : node.kind = "for_statement" ∨ node.kind = "enhanced_for_statement")
    (shaped : node.isShaped bytes = true) : ∃ list, Renders bytes root node list := by
  have header := belowOthers_slot rendered
    (by rcases kind with kind | kind <;> rw [kind] <;> decide :
      Node.IsOnlySlot node.kind "body" (.body .repeated) .header)
  have body := below_slot rendered
    (by rcases kind with kind | kind <;> rw [kind] <;> decide :
      Node.IsSlot node.kind "body" (.body .repeated))
  have combined : combine bytes node (parts bytes node.children) =
      counting bytes node (parts bytes node.children) := by
    rcases kind with kind | kind <;> simp only [combine, kind]
  apply renders_loop rendered shaped
  · rw [statements_eq, combined, counting, header, body]
    rfl
  · rcases kind with kind | kind <;> simp only [Node.head?, kind]
  · rcases kind with kind | kind <;> rw [kind] <;> decide

theorem renders_looping {loop : LoopKind}
    (kind : node.kind = "while_statement" ∧ loop = .whileLoop ∨
      node.kind = "do_statement" ∧ loop = .doWhile)
    (shaped : node.isShaped bytes = true) : ∃ list, Renders bytes root node list := by
  have header := below_slot rendered
    (by rcases kind with ⟨kind, -⟩ | ⟨kind, -⟩ <;> rw [kind] <;> decide :
      Node.IsSlot node.kind "condition" .header)
  have body := below_slot rendered
    (by rcases kind with ⟨kind, -⟩ | ⟨kind, -⟩ <;> rw [kind] <;> decide :
      Node.IsSlot node.kind "body" (.body .repeated))
  have combined : combine bytes node (parts bytes node.children) =
      looping bytes loop node (parts bytes node.children) := by
    rcases kind with ⟨kind, rfl⟩ | ⟨kind, rfl⟩ <;> simp only [combine, kind]
  apply renders_loop rendered shaped
  · rw [statements_eq, combined, looping, header, body, conditionText?_parts]
    rfl
  · rcases kind with ⟨kind, rfl⟩ | ⟨kind, rfl⟩ <;> simp only [Node.head?, kind] <;> rfl
  · rcases kind with ⟨kind, -⟩ | ⟨kind, -⟩ <;> rw [kind] <;> decide

theorem renders_other
    (combined : combine bytes node (parts bytes node.children) =
      belowAll (parts bytes node.children))
    (own : node.head? bytes = none) (none : Node.slots node.kind = [])
    (other : Node.elsewhere node.kind = .other) (shaped : node.isShaped bytes = true) :
    ∃ list, Renders bytes root node list := by
  have never := @locatedIn_unused node located
    [.header, .body .whenTrue, .body .whenFalse, .body .repeated]
    (by simp [Node.IsUnused, none, other])
  have all := belowAll_no_slots rendered none
  rw [other] at all
  refine ⟨locatedIn located node .other, .of_roles rendered shaped ?_ fun bodies => ?_⟩
  · rw [statements_eq, combined, all]
  · simp [never, Node.ownSites, own]

theorem renders_node (shaped : node.isShaped bytes = true) :
    ∃ list, Renders bytes root node list := by
  by_cases isInvocation : node.kind = "method_invocation"
  · exact renders_invocation rendered isInvocation shaped
  by_cases isCreation : node.kind = "object_creation_expression"
  · exact renders_creation rendered isCreation shaped
  by_cases isBranch : node.kind = "if_statement"
  · exact renders_branch rendered isBranch shaped
  by_cases isFor : node.kind = "for_statement"
  · exact renders_counting rendered (.inl isFor) shaped
  by_cases isEnhancedFor : node.kind = "enhanced_for_statement"
  · exact renders_counting rendered (.inr isEnhancedFor) shaped
  by_cases isWhile : node.kind = "while_statement"
  · exact renders_looping rendered (.inl ⟨isWhile, rfl⟩) shaped
  by_cases isDo : node.kind = "do_statement"
  · exact renders_looping rendered (.inr ⟨isDo, rfl⟩) shaped
  apply renders_other rendered _ _ _ _ shaped
  · unfold combine
    split <;> first | rfl | contradiction
  · unfold Node.head?
    split <;> first | rfl | contradiction
  · unfold Node.slots
    split <;> first | rfl | contradiction
  · unfold Node.elsewhere
    split <;> first | rfl | contradiction

end Kinds

theorem exists_renders (bytes : List UInt8) (node : Node)
    (shaped : ∀ inner ∈ node.nodes, inner.isShaped bytes = true) (root : Address) :
    ∃ list, Renders bytes root node list := by
  induction node using Node.induct generalizing root with
  | step node ih =>
      rw [Node.nodes_eq] at shaped
      have each : ∀ child ∈ node.children.zipIdx,
          ∃ list, Renders bytes (root ++ [child.2]) child.1 list := by
        intro child member
        have known : child.1 ∈ node.children := List.fst_mem_of_mem_zipIdx member
        apply ih child.1 known
        intro inner below
        exact shaped inner (List.mem_cons_of_mem _ (List.mem_flatMap.mpr ⟨child.1, known, below⟩))
      -- The statements of the children are fixed first: the node only puts them together.
      choose! located rendered using each
      exact renders_node rendered (shaped node List.mem_cons_self)

/-- The statements below a node are those of its tree. By their addresses they are, at all depths,
the nodes that stand for statements, each once, in the bodies that are around the node; and what is
in a header or receiver comes before the statement that it belongs to. -/
theorem statements_located (bytes : List UInt8) (body : Node)
    (shaped : body.nodes.all (Node.isShaped bytes) = true) :
    ∃ located : List Located,
      statements bytes body = .ok (located.map Located.statement) ∧
      (∀ site, site ∈ located.flatMap (Located.sites []) ↔
        ∃ node, body.at? site.address = some node ∧ node.head? bytes = some site.head ∧
          site.bodies = body.bodiesTo [] site.address) ∧
      ((located.flatMap (Located.sites [])).map Site.address).Nodup ∧
      ((located.flatMap (Located.sites [])).map Site.address).Pairwise fun earlier later =>
        earlier ∉ body.headersTo [] later := by
  obtain ⟨located, rendered⟩ := exists_renders bytes body (List.all_eq_true.mp shaped) []
  have ordered := rendered.ordered []
  refine ⟨located, rendered.walked, fun site => ?_, ?_, ?_⟩
  · rw [rendered.sites]
    constructor
    · rintro ⟨address, node, found, head, here, enclosed⟩
      obtain rfl : site.address = address := here
      exact ⟨node, found, head, enclosed⟩
    · rintro ⟨node, found, head, enclosed⟩
      exact ⟨site.address, node, found, head, rfl, enclosed⟩
  · exact ordered.imp fun ordered => (ordered _ rfl).1
  · exact ordered.imp fun ordered => (ordered _ rfl).2

/-- The tree of a branch with a call in the arguments of a call in its condition, and with a loop
for its other body that has a call in its header. -/
def nestedBranch : Node :=
  let node (kind : String) (start stop : Int) (field : Option String) (children : List Node) :=
    Node.mk kind true start stop 0 field children
  let call (start : Int) (field : Option String) : Node :=
    node "method_invocation" start (start + 3) field
      [node "identifier" start (start + 1) "name" [],
        node "argument_list" (start + 1) (start + 3) "arguments" []]
  node "if_statement" 0 42 none
    [node "if" 0 2 none [],
      node "parenthesized_expression" 2 12 "condition"
        [node "method_invocation" 3 11 none
          [node "identifier" 3 4 "object" [], node "identifier" 5 6 "name" [],
            node "argument_list" 6 11 "arguments" [call 7 none]]],
      node "expression_statement" 12 23 "consequence"
        [node "object_creation_expression" 12 22 none
          [node "type_identifier" 16 17 "type" [],
            node "argument_list" 17 22 "arguments" [call 18 none]]],
      node "else" 23 27 none [],
      node "for_statement" 28 42 "alternative"
        [node "(" 31 32 none [], call 32 "init", node ")" 37 38 none [],
          node "expression_statement" 38 42 "body" [call 38 none]]]

def nestedBranchText : List UInt8 :=
  "if(a.b(c()))new D(e());else for(f();;)g();".toList.map fun c => c.toNat.toUInt8

theorem nestedBranch_located :
    nestedBranch.nodes.all (Node.isShaped nestedBranchText) = true ∧
    ∃ located : List Located,
      statements nestedBranchText nestedBranch = .ok (located.map Located.statement) ∧
      ((located.flatMap (Located.sites [])).map Site.address).Nodup ∧
      ⟨[], [1, 0, 2, 0], .call "c" 1 none⟩ ∈ located.flatMap (Located.sites []) ∧
      ⟨[([], .whenTrue)], [2, 0], .call "D" 1 none⟩ ∈ located.flatMap (Located.sites []) ∧
      ⟨[([], .whenFalse)], [4, 1], .call "f" 1 none⟩ ∈ located.flatMap (Located.sites []) ∧
      ⟨[([], .whenFalse), ([4], .repeated)], [4, 3, 0], .call "g" 1 none⟩ ∈
        located.flatMap (Located.sites []) := by
  have shaped : nestedBranch.nodes.all (Node.isShaped nestedBranchText) = true := by decide +kernel
  obtain ⟨located, walked, sites, distinct, -⟩ :=
    statements_located nestedBranchText nestedBranch shaped
  refine ⟨shaped, located, walked, distinct, ?_, ?_, ?_, ?_⟩
  all_goals exact (sites _).mpr ⟨_, rfl, by decide +kernel, by decide +kernel⟩

end MethodFlow.Tree
