import MethodFlow.Tree.Statements
import Mathlib.Data.List.Basic

/-!
Where the statements of a syntax tree stand. A node is found by its address, some nodes stand for
statements, and what a child is to the statement of its node tells which bodies are around it. All
of this is said of the tree alone.
-/
namespace MethodFlow.Tree

/-- The way to a node from the top of a tree: the number of a child at each node. -/
abbrev Address := List Nat

inductive Head where
  | call (name : String) (line : Int) (receiver : Option String)
  | branch (condition : String) (line : Int)
  | loop (kind : LoopKind) (condition : String) (line : Int)
  deriving DecidableEq, Repr

inductive Body where
  | whenTrue
  | whenFalse
  | repeated
  deriving DecidableEq, Repr

/-- The bodies around a site, the outermost first, each with the address of its statement. -/
abbrev Bodies := List (Address × Body)

structure Site where
  bodies : Bodies
  address : Address
  head : Head
  deriving DecidableEq, Repr

inductive Role where
  /-- A receiver, a condition or the rest of a header, which is evaluated before the statement. -/
  | header
  | body (inside : Body)
  /-- What is evaluated after the statement, or does not belong to one. -/
  | other
  /-- Where no statements stand, as in the name of a call or in a type. -/
  | apart
  deriving DecidableEq, Repr

def Role.entered (address : Address) : Role → Bodies
  | .body inside => [(address, inside)]
  | _ => []

namespace Node

def at? : Node → Address → Option Node
  | node, [] => some node
  | node, number :: address =>
    match node.children[number]? with
    | some child => child.at? address
    | none => none

mutual

def nodes : Node → List Node
  | ⟨kind, named, start, stop, row, field, children⟩ =>
    ⟨kind, named, start, stop, row, field, children⟩ :: nodesOf children

def nodesOf : List Node → List Node
  | [] => []
  | child :: children => child.nodes ++ nodesOf children

end

def callHead? (name : List Char) (receiver : Option (List Char)) (line : Int) : Option Head :=
  if (CallSite.mk receiver name).isFramework then none
  else some (.call (String.ofList name) line (receiver.map String.ofList))

def condition (bytes : List UInt8) (node : Node) : List Char :=
  ((node.child? "condition").map fun child => stripParentheses (child.chars bytes)).getD []

/-- The statement that a node stands for: a call with a name, or the making of an object with a
type, that does not go to the platform, a branch or a loop. -/
def head? (bytes : List UInt8) (node : Node) : Option Head :=
  match node.kind with
  | "method_invocation" =>
    (node.child? "name").bind fun name =>
      callHead? (name.chars bytes) ((node.child? "object").map (chars bytes)) node.line
  | "object_creation_expression" =>
    (node.child? "type").bind fun type => callHead? (simpleName (type.chars bytes)) none node.line
  | "if_statement" => some (.branch (orElse (node.condition bytes) "condition") node.line)
  | "for_statement" | "enhanced_for_statement" =>
    some (.loop .forLoop (orElse ((node.parenthesized? bytes).getD []) "loop_condition") node.line)
  | "while_statement" =>
    some (.loop .whileLoop (orElse (node.condition bytes) "loop_condition") node.line)
  | "do_statement" =>
    some (.loop .doWhile (orElse (node.condition bytes) "loop_condition") node.line)
  | _ => none

def holds (node : Node) (field : String) (number : Nat) : Bool :=
  node.children.findIdx? (fun child => child.field == some field) == some number

def slots : (kind : String) → List (String × Role)
  | "method_invocation" => [("object", .header), ("arguments", .other)]
  | "object_creation_expression" => [("type", .apart)]
  | "if_statement" =>
    [("condition", .header), ("consequence", .body .whenTrue), ("alternative", .body .whenFalse)]
  | "for_statement" | "enhanced_for_statement" => [("body", .body .repeated)]
  | "while_statement" | "do_statement" => [("condition", .header), ("body", .body .repeated)]
  | _ => []

def elsewhere : (kind : String) → Role
  | "method_invocation" | "if_statement" | "while_statement" | "do_statement" => .apart
  | "for_statement" | "enhanced_for_statement" => .header
  | _ => .other

def role (node : Node) (number : Nat) : Role :=
  match (slots node.kind).find? fun slot => node.holds slot.1 number with
  | some slot => slot.2
  | none => elsewhere node.kind

/-- What is met on the way to an address, where `root` is the address of the node itself. -/
def along {α : Type} (met : Address → Role → List α) : Node → (root : Address) → Address → List α
  | _, _, [] => []
  | node, root, number :: address =>
    met root (node.role number) ++
      match node.children[number]? with
      | some child => child.along met (root ++ [number]) address
      | none => []

def bodiesTo (node : Node) (root address : Address) : Bodies :=
  node.along (fun root role => role.entered root) root address

/-- The nodes before whose statements an address is evaluated, as it is part of their headers. -/
def headersTo (node : Node) (root address : Address) : List Address :=
  node.along (fun root role => if role = .header then [root] else []) root address

/-- That a tree is as the grammar has it: a branch has a condition, and no statements stand where
none are looked for. -/
def isShaped (bytes : List UInt8) (node : Node) : Bool :=
  (node.kind != "if_statement" || (node.child? "condition").isSome) &&
    node.children.zipIdx.all fun (child, number) =>
      node.role number != .apart || child.nodes.all fun inner => (inner.head? bytes).isNone

mutual

theorem induct {P : Node → Prop}
    (step : ∀ node : Node, (∀ child ∈ node.children, P child) → P node) : ∀ node, P node
  | ⟨_, _, _, _, _, _, children⟩ => step _ (inductAll step children)

theorem inductAll {P : Node → Prop}
    (step : ∀ node : Node, (∀ child ∈ node.children, P child) → P node) :
    ∀ children : List Node, ∀ child ∈ children, P child
  | [], _, member => nomatch member
  | first :: rest, child, member =>
    (List.mem_cons.mp member).elim (fun same => same ▸ induct step first)
      (inductAll step rest child)

end

theorem nodesOf_eq (children : List Node) : nodesOf children = children.flatMap nodes := by
  induction children with
  | nil => rfl
  | cons child children ih => rw [nodesOf, ih, List.flatMap_cons]

theorem nodes_eq (node : Node) : node.nodes = node :: node.children.flatMap nodes := by
  cases node
  rw [nodes, nodesOf_eq]

theorem at?_cons {node child : Node} {number : Nat} (found : node.children[number]? = some child)
    (address : Address) : node.at? (number :: address) = child.at? address := by
  simp only [at?, found]

theorem along_cons {α : Type} (met : Address → Role → List α) {node child : Node} {number : Nat}
    (found : node.children[number]? = some child) (root address : Address) :
    node.along met root (number :: address) =
      met root (node.role number) ++ child.along met (root ++ [number]) address := by
  simp only [along, found]

theorem mem_nodes_of_at? {node inner : Node} {address : Address}
    (found : node.at? address = some inner) : inner ∈ node.nodes := by
  induction address generalizing node with
  | nil =>
      obtain rfl := Option.some.inj found
      rw [nodes_eq]
      exact List.mem_cons_self
  | cons number address ih =>
      cases there : node.children[number]? with
      | none => simp [at?, there] at found
      | some child =>
          rw [at?_cons there] at found
          rw [nodes_eq]
          exact List.mem_cons_of_mem _
            (List.mem_flatMap.mpr ⟨child, List.mem_of_getElem? there, ih found⟩)

theorem prefix_of_mem_headersTo {node : Node} {root address header : Address}
    (member : header ∈ node.headersTo root address) : root <+: header := by
  unfold headersTo at member
  induction address generalizing node root with
  | nil => cases member
  | cons number address ih =>
      rw [along] at member
      rcases List.mem_append.mp member with here | below
      · split at here
        · obtain rfl := List.mem_singleton.mp here
          exact List.prefix_rfl
        · cases here
      · split at below
        · exact (List.prefix_append root [number]).trans (ih below)
        · cases below

/-- That the statement of some node at or below this one has this site, where `root` and `bodies`
are the address of the node and the bodies around it. -/
def IsSite (bytes : List UInt8) (bodies : Bodies) (root : Address) (node : Node)
    (site : Site) : Prop :=
  ∃ address inner, node.at? address = some inner ∧ inner.head? bytes = some site.head ∧
    site.address = root ++ address ∧ site.bodies = bodies ++ node.bodiesTo root address

section Sites

variable {bytes : List UInt8} {bodies : Bodies} {root : Address} {node : Node} {site : Site}

theorem IsSite.prefix_address (isSite : IsSite bytes bodies root node site) :
    root <+: site.address := by
  obtain ⟨address, -, -, -, located, -⟩ := isSite
  exact ⟨address, located.symm⟩

theorem not_isSite_of_nodes (quiet : ∀ inner ∈ node.nodes, inner.head? bytes = none) :
    ¬IsSite bytes bodies root node site := by
  rintro ⟨address, inner, found, head, -, -⟩
  rw [quiet inner (mem_nodes_of_at? found)] at head
  cases head

def ownSites (bytes : List UInt8) (bodies : Bodies) (root : Address) (node : Node) : List Site :=
  (node.head? bytes).toList.map fun head => ⟨bodies, root, head⟩

theorem mem_ownSites : site ∈ node.ownSites bytes bodies root ↔
    node.head? bytes = some site.head ∧ site.address = root ∧ site.bodies = bodies := by
  cases site
  simp only [ownSites, List.mem_map, Option.mem_toList, Site.mk.injEq]
  constructor
  · rintro ⟨head, found, rfl, rfl, rfl⟩
    exact ⟨found, rfl, rfl⟩
  · rintro ⟨found, rfl, rfl⟩
    exact ⟨_, found, rfl, rfl, rfl⟩

theorem isSite_iff : IsSite bytes bodies root node site ↔
    site ∈ node.ownSites bytes bodies root ∨ ∃ child ∈ node.children.zipIdx,
      IsSite bytes (bodies ++ (node.role child.2).entered root) (root ++ [child.2]) child.1
        site := by
  rw [mem_ownSites]
  constructor
  · rintro ⟨address, inner, found, head, located, enclosed⟩
    cases address with
    | nil =>
        obtain rfl := Option.some.inj found
        exact .inl ⟨head, by simpa using located, by simpa [bodiesTo, along] using enclosed⟩
    | cons number address =>
        cases there : node.children[number]? with
        | none => simp [at?, there] at found
        | some child =>
            rw [at?_cons there] at found
            rw [bodiesTo, along_cons _ there, ← List.append_assoc] at enclosed
            refine .inr ⟨(child, number), List.mk_mem_zipIdx_iff_getElem?.mpr there, address, inner,
              found, head, ?_, enclosed⟩
            rw [located, List.append_assoc, List.singleton_append]
  · rintro (⟨head, located, enclosed⟩ |
      ⟨⟨child, number⟩, member, address, inner, found, head, located, enclosed⟩)
    · exact ⟨[], node, rfl, head, by simpa using located, by simpa [bodiesTo, along] using enclosed⟩
    · have there := List.mk_mem_zipIdx_iff_getElem?.mp member
      refine ⟨number :: address, inner, ?_, head, ?_, ?_⟩
      · rw [at?_cons there, found]
      · rw [located, List.append_assoc, List.singleton_append]
      · rw [bodiesTo, along_cons _ there, ← List.append_assoc]
        exact enclosed

end Sites

end Node
end MethodFlow.Tree
