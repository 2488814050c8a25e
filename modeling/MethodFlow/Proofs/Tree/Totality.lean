import MethodFlow.Proofs.Flow.Drawing
import MethodFlow.Proofs.Tree.Correspondence
import MethodFlow.Tree.Classes

/-!
That the classes of a tree can be had. All that is asked of the tree is that its branches have
conditions; the statements that are read then are supported at every depth.
-/
namespace MethodFlow

namespace Statement

def Supported (list : List Statement) : Prop :=
  areSupported list = true

theorem supported_iff {list : List Statement} :
    Supported list ↔ ∀ statement ∈ list, statement.isSupported = true := by
  unfold Supported
  induction list with
  | nil => simp [areSupported]
  | cons first rest ih => rw [areSupported, Bool.and_eq_true, ih, List.forall_mem_cons]

theorem supported_append {first second : List Statement} :
    Supported (first ++ second) ↔ Supported first ∧ Supported second := by
  rw [supported_iff, supported_iff, supported_iff, List.forall_mem_append]

theorem supported_flatten {lists : List (List Statement)}
    (each : ∀ list ∈ lists, Supported list) : Supported lists.flatten := by
  rw [supported_iff]
  intro statement member
  obtain ⟨list, listed, inList⟩ := List.mem_flatten.mp member
  exact supported_iff.mp (each list listed) statement inList

end Statement

def ClassDecl.IsSupported (cls : ClassDecl) : Prop :=
  ∀ method ∈ cls.methods, Statement.Supported method.statements

namespace Tree

open Statement

section Combining

variable {bytes : List UInt8} {node : Node} {parts : List Part}

theorem callUnlessFramework_supported (name : List Char) (receiver : Option (List Char))
    (line : Int) : Supported (callUnlessFramework name receiver line) := by
  unfold callUnlessFramework
  split <;> rfl

variable (each : ∀ part ∈ parts, Yields Supported part.statements)

include each

theorem below_yields (field : String) : Yields Supported (below parts field) := by
  unfold below
  cases found : part? parts field with
  | none => exact .ok rfl
  | some part => exact each part (List.mem_of_find?_eq_some found)

theorem belowAll_yields : Yields Supported (belowAll parts) :=
  (Yields.mapM each).map fun _ => supported_flatten

theorem belowOthers_yields (field : String) : Yields Supported (belowOthers parts field) :=
  belowAll_yields fun part member => each part (List.mem_of_mem_eraseP member)

theorem invocation_yields : Yields Supported (invocation bytes node parts) := by
  apply (below_yields each "object").bind
  intro before beforeSupported
  apply (below_yields each "arguments").bind
  intro after afterSupported
  refine .ok (supported_append.mpr ⟨supported_append.mpr ⟨beforeSupported, ?_⟩, afterSupported⟩)
  split
  · exact callUnlessFramework_supported _ _ _
  · rfl

theorem creation_yields : Yields Supported (creation bytes node parts) := by
  apply (belowOthers_yields each "type").bind
  intro others othersSupported
  refine .ok (supported_append.mpr ⟨?_, othersSupported⟩)
  split
  · exact callUnlessFramework_supported _ _ _
  · rfl

theorem branching_yields (conditioned : (conditionText? bytes parts).isSome) :
    Yields Supported (branching bytes node parts) := by
  apply (below_yields each "condition").bind
  intro before beforeSupported
  obtain ⟨condition, found⟩ := Option.isSome_iff_exists.mp conditioned
  rw [found]
  apply (below_yields each "consequence").bind
  intro whenTrue trueSupported
  apply (below_yields each "alternative").bind
  intro whenFalse falseSupported
  refine .ok (supported_append.mpr ⟨beforeSupported, ?_⟩)
  simpa [Supported, areSupported, isSupported] using ⟨trueSupported, falseSupported⟩

theorem counting_yields : Yields Supported (counting bytes node parts) := by
  apply (belowOthers_yields each "body").bind
  intro before beforeSupported
  apply (below_yields each "body").bind
  intro body bodySupported
  refine .ok (supported_append.mpr ⟨beforeSupported, ?_⟩)
  simpa [Supported, areSupported, isSupported] using bodySupported

theorem looping_yields (kind : LoopKind) : Yields Supported (looping bytes kind node parts) := by
  apply (below_yields each "condition").bind
  intro before beforeSupported
  apply (below_yields each "body").bind
  intro body bodySupported
  refine .ok (supported_append.mpr ⟨beforeSupported, ?_⟩)
  simpa [Supported, areSupported, isSupported] using bodySupported

theorem combine_yields
    (conditioned : node.kind = "if_statement" → (conditionText? bytes parts).isSome) :
    Yields Supported (combine bytes node parts) := by
  unfold combine
  split
  · exact invocation_yields each
  · exact creation_yields each
  · next kind => exact branching_yields each (conditioned kind)
  · exact counting_yields each
  · exact counting_yields each
  · exact looping_yields each .whileLoop
  · exact looping_yields each .doWhile
  · exact belowAll_yields each

end Combining

/-- That the branches at and below a node have conditions. -/
def Node.IsConditioned (node : Node) : Prop :=
  ∀ inner ∈ node.nodes, inner.kind = "if_statement" → (inner.child? "condition").isSome

theorem Node.IsConditioned.child {node child : Node} (conditioned : node.IsConditioned)
    (member : child ∈ node.children) : child.IsConditioned := by
  intro inner below
  apply conditioned inner
  rw [nodes_eq]
  exact List.mem_cons_of_mem _ (List.mem_flatMap.mpr ⟨child, member, below⟩)

theorem Node.IsConditioned.child? {node child : Node} (conditioned : node.IsConditioned)
    {field : String} (found : node.child? field = some child) : child.IsConditioned :=
  conditioned.child (List.mem_of_find?_eq_some found)

theorem statements_yields (bytes : List UInt8) {node : Node} (conditioned : node.IsConditioned) :
    Yields Supported (statements bytes node) := by
  induction node using Node.induct with
  | step node ih =>
      rw [statements_eq]
      apply combine_yields
      · rw [parts_eq]
        intro part member
        obtain ⟨child, known, rfl⟩ := List.mem_map.mp member
        exact ih child known (conditioned.child known)
      · intro kind
        rw [conditionText?_parts, Option.isSome_map]
        exact conditioned node (by rw [Node.nodes_eq]; exact List.mem_cons_self) kind

theorem method_yields (bytes : List UInt8) (className : String) {node : Node}
    (conditioned : node.IsConditioned) :
    Yields (fun method => Supported method.statements) (method bytes className node) := by
  have body : Yields Supported (((node.child? "body").map (statements bytes)).getD (.ok [])) := by
    cases found : node.child? "body" with
    | none => exact .ok rfl
    | some body => exact statements_yields bytes (conditioned.child? found)
  apply body.bind
  intro statements supported
  exact .ok supported

theorem Node.IsConditioned.members {node member : Node} (conditioned : node.IsConditioned)
    (inside : member ∈ members node) : member.IsConditioned := by
  unfold Tree.members at inside
  cases found : node.child? "body" with
  | none => simp [found] at inside
  | some body =>
      rw [found] at inside
      obtain ⟨child, named, below⟩ := List.mem_flatMap.mp inside
      have known := (conditioned.child? found).child (List.mem_of_mem_filter named)
      split at below
      · exact known.child (List.mem_of_mem_filter below)
      · exact List.mem_singleton.mp below ▸ known

theorem classDecl_yields (bytes : List UInt8) (place : Place) (name : String) {node : Node}
    (conditioned : node.IsConditioned) :
    Yields ClassDecl.IsSupported (classDecl bytes place name node) := by
  have each : ∀ member ∈ (members node).filter fun member => methodKinds.contains member.kind,
      Yields (fun method => Supported method.statements) (method bytes name member) :=
    fun member found =>
      method_yields bytes name (conditioned.members (List.mem_of_mem_filter found))
  apply (Yields.mapM each).bind
  intro methods supported
  exact .ok supported

theorem classAt?_yields (bytes : List UInt8) (place : Place) {node : Node}
    (conditioned : node.IsConditioned) :
    Yields (fun found => ∀ cls ∈ found, cls.IsSupported) (classAt? bytes place node) := by
  unfold classAt?
  split
  · apply (classDecl_yields bytes place _ conditioned).map
    intro cls supported found member
    obtain rfl := Option.some.inj member
    exact supported
  · exact .ok fun _ member => nomatch member

mutual

theorem classes_yields (bytes : List UInt8) (place : Place) : ∀ {node : Node},
    node.IsConditioned → Yields (∀ cls ∈ ·, ClassDecl.IsSupported cls) (classes bytes place node)
  | ⟨kind, named, start, stop, row, field, children⟩, conditioned => by
      rw [classes]
      apply (classAt?_yields bytes place conditioned).bind
      intro found supported
      cases found with
      | none => exact .none
      | some cls =>
          apply (classesInBody_yields bytes place children fun child => conditioned.child).bind
          intro inner innerSupported
          exact .ok (List.forall_mem_cons.mpr ⟨supported cls rfl, innerSupported⟩)

theorem classesInBody_yields (bytes : List UInt8) (place : Place) : ∀ nodes : List Node,
    (∀ node ∈ nodes, node.IsConditioned) →
      Yields (∀ cls ∈ ·, ClassDecl.IsSupported cls) (classesInBody bytes place nodes)
  | [], _ => .none
  | ⟨kind, named, start, stop, row, field, children⟩ :: rest, conditioned => by
      rw [List.forall_mem_cons] at conditioned
      rw [classesInBody]
      split
      · exact classesAmongMembers_yields bytes place children fun child => conditioned.1.child
      · exact classesInBody_yields bytes place rest conditioned.2

theorem classesAmongMembers_yields (bytes : List UInt8) (place : Place) : ∀ nodes : List Node,
    (∀ node ∈ nodes, node.IsConditioned) →
      Yields (∀ cls ∈ ·, ClassDecl.IsSupported cls) (classesAmongMembers bytes place nodes)
  | [], _ => .none
  | ⟨kind, named, start, stop, row, field, children⟩ :: rest, conditioned => by
      rw [List.forall_mem_cons] at conditioned
      rw [classesAmongMembers]
      have later := classesAmongMembers_yields bytes place rest conditioned.2
      split
      · exact Yields.none.append later
      · split
        · exact (classesAmong_yields bytes place children fun child =>
            conditioned.1.child).append later
        · exact (classes_yields bytes place conditioned.1).append later

theorem classesAmong_yields (bytes : List UInt8) (place : Place) : ∀ nodes : List Node,
    (∀ node ∈ nodes, node.IsConditioned) →
      Yields (∀ cls ∈ ·, ClassDecl.IsSupported cls) (classesAmong bytes place nodes)
  | [], _ => .none
  | node :: rest, conditioned => by
      rw [List.forall_mem_cons] at conditioned
      rw [classesAmong]
      have later := classesAmong_yields bytes place rest conditioned.2
      split
      · exact (classes_yields bytes place conditioned.1).append later
      · exact Yields.none.append later

end

theorem extract_yields (file : Option String) (source : String) {root : Node}
    (conditioned : root.IsConditioned) :
    Yields (∀ cls ∈ ·, ClassDecl.IsSupported cls) (extract file source root) :=
  classesAmong_yields _ _ root.children fun _ => conditioned.child

end Tree
end MethodFlow
