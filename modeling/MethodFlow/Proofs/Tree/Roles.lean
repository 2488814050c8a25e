import MethodFlow.Proofs.Tree.Sites
import Mathlib.Data.List.Pairwise

/-!
The children of a node by their roles: in which order they are looked at, what follows for the order
of what is below them, and which fields they are found in.
-/
namespace MethodFlow.Tree.Node

/-- That what comes after something is something else and not part of its header. -/
def InOrder (node : Node) (root earlier later : Address) : Prop :=
  ∀ address, later = root ++ address → earlier ≠ later ∧ earlier ∉ node.headersTo root address

section Order

variable {node child : Node} {root earlier later : Address} {number : Nat}

theorem ne_root_of_below (below : root ++ [number] <+: later) : later ≠ root := by
  intro same
  have longer := below.length_le
  rw [same, List.length_append, List.length_singleton] at longer
  omega

theorem ne_of_apart {other : Nat} (different : other ≠ number)
    (earlierBelow : root ++ [other] <+: earlier) (laterBelow : root ++ [number] <+: later) :
    earlier ≠ later := by
  intro same
  obtain ⟨rest, rfl⟩ := earlierBelow
  obtain ⟨laterRest, rfl⟩ := laterBelow
  simp only [List.append_assoc, List.append_cancel_left_eq, List.singleton_append,
    List.cons.injEq] at same
  exact different same.1

theorem inOrder_self (below : root ++ [number] <+: earlier) : node.InOrder root earlier root := by
  intro address here
  obtain rfl : address = [] := by simpa using here
  exact ⟨ne_root_of_below below, List.not_mem_nil⟩

variable (there : node.children[number]? = some child) (laterBelow : root ++ [number] <+: later)

include there laterBelow

/-- To be in the header of something below a node is to be so at the node itself or below the child
on the way. -/
theorem inOrder_of_child (different : earlier ≠ later)
    (here : node.role number = .header → earlier ≠ root)
    (below : ∀ rest, later = root ++ [number] ++ rest →
      earlier ∉ child.headersTo (root ++ [number]) rest) : node.InOrder root earlier later := by
  intro address located
  refine ⟨different, ?_⟩
  obtain ⟨rest, laterBelow⟩ := laterBelow
  obtain rfl : address = number :: rest := by
    rw [located, List.append_assoc] at laterBelow
    exact (List.append_cancel_left laterBelow).symm
  rw [headersTo, along_cons _ there, List.mem_append, not_or]
  refine ⟨?_, below rest laterBelow.symm⟩
  split
  · next header => simpa using here header
  · exact List.not_mem_nil

theorem inOrder_below (earlierBelow : root ++ [number] <+: earlier)
    (ordered : child.InOrder (root ++ [number]) earlier later) :
    node.InOrder root earlier later := by
  obtain ⟨rest, rfl⟩ := laterBelow
  apply inOrder_of_child there (List.prefix_append _ _) (ordered rest rfl).1
  · exact fun _ => ne_root_of_below earlierBelow
  · exact fun rest located => (ordered rest located).2

theorem inOrder_apart {other : Nat} (different : other ≠ number)
    (earlierBelow : root ++ [other] <+: earlier) : node.InOrder root earlier later := by
  apply inOrder_of_child there laterBelow (ne_of_apart different earlierBelow laterBelow)
  · exact fun _ => ne_root_of_below earlierBelow
  · intro rest _ member
    exact ne_of_apart different earlierBelow (prefix_of_mem_headersTo member) rfl

theorem inOrder_root (other : node.role number ≠ .header) : node.InOrder root root later := by
  apply inOrder_of_child there laterBelow (ne_root_of_below laterBelow).symm
  · exact fun header => absurd header other
  · intro rest _ member
    exact ne_root_of_below (prefix_of_mem_headersTo member) rfl

end Order

def inRole (node : Node) (role : Role) : List (Node × Nat) :=
  node.children.zipIdx.filter fun child => node.role child.2 = role

theorem mem_inRole {node : Node} {role : Role} {child : Node × Nat} :
    child ∈ node.inRole role ↔ child ∈ node.children.zipIdx ∧ node.role child.2 = role := by
  simp [inRole]

def before (node : Node) : List (Node × Nat) :=
  node.inRole .header

def after (node : Node) : List (Node × Nat) :=
  [Role.body .whenTrue, .body .whenFalse, .body .repeated, .other].flatMap node.inRole

theorem mem_children_iff {node : Node} {child : Node × Nat} : child ∈ node.children.zipIdx ↔
    child ∈ node.before ∨ child ∈ node.after ∨ child ∈ node.inRole .apart := by
  simp only [before, after, List.flatMap_cons, List.flatMap_nil, List.append_nil, List.mem_append,
    mem_inRole]
  rcases node.role child.2 with _ | (_ | _ | _) | _ | _ <;> simp

theorem pairwise_zipIdx {α : Type} (list : List α) (first : Nat) :
    (list.zipIdx first).Pairwise fun one other => one.2 ≠ other.2 := by
  induction list generalizing first with
  | nil => exact .nil
  | cons item list ih =>
      rw [List.zipIdx_cons, List.pairwise_cons]
      refine ⟨fun other member => ?_, ih (first + 1)⟩
      have later := List.le_snd_of_mem_zipIdx member
      change first ≠ other.2
      omega

theorem before_after_distinct (node : Node) :
    (node.before ++ node.after).Pairwise fun one other => one.2 ≠ other.2 := by
  let roles : List Role :=
    [.header, .body .whenTrue, .body .whenFalse, .body .repeated, .other]
  have visited : node.before ++ node.after = roles.flatMap node.inRole := rfl
  rw [visited, List.pairwise_flatMap]
  constructor
  · exact fun role _ => (pairwise_zipIdx node.children 0).filter _
  · have apart : roles.Nodup := by decide
    refine apart.imp fun different one inOne other inOther same => different ?_
    rw [← (mem_inRole.mp inOne).2, ← (mem_inRole.mp inOther).2, same]

theorem role_of_mem_after {node : Node} {child : Node × Nat} (member : child ∈ node.after) :
    node.role child.2 ≠ .header := by
  obtain ⟨role, later, inRole⟩ := List.mem_flatMap.mp member
  rw [(mem_inRole.mp inRole).2]
  rintro rfl
  exact absurd later (by decide)

theorem quiet_of_apart {bytes : List UInt8} {node : Node} (shaped : node.isShaped bytes = true)
    {child : Node × Nat} (apart : child ∈ node.inRole .apart) :
    ∀ inner ∈ child.1.nodes, inner.head? bytes = none := by
  obtain ⟨member, role⟩ := mem_inRole.mp apart
  rw [isShaped, Bool.and_eq_true, List.all_eq_true] at shaped
  have quiet := shaped.2 child member
  simpa [role] using quiet

theorem filter_zipIdx_findIdx? {α : Type} (isWanted : α → Bool) (list : List α) (start : Nat) :
    let isFirst := fun item : α × Nat =>
      (list.findIdx? isWanted).map (· + start) == some item.2
    (list.zipIdx start).filter isFirst =
        ((list.zipIdx start).find? fun item => isWanted item.1).toList ∧
      ((list.zipIdx start).filter fun item => !isFirst item) =
        (list.zipIdx start).eraseP fun item => isWanted item.1 := by
  induction list generalizing start with
  | nil => exact ⟨rfl, rfl⟩
  | cons item list ih =>
      intro isFirst
      rw [List.zipIdx_cons]
      cases wanted : isWanted item with
      | true =>
          have first : isFirst = fun item => start == item.2 := by
            funext item
            simp [isFirst, List.findIdx?_cons, wanted]
          -- All further items have greater numbers, so none of them is taken for the first.
          have later : ∀ other ∈ list.zipIdx (start + 1), isFirst other = false := by
            intro other member
            have above := List.le_snd_of_mem_zipIdx member
            rw [first, beq_eq_false_iff_ne]
            omega
          have none : (list.zipIdx (start + 1)).filter isFirst = [] :=
            List.filter_eq_nil_iff.mpr fun other member => by simp [later other member]
          have all : ((list.zipIdx (start + 1)).filter fun item => !isFirst item) =
              list.zipIdx (start + 1) :=
            List.filter_eq_self.mpr fun other member => by simp [later other member]
          have here : isFirst (item, start) = true := by simp [first]
          simp [here, none, all, wanted]
      | false =>
          have first : isFirst = fun item =>
              (list.findIdx? isWanted).map (· + (start + 1)) == some item.2 := by
            funext item
            simp [isFirst, List.findIdx?_cons, wanted, Function.comp_def, Nat.add_assoc,
              Nat.add_comm 1]
          have elsewhere : isFirst (item, start) = false := by
            rw [first]
            cases list.findIdx? isWanted with
            | none => rfl
            | some number => simpa using (by omega : ¬number + (start + 1) = start)
          obtain ⟨found, others⟩ := ih (start + 1)
          rw [← first] at found others
          simp [elsewhere, wanted, found, others]

theorem filter_holds (node : Node) (field : String) :
    (node.children.zipIdx.filter fun child => node.holds field child.2) =
      (node.children.zipIdx.find? fun child => child.1.field == some field).toList := by
  have found := filter_zipIdx_findIdx? (fun child : Node => child.field == some field)
    node.children 0
  simpa only [holds, Nat.add_zero, Option.map_id', id_eq] using found.1

theorem filter_not_holds (node : Node) (field : String) :
    (node.children.zipIdx.filter fun child => !node.holds field child.2) =
      node.children.zipIdx.eraseP fun child => child.1.field == some field := by
  have found := filter_zipIdx_findIdx? (fun child : Node => child.field == some field)
    node.children 0
  simpa only [holds, Nat.add_zero, Option.map_id', id_eq] using found.2

variable {node : Node}

theorem holds_unique {field other : String} {number : Nat} (held : node.holds field number = true)
    (heldOther : node.holds other number = true) : field = other := by
  simp only [holds, beq_iff_eq, List.findIdx?_eq_some_iff_getElem] at held heldOther
  obtain ⟨_, inField, -⟩ := held
  obtain ⟨_, inOther, -⟩ := heldOther
  exact Option.some.inj (inField.symm.trans inOther)

/-- That a field is the one place of a role at nodes of a kind. -/
abbrev IsSlot (kind field : String) (role : Role) : Prop :=
  (field, role) ∈ slots kind ∧ role ≠ elsewhere kind ∧
    ∀ slot ∈ slots kind, slot.1 = field ↔ slot.2 = role

theorem role_eq_iff_holds {field : String} {role : Role} (isSlot : IsSlot node.kind field role)
    (number : Nat) : node.role number = role ↔ node.holds field number = true := by
  obtain ⟨listed, different, only⟩ := isSlot
  unfold Node.role
  split
  · next slot found =>
      have held := List.find?_some found
      rw [← only slot (List.mem_of_find?_eq_some found)]
      constructor
      · intro same
        rwa [same] at held
      · exact holds_unique held
  · next missing =>
      have free := List.find?_eq_none.mp missing (field, role) listed
      exact ⟨fun same => absurd same.symm different, fun held => absurd held free⟩

/-- That at nodes of a kind one field has a role of its own, and all other children another one. -/
abbrev IsOnlySlot (kind field : String) (role rest : Role) : Prop :=
  slots kind = [(field, role)] ∧ elsewhere kind = rest ∧ role ≠ rest

theorem role_eq_iff_not_holds {field : String} {role rest : Role}
    (isOnlySlot : IsOnlySlot node.kind field role rest) (number : Nat) :
    node.role number = rest ↔ (!node.holds field number) = true := by
  obtain ⟨only, rfl, different⟩ := isOnlySlot
  rw [Node.role, only]
  cases held : node.holds field number with
  | true => simpa [held] using different
  | false => simp [held]

abbrev IsUnused (kind : String) (role : Role) : Prop :=
  role ≠ elsewhere kind ∧ ∀ slot ∈ slots kind, slot.2 ≠ role

theorem role_ne {role : Role} (unused : IsUnused node.kind role) (number : Nat) :
    node.role number ≠ role := by
  unfold Node.role
  split
  · next slot found => exact unused.2 slot (List.mem_of_find?_eq_some found)
  · exact unused.1.symm

theorem inRole_eq_filter {role : Role} (isIn : Nat → Bool)
    (same : ∀ number, node.role number = role ↔ isIn number = true) :
    node.inRole role = node.children.zipIdx.filter fun child => isIn child.2 := by
  refine List.filter_congr fun child _ => ?_
  rw [Bool.eq_iff_iff, decide_eq_true_iff]
  exact same child.2

end MethodFlow.Tree.Node
