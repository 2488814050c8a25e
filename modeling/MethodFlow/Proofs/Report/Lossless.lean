import MethodFlow.Proofs.Report.Tokens
import MethodFlow.Report.Wire
import Mathlib.Data.List.Basic

/-!
The printed form loses nothing: two values, or two graphs, that print alike are the same.

A value is read off the front of a longer text. Its first character tells of which kind it is, and
what follows an item says whether the list goes on, so that the text after it is known as well.
-/
namespace MethodFlow
namespace JsonValue

inductive Kind where
  | null
  | bool (value : Bool)
  | int
  | str
  | arr
  | obj
  deriving DecidableEq

def kind : JsonValue → Kind
  | .null => .null
  | .bool value => .bool value
  | .int _ => .int
  | .str _ => .str
  | .arr _ => .arr
  | .obj _ => .obj

def kindAt : Char → Kind
  | 'n' => .null
  | 't' => .bool true
  | 'f' => .bool false
  | '"' => .str
  | '[' => .arr
  | '{' => .obj
  | _ => .int

theorem kindAt_numeral {c : Char} (numeral : isNumeral c = true) : kindAt c = .int := by
  unfold kindAt
  split
  case h_7 => rfl
  all_goals exact absurd numeral (by decide)

/-- The lines between two brackets. A body starts with a comma, which is not printed. -/
def enclose (opening closing : Char) (level : Nat) : List Char → List Char
  | [] => [opening, closing]
  | _ :: body => opening :: body ++ newline level ++ [closing]

theorem renderAt_arr (level : Nat) (items : List JsonValue) :
    renderAt level (.arr items) = enclose '[' ']' level (renderItems (level + 1) items) := by
  cases items with
  | nil => rw [renderAt, renderItems, enclose]
  | cons item items =>
      rw [renderAt, renderItems]
      simp only [List.cons_append, List.append_assoc, enclose]

theorem renderAt_obj (level : Nat) (fields : List (String × JsonValue)) :
    renderAt level (.obj fields) = enclose '{' '}' level (renderFields (level + 1) fields) := by
  cases fields with
  | nil => rw [renderAt, renderFields, enclose]
  | cons field fields =>
      rw [renderAt, renderFields]
      simp only [List.cons_append, List.append_assoc, enclose]

theorem enclose_head (opening closing : Char) (level : Nat) (body : List Char) :
    ∃ text, enclose opening closing level body = opening :: text := by
  cases body with
  | nil => exact ⟨_, rfl⟩
  | cons c body => exact ⟨_, by rw [enclose, List.cons_append, List.cons_append]⟩

theorem renderAt_head (level : Nat) (value : JsonValue) :
    ∃ c text, renderAt level value = c :: text ∧ kindAt c = value.kind := by
  cases value with
  | null => exact ⟨'n', _, by rw [renderAt]; rfl, rfl⟩
  | bool value =>
      cases value with
      | false => exact ⟨'f', _, by rw [renderAt]; rfl, rfl⟩
      | true => exact ⟨'t', _, by rw [renderAt]; rfl, rfl⟩
  | int value =>
      obtain ⟨first, digits, shown, numerals⟩ := renderInt_cases value
      refine ⟨first, digits, ?_, kindAt_numeral (numerals first List.mem_cons_self)⟩
      rw [renderAt, shown]
  | str value => exact ⟨'"', _, by rw [renderAt, renderString, List.cons_append], rfl⟩
  | arr items =>
      obtain ⟨text, shown⟩ := enclose_head '[' ']' level (renderItems (level + 1) items)
      exact ⟨'[', text, by rw [renderAt_arr, shown], rfl⟩
  | obj fields =>
      obtain ⟨text, shown⟩ := enclose_head '{' '}' level (renderFields (level + 1) fields)
      exact ⟨'{', text, by rw [renderAt_obj, shown], rfl⟩

theorem kind_eq_of_append {level : Nat} {value other : JsonValue} {rest rest' : List Char}
    (same : renderAt level value ++ rest = renderAt level other ++ rest') :
    value.kind = other.kind := by
  obtain ⟨c, text, shown, tells⟩ := renderAt_head level value
  obtain ⟨d, text', shown', tells'⟩ := renderAt_head level other
  rw [shown, shown'] at same
  calc value.kind = kindAt c := tells.symm
    _ = kindAt d := congrArg kindAt (List.cons.inj same).1
    _ = other.kind := tells'

def IsListed (body : List Char) : Prop :=
  body = [] ∨ ∃ text, body = ',' :: '\n' :: text

theorem renderItems_listed (level : Nat) (items : List JsonValue) :
    IsListed (renderItems level items) := by
  cases items with
  | nil => exact .inl (by rw [renderItems])
  | cons item items =>
      refine .inr ⟨List.replicate (2 * level) ' ' ++ renderAt level item ++
        renderItems level items, ?_⟩
      rw [renderItems]
      simp only [newline, List.cons_append]

theorem renderFields_listed (level : Nat) (fields : List (String × JsonValue)) :
    IsListed (renderFields level fields) := by
  cases fields with
  | nil => exact .inl (by rw [renderFields])
  | cons field fields =>
      refine .inr ⟨List.replicate (2 * level) ' ' ++ renderString field.1 ++ [':', ' '] ++
        renderAt level field.2 ++ renderFields level fields, ?_⟩
      rw [renderFields]
      simp only [newline, List.cons_append]

theorem IsListed.endsNumber {body : List Char} (listed : IsListed body) (rest : List Char) :
    EndsNumber (body ++ '\n' :: rest) := by
  intro c member
  rcases listed with rfl | ⟨text, rfl⟩
  · cases member
    decide
  · cases member
    decide

/-- Equal bracketed texts have bodies that are equal up to where each ends. An empty body shows in
the character after the bracket. -/
theorem enclose_append_inj {opening closing : Char} {level : Nat} {body body' : List Char}
    {rest rest' : List Char} (closes : closing ≠ '\n') (listed : IsListed body)
    (listed' : IsListed body')
    (same : enclose opening closing level body ++ rest =
      enclose opening closing level body' ++ rest') :
    body ++ (newline level ++ closing :: rest) = body' ++ (newline level ++ closing :: rest') := by
  rcases listed with rfl | ⟨text, rfl⟩
  · rcases listed' with rfl | ⟨text', rfl⟩
    · simp only [enclose, List.cons_append, List.nil_append, List.cons.injEq, true_and] at same
      rw [same]
    · simp only [enclose, List.cons_append, List.nil_append, List.cons.injEq, true_and] at same
      exact absurd same.1 closes
  · rcases listed' with rfl | ⟨text', rfl⟩
    · simp only [enclose, List.cons_append, List.nil_append, List.cons.injEq, true_and] at same
      exact absurd same.1.symm closes
    · simp only [enclose, List.cons_append, List.append_assoc, List.nil_append, List.cons.injEq,
        true_and] at same
      rw [List.cons_append, List.cons_append, same]
      rfl

-- A value, its items and its fields are read off in one induction on the value.
mutual

theorem renderAt_append_inj (level : Nat) (value other : JsonValue) {rest rest' : List Char}
    (ends : EndsNumber rest) (ends' : EndsNumber rest')
    (same : renderAt level value ++ rest = renderAt level other ++ rest') :
    value = other ∧ rest = rest' := by
  have kinds := kind_eq_of_append same
  cases value with
  | null =>
      cases other with
      | null => exact ⟨rfl, List.append_cancel_left same⟩
      | _ => cases kinds
  | bool value =>
      cases other with
      | bool other =>
          obtain rfl : value = other := Kind.bool.inj kinds
          exact ⟨rfl, List.append_cancel_left same⟩
      | _ => cases kinds
  | int value =>
      cases other with
      | int other =>
          rw [renderAt, renderAt] at same
          obtain ⟨rfl, rests⟩ := renderInt_append_inj ends ends' same
          exact ⟨rfl, rests⟩
      | _ => cases kinds
  | str value =>
      cases other with
      | str other =>
          rw [renderAt, renderAt] at same
          obtain ⟨rfl, rests⟩ := renderString_append_inj same
          exact ⟨rfl, rests⟩
      | _ => cases kinds
  | arr items =>
      cases other with
      | arr others =>
          rw [renderAt_arr, renderAt_arr] at same
          have bodies := enclose_append_inj (by decide) (renderItems_listed _ items)
            (renderItems_listed _ others) same
          obtain ⟨rfl, rests⟩ := renderItems_append_inj (level + 1) items others bodies
          exact ⟨rfl, (List.cons.inj (List.append_cancel_left rests)).2⟩
      | _ => cases kinds
  | obj fields =>
      cases other with
      | obj others =>
          rw [renderAt_obj, renderAt_obj] at same
          have bodies := enclose_append_inj (by decide) (renderFields_listed _ fields)
            (renderFields_listed _ others) same
          obtain ⟨rfl, rests⟩ := renderFields_append_inj (level + 1) fields others bodies
          exact ⟨rfl, (List.cons.inj (List.append_cancel_left rests)).2⟩
      | _ => cases kinds

theorem renderItems_append_inj (level : Nat) (items others : List JsonValue)
    {rest rest' : List Char}
    (same : renderItems level items ++ '\n' :: rest = renderItems level others ++ '\n' :: rest') :
    items = others ∧ rest = rest' := by
  cases items with
  | nil =>
      cases others with
      | nil => exact ⟨rfl, (List.cons.inj (List.append_cancel_left same)).2⟩
      | cons other others =>
          rw [renderItems, renderItems] at same
          exact absurd (List.cons.inj same).1 (by decide)
  | cons item items =>
      cases others with
      | nil =>
          rw [renderItems, renderItems] at same
          exact absurd (List.cons.inj same).1 (by decide)
      | cons other others =>
          rw [renderItems, renderItems] at same
          simp only [List.cons_append, List.append_assoc, List.cons.injEq, true_and] at same
          obtain ⟨rfl, later⟩ := renderAt_append_inj level item other
            ((renderItems_listed level items).endsNumber rest)
            ((renderItems_listed level others).endsNumber rest') (List.append_cancel_left same)
          obtain ⟨rfl, rests⟩ := renderItems_append_inj level items others later
          exact ⟨rfl, rests⟩

theorem renderFields_append_inj (level : Nat) (fields others : List (String × JsonValue))
    {rest rest' : List Char}
    (same : renderFields level fields ++ '\n' :: rest =
      renderFields level others ++ '\n' :: rest') :
    fields = others ∧ rest = rest' := by
  cases fields with
  | nil =>
      cases others with
      | nil => exact ⟨rfl, (List.cons.inj (List.append_cancel_left same)).2⟩
      | cons other others =>
          rw [renderFields, renderFields] at same
          exact absurd (List.cons.inj same).1 (by decide)
  | cons field fields =>
      cases others with
      | nil =>
          rw [renderFields, renderFields] at same
          exact absurd (List.cons.inj same).1 (by decide)
      | cons other others =>
          obtain ⟨name, value⟩ := field
          obtain ⟨name', value'⟩ := other
          rw [renderFields, renderFields] at same
          simp only [List.cons_append, List.append_assoc, List.cons.injEq, true_and] at same
          obtain ⟨rfl, valued⟩ := renderString_append_inj (List.append_cancel_left same)
          simp only [List.nil_append, List.cons.injEq, true_and] at valued
          obtain ⟨rfl, later⟩ := renderAt_append_inj level value value'
            ((renderFields_listed level fields).endsNumber rest)
            ((renderFields_listed level others).endsNumber rest') valued
          obtain ⟨rfl, rests⟩ := renderFields_append_inj level fields others later
          exact ⟨rfl, rests⟩

end

theorem render_injective : Function.Injective render := by
  intro value other same
  have texts : renderAt 0 value = renderAt 0 other := String.ofList_injective same
  have ends : EndsNumber [] := fun _ member => nomatch member
  exact (renderAt_append_inj 0 value other ends ends (congrArg (· ++ []) texts)).1

theorem newline_ascii (level : Nat) : ∀ c ∈ newline level, c.toNat < 0x80 := by
  intro c member
  rcases List.mem_cons.mp member with rfl | space
  · decide
  · rw [List.eq_of_mem_replicate space]
    decide

theorem enclose_ascii {opening closing : Char} (level : Nat) {body : List Char}
    (opens : opening.toNat < 0x80) (closes : closing.toNat < 0x80)
    (inside : ∀ c ∈ body, c.toNat < 0x80) :
    ∀ c ∈ enclose opening closing level body, c.toNat < 0x80 := by
  cases body with
  | nil => exact List.forall_mem_cons.mpr ⟨opens, List.forall_mem_singleton.mpr closes⟩
  | cons comma body =>
      rw [enclose, List.cons_append, List.cons_append, List.forall_mem_cons, List.append_assoc,
        List.forall_mem_append, List.forall_mem_append]
      exact ⟨opens, (List.forall_mem_cons.mp inside).2, newline_ascii level,
        List.forall_mem_singleton.mpr closes⟩

mutual

theorem renderAt_ascii (level : Nat) (value : JsonValue) :
    ∀ c ∈ renderAt level value, c.toNat < 0x80 := by
  cases value with
  | null => simp [renderAt]
  | bool value => cases value <;> simp [renderAt]
  | int value => rw [renderAt]; exact renderInt_ascii value
  | str value => rw [renderAt]; exact renderString_ascii value
  | arr items =>
      rw [renderAt_arr]
      exact enclose_ascii level (by decide) (by decide) (renderItems_ascii (level + 1) items)
  | obj fields =>
      rw [renderAt_obj]
      exact enclose_ascii level (by decide) (by decide) (renderFields_ascii (level + 1) fields)

theorem renderItems_ascii (level : Nat) (items : List JsonValue) :
    ∀ c ∈ renderItems level items, c.toNat < 0x80 := by
  cases items with
  | nil => rw [renderItems]; exact fun _ member => nomatch member
  | cons item items =>
      rw [renderItems, List.cons_append, List.cons_append, List.forall_mem_cons,
        List.forall_mem_append, List.forall_mem_append]
      exact ⟨by decide, ⟨newline_ascii level, renderAt_ascii level item⟩,
        renderItems_ascii level items⟩

theorem renderFields_ascii (level : Nat) (fields : List (String × JsonValue)) :
    ∀ c ∈ renderFields level fields, c.toNat < 0x80 := by
  cases fields with
  | nil => rw [renderFields]; exact fun _ member => nomatch member
  | cons field fields =>
      rw [renderFields]
      simp only [List.cons_append, List.forall_mem_cons, List.forall_mem_append]
      exact ⟨by decide, ⟨⟨⟨newline_ascii level, renderString_ascii field.1⟩, by simp⟩,
        renderAt_ascii level field.2⟩, renderFields_ascii level fields⟩

end

def field? (name : String) : JsonValue → Option JsonValue
  | .obj fields => fields.lookup name
  | _ => none

@[simp]
theorem field?_obj (name : String) (fields : List (String × JsonValue)) :
    field? name (.obj fields) = fields.lookup name := rfl

end JsonValue

@[simp]
theorem lookup_optionalField (key name : String) (value : Option JsonValue) :
    (optionalField name value).lookup key = if key = name then value else none := by
  cases value with
  | none => simp [optionalField]
  | some value =>
      by_cases found : key = name
      · simp [optionalField, found]
      · simp [optionalField, List.lookup_cons, beq_eq_false_iff_ne.mpr found, found]

theorem NodeKind.label_injective : Function.Injective NodeKind.label := by
  intro kind other same
  cases kind <;> cases other <;> first | rfl | exact absurd same (by decide)

theorem EdgeKind.label_injective : Function.Injective EdgeKind.label := by
  intro kind other same
  cases kind <;> cases other <;> first | rfl | exact absurd same (by decide)

theorem LoopKind.label_injective : Function.Injective LoopKind.label := by
  intro kind other same
  cases kind <;> cases other <;> first | rfl | exact absurd same (by decide)

theorem JsonValue.map_str_injective :
    Function.Injective (Option.map JsonValue.str) :=
  Option.map_injective fun _ _ => JsonValue.str.inj

/-- A field that is left out is told apart from one that holds an empty text, since each field is
looked up by its own name. -/
theorem FlowNode.toJson_injective : Function.Injective FlowNode.toJson := by
  intro node other same
  have fields (name : String) : node.toJson.field? name = other.toJson.field? name :=
    congrArg (JsonValue.field? name) same
  have ids : node.id = other.id := by
    simpa [FlowNode.toJson, List.lookup_cons] using fields "id"
  have kinds : node.kind.label = other.kind.label := by
    simpa [FlowNode.toJson, List.lookup_cons] using fields "kind"
  have names : node.name = other.name := by
    simpa [FlowNode.toJson, List.lookup_cons] using fields "name"
  have classNames : node.className.map JsonValue.str = other.className.map .str := by
    simpa [FlowNode.toJson, List.lookup_append, List.lookup_cons] using fields "className"
  have conditions : node.condition.map JsonValue.str = other.condition.map .str := by
    simpa [FlowNode.toJson, List.lookup_append, List.lookup_cons] using fields "condition"
  have loopKinds : node.loopKind.map (fun kind => JsonValue.str kind.label) =
      other.loopKind.map fun kind => .str kind.label := by
    simpa [FlowNode.toJson, List.lookup_append, List.lookup_cons] using fields "loopKind"
  have lines : node.line.map JsonValue.int = other.line.map .int := by
    simpa [FlowNode.toJson, List.lookup_append, List.lookup_cons] using fields "line"
  have loopLabels : Function.Injective fun kind : LoopKind => JsonValue.str kind.label :=
    fun _ _ labels => LoopKind.label_injective (JsonValue.str.inj labels)
  have label : node.toNodeLabel = other.toNodeLabel := by
    rw [NodeLabel.mk.injEq]
    exact ⟨NodeKind.label_injective kinds, names, JsonValue.map_str_injective classNames,
      JsonValue.map_str_injective conditions, Option.map_injective loopLabels loopKinds,
      Option.map_injective (fun _ _ => JsonValue.int.inj) lines⟩
  rw [FlowNode.mk.injEq]
  exact ⟨label, ids⟩

theorem Edge.toJson_injective : Function.Injective Edge.toJson := by
  intro edge other same
  have fields (name : String) : edge.toJson.field? name = other.toJson.field? name :=
    congrArg (JsonValue.field? name) same
  have sources : edge.source = other.source := by
    simpa [Edge.toJson, List.lookup_cons] using fields "source"
  have targets : edge.target = other.target := by
    simpa [Edge.toJson, List.lookup_cons] using fields "target"
  have kinds : edge.kind.label = other.kind.label := by
    simpa [Edge.toJson, List.lookup_cons] using fields "kind"
  have branchLabels : edge.branchLabel.map JsonValue.str = other.branchLabel.map .str := by
    simpa [Edge.toJson, List.lookup_cons] using fields "branchLabel"
  rw [Edge.mk.injEq]
  exact ⟨sources, targets, EdgeKind.label_injective kinds,
    JsonValue.map_str_injective branchLabels⟩

theorem FlowGraph.toJson_injective : Function.Injective FlowGraph.toJson := by
  intro graph other same
  have fields (name : String) : graph.toJson.field? name = other.toJson.field? name :=
    congrArg (JsonValue.field? name) same
  have nodes : graph.nodes.map FlowNode.toJson = other.nodes.map FlowNode.toJson := by
    simpa [FlowGraph.toJson, List.lookup_cons] using fields "nodes"
  have edges : graph.edges.map Edge.toJson = other.edges.map Edge.toJson := by
    simpa [FlowGraph.toJson, List.lookup_cons] using fields "links"
  have entries : graph.entryMethod = other.entryMethod := by
    simpa [FlowGraph.toJson, List.lookup_cons] using fields "entryMethod"
  rw [FlowGraph.mk.injEq]
  exact ⟨List.map_injective_iff.mpr FlowNode.toJson_injective nodes,
    List.map_injective_iff.mpr Edge.toJson_injective edges, entries⟩

/-- Graphs that print alike are the same, and so are any two values. What is printed is ASCII. -/
theorem JsonValue.render_lossless :
    Function.Injective (fun graph : FlowGraph => graph.toJson.render) ∧
      Function.Injective JsonValue.render ∧
      ∀ value : JsonValue, ∀ c ∈ value.render.toList, c.toNat < 0x80 := by
  refine ⟨render_injective.comp FlowGraph.toJson_injective, render_injective, ?_⟩
  intro value
  rw [render, String.toList_ofList]
  exact renderAt_ascii 0 value

def FlowGraph.singleNode (className : Option String) : FlowGraph where
  nodes := [{ kind := .method, name := "run", className, id := "n0" }]
  edges := []
  entryMethod := "run"

theorem FlowGraph.render_absent_ne_empty :
    (singleNode none).toJson.render ≠ (singleNode (some "")).toJson.render := by
  intro same
  have graphs : singleNode none = singleNode (some "") := JsonValue.render_lossless.1 same
  exact absurd graphs (by decide)

end MethodFlow
