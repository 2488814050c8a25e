import MethodFlow.Proofs.Text.Utf8
import MethodFlow.Proofs.Text.Words
import MethodFlow.Tree.Node

/-!
The texts of nodes. A node stands between two positions among the bytes of its source. If they are
the offsets of two positions among the characters, the node has the text between these, whatever
characters the source is made of (`node_texts`).
-/
namespace MethodFlow.Tree

open Text

namespace Node

/-- A node that stands between two positions among the characters of its source. -/
structure Covers (node : Node) (source : List Char) (first last : Nat) : Prop where
  start : node.start = Utf8.byteOffset source first
  stop : node.stop = Utf8.byteOffset source last

structure HasParentheses (node opening closing : Node) : Prop where
  opens : opening.kind = "("
  closes : closing.kind = ")"
  first : ∃ before after, node.children = before ++ opening :: after ∧
    ∀ child ∈ before, child.kind ≠ "("
  last : ∃ before after, node.children = before ++ closing :: after ∧
    ∀ child ∈ after, child.kind ≠ ")"

variable {node opening closing : Node}

theorem HasParentheses.opening_eq (parentheses : node.HasParentheses opening closing) :
    node.childOfKind? ["("] = some opening := by
  obtain ⟨before, after, children, none⟩ := parentheses.first
  rw [childOfKind?, List.find?_eq_some_iff_append]
  refine ⟨by simp [parentheses.opens], before, after, children, fun child member => ?_⟩
  simpa using none child member

theorem HasParentheses.closing_eq (parentheses : node.HasParentheses opening closing) :
    (node.children.reverse.find? fun child => child.kind == ")") = some closing := by
  obtain ⟨before, after, children, none⟩ := parentheses.last
  rw [List.find?_eq_some_iff_append]
  refine ⟨by simp [parentheses.closes], after.reverse, before.reverse, ?_, fun child member => ?_⟩
  · simp [children]
  · simpa using none child (List.mem_reverse.mp member)

theorem Covers.chars_eq {source : List Char} {first last : Nat}
    (covers : node.Covers source first last) :
    node.chars (Utf8.encode source) = (source.take last).drop first := by
  rw [chars, covers.start, covers.stop, Utf8.between_byteOffset]

theorem HasParentheses.parenthesized?_eq (parentheses : node.HasParentheses opening closing)
    (bytes : List UInt8) :
    node.parenthesized? bytes =
      let inside := Utf8.between bytes opening.stop closing.start
      if inside.all isBlank then none else some (collapse inside) := by
  have nothing (text : List Char) : (collapse text).isEmpty = text.all isBlank := by
    rw [Bool.eq_iff_iff, List.isEmpty_iff, List.all_eq_true]
    exact collapse_eq_nil_iff text
  rw [parenthesized?, parentheses.opening_eq, parentheses.closing_eq]
  simp only [nothing]

end Node

/-- The text of a node, and the text between its parentheses, are parts of the source. -/
theorem node_texts (source : String) (first last : Nat) :
    let text := source.toList
    let part := (text.take last).drop first
    (∀ node : Node, node.Covers text first last →
      node.text (Utf8.encode text) = String.ofList part) ∧
    ∀ node opening closing : Node, node.HasParentheses opening closing →
      opening.stop = Utf8.byteOffset text first → closing.start = Utf8.byteOffset text last →
      node.parenthesized? (Utf8.encode text) =
        if part.all isBlank then none else some (collapse part) := by
  intro text part
  constructor
  · intro node covers
    rw [Node.text, covers.chars_eq]
  · intro node opening closing parentheses opens closes
    rw [parentheses.parenthesized?_eq, opens, closes, Utf8.between_byteOffset]

def mixedWidths : String :=
  "fé(\t∑  <😀 )"

def mixedNode (kind : String) (start stop : Int) (children : List Node) : Node :=
  { kind, named := true, start, stop, row := 0, field := none, children }

theorem mixedWidths_texts :
    let bytes := Utf8.encode mixedWidths.toList
    let inside := mixedNode "comparison" 4 16 []
    let list := mixedNode "for_statement" 0 17
      [mixedNode "(" 3 4 [], inside, mixedNode ")" 16 17 []]
    inside.Covers mixedWidths.toList 3 10 ∧ inside.text bytes = "\t∑  <😀 " ∧
      list.HasParentheses (mixedNode "(" 3 4 []) (mixedNode ")" 16 17 []) ∧
      list.parenthesized? bytes = some "∑ <😀".toList := by
  intro bytes inside list
  obtain ⟨text, parenthesized⟩ := node_texts mixedWidths 3 10
  have starts : 4 = Utf8.byteOffset mixedWidths.toList 3 := by decide +kernel
  have stops : 16 = Utf8.byteOffset mixedWidths.toList 10 := by decide +kernel
  have covers : inside.Covers mixedWidths.toList 3 10 :=
    ⟨congrArg Int.ofNat starts, congrArg Int.ofNat stops⟩
  have parentheses : list.HasParentheses (mixedNode "(" 3 4 []) (mixedNode ")" 16 17 []) :=
    ⟨rfl, rfl, ⟨[], _, rfl, by simp⟩, ⟨[_, _], [], rfl, by simp⟩⟩
  have between := parenthesized list _ _ parentheses covers.start covers.stop
  refine ⟨covers, (text inside covers).trans (by decide +kernel), parentheses, ?_⟩
  exact between.trans (by decide +kernel)

end MethodFlow.Tree
