import Mutagen.Proofs.Tree.Tiling

/-!
# Nested trees

What a parser promises about the nodes of a tree: their spans are tiled, and no
node repeats the kind and the span of one above it.
-/
namespace Mutagen

/-- Every span of a tree is a range, children lie inside their parent, from left to right and
without sharing a byte, and no node has both the kind and the span of a node above it. -/
structure Node.Nested (root : Node) : Prop where
  ordered : ∀ s ∈ (Site.top root).preorder, s.span.start ≤ s.span.stop
  inside : ∀ s ∈ (Site.top root).preorder, ∀ c ∈ s.children, s.span.contains c.span = true
  apart : ∀ s ∈ (Site.top root).preorder,
    s.children.Pairwise fun c d => c.span.stop ≤ d.span.start
  distinct : ∀ s ∈ (Site.top root).preorder, ∀ c ∈ s.children, ∀ t ∈ c.preorder,
    ¬ (t.kind = s.kind ∧ t.span = s.span)

instance (root : Node) : Decidable root.Nested :=
  decidable_of_iff
    ((∀ s ∈ (Site.top root).preorder, s.span.start ≤ s.span.stop) ∧
      (∀ s ∈ (Site.top root).preorder, ∀ c ∈ s.children, s.span.contains c.span = true) ∧
      (∀ s ∈ (Site.top root).preorder, s.children.Pairwise fun c d => c.span.stop ≤ d.span.start) ∧
      ∀ s ∈ (Site.top root).preorder, ∀ c ∈ s.children, ∀ t ∈ c.preorder,
        ¬ (t.kind = s.kind ∧ t.span = s.span))
    ⟨fun h => ⟨h.1, h.2.1, h.2.2.1, h.2.2.2⟩, fun h => ⟨h.1, h.2, h.3, h.4⟩⟩

/-- A node with a span that is neither an extra nor a mistake. -/
def Node.ofSpan (kind : String) (named : Bool) (field : Option String) (start stop : Nat)
    (children : List Node) : Node :=
  .mk ⟨kind, named, false, false, false, ⟨start, stop⟩, field⟩ children

/-- A function that is an if with an else. -/
def branchingText : Text := "def f():\n if x:\n  a\n else:\n  b\n".toList

/-- The tree of this function, without the tokens. -/
def Node.branching : Node :=
  let node (kind : String) (field : Option String) (start stop : Nat) (children : List Node) :=
    Node.mk ⟨kind, true, false, false, false, ⟨start, stop⟩, field⟩ children
  node "module" none 0 31 [
    node "function_definition" none 0 30 [
      node "identifier" (some "name") 4 5 [],
      node "block" (some "body") 10 30 [
        node "if_statement" none 10 30 [
          node "identifier" (some "condition") 13 14 [],
          node "block" (some "consequence") 18 19 [],
          node "else_clause" (some "alternative") 21 30 [
            node "block" (some "body") 29 30 []]]]]]

theorem Node.nested_branching : branching.Nested := by decide +kernel

namespace Node.Nested

variable {root : Node} (h : root.Nested)

include h

theorem tiled : root.Tiled where
  ordered := h.ordered
  inside := h.inside
  apart := h.apart

theorem start_le_stop {s : Site} (hs : (Site.top root).Within s) : s.span.start ≤ s.span.stop :=
  h.tiled.start_le_stop hs

theorem start_le_and_stop_le {s t : Site} (hs : (Site.top root).Within s) (ht : s.Within t) :
    s.span.start ≤ t.span.start ∧ t.span.stop ≤ s.span.stop :=
  h.tiled.start_le_and_stop_le hs ht

theorem span_eq_of_empty {s t : Site} (hs : (Site.top root).Within s) (ht : s.Within t)
    (hempty : s.span.stop ≤ s.span.start) : t.span = s.span :=
  h.tiled.span_eq_of_empty hs ht hempty

end Node.Nested
end Mutagen
