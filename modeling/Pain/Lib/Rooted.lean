import Mathlib

/-!
# Chains from a root

A chain leads from a root along the edges of a graph to a node. Where no node
has two parents and the root has none, there is at most one chain to a node.
Chains survive when edges are added.
-/

namespace Pain.Lib

universe u

variable {Node : Type u}

/-- `nodes` leads from `root` to the node, one edge at a time. -/
inductive Chain (edge : Node → Node → Prop) (root : Node) : Node → List Node → Prop where
  | root : Chain edge root root [root]
  | step {parent child : Node} {nodes : List Node} (front : Chain edge root parent nodes)
      (down : edge parent child) : Chain edge root child (nodes ++ [child])

namespace Chain

variable {edge wider : Node → Node → Prop} {root node : Node} {nodes others : List Node}

/-- A chain of edges is a chain of any wider relation. -/
theorem mono (wide : ∀ {parent child}, edge parent child → wider parent child)
    (chain : Chain edge root node nodes) : Chain wider root node nodes := by
  induction chain with
  | root => exact .root
  | step front down ih => exact .step ih (wide down)

/-- A graph in which every node has at most one parent, and the root none, has at most one chain to
each node. -/
theorem unique (chain : Chain edge root node nodes) (other : Chain edge root node others)
    (single : ∀ {parent other child}, edge parent child → edge other child → parent = other)
    (top : ∀ {parent}, ¬edge parent root) : nodes = others := by
  induction chain generalizing others with
  | root =>
      cases other with
      | root => rfl
      | step front down => exact absurd down top
  | step front down ih =>
      cases other with
      | root => exact absurd down top
      | step otherFront otherDown =>
          have sameParent := single down otherDown
          subst sameParent
          simp only [ih otherFront]

end Chain

end Pain.Lib
