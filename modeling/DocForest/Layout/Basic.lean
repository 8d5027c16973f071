import DocForest.Forest.Walk

/-!
# Layouts

A layout is a plan of the documentation: roots and lists of children that no node has been given yet.

## What is here

* `Layout` — roots and child lists, as indices into a forest.
* `Layout.childrenOf` — one list of children.
* `Layout.reachable` — the nodes of the plan in reading order.
-/

set_option autoImplicit false

namespace DocForest

/-- A plan of the documentation.  A node has at most one entry among the lists of children. -/
structure Layout where
  roots : List Nat := []
  children : List (Nat × List Nat) := []
  deriving DecidableEq, Repr

namespace Layout

/-- The list of children of a node, if there is one. -/
def childList? (layout : Layout) (i : Nat) : Option (List Nat) :=
  (layout.children.find? fun entry => entry.1 = i).map (·.2)

/-- The children of a node. -/
def childrenOf (layout : Layout) (i : Nat) : List Nat :=
  (layout.childList? i).getD []

/-- The levels that a tree of the layout can have: below the last node with children there is one
more. -/
def depth (layout : Layout) : Nat :=
  layout.children.length + 1

/-- The nodes of the plan, each in front of its descendants. -/
def reachable (layout : Layout) : List Nat :=
  preorder layout.childrenOf layout.depth layout.roots

end Layout
end DocForest
