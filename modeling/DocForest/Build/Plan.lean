import DocForest.Build.Fragments
import DocForest.Build.Hints

/-!
# The plan of the documentation

## What is here

* `Forest.inOrder` — siblings in the order of their hints.
* `Forest.plannedChildren` — the members of a node and of the fragments merged into it.
* `Forest.plan` — the layout of what is visible, with fragments merged.
-/

set_option autoImplicit false

namespace DocForest
namespace Forest

/-- The ordering hint of a node. -/
def hintOf (forest : Forest) (i : Nat) : Option Int :=
  (forest.decl? i).bind (·.hint)

/-- Siblings in the order of their hints. -/
def inOrder (forest : Forest) (siblings : List Nat) : List Nat :=
  ordered forest.isMark forest.hintOf siblings

/-- The members of a node, then those of each fragment merged into it, where members that are merged
themselves are left out. -/
def plannedChildren (forest : Forest) (visible : Layout) (i : Nat) : List Nat :=
  ((i :: forest.fragmentsOf i).flatMap visible.childrenOf).filter fun j => !forest.isMerged j

/-- The layout of what is visible, with fragments merged. -/
def plan (forest : Forest) (visible : Layout) : Layout :=
  let standing := visible.reachable.filter fun i => !forest.isMerged i
  { roots := visible.roots.filter fun i => !forest.isMerged i
    children := ((standing.map fun i => (i, forest.plannedChildren visible i)).filter
      fun entry => !entry.2.isEmpty).map fun entry => (entry.1, forest.inOrder entry.2) }

end Forest
end DocForest
