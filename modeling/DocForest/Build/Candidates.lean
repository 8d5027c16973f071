import DocForest.Build.Load
import DocForest.Layout.Basic

/-!
# What can be documented

## What is here

* `Declaration.isCandidate` — whether a declaration can appear in the documentation at all.
* `Forest.candidateLayout` — the candidates in the order of the code.
-/

set_option autoImplicit false

namespace DocForest

/-- Whether a declaration can appear in the documentation: documented kinds, guides, and marks that
open a section. -/
def Declaration.isCandidate (decl : Declaration) : Bool :=
  if decl.kind.isMark then decl.isTask else decl.kind.isDocumented || decl.kind.isMarkdown

namespace Forest

/-- Whether a node can appear in the documentation. -/
def isCandidate (forest : Forest) (i : Nat) : Bool :=
  forest.satisfies i Declaration.isCandidate

/-- The members of a node that can appear in the documentation. -/
def candidateChildren (forest : Forest) (i : Nat) : List Nat :=
  (forest.codeChildren i).filter forest.isCandidate

/-- The candidates under their containers.  Marks outside all containers are left out. -/
def candidateLayout (forest : Forest) : Layout :=
  let candidates := (List.range forest.size).filter forest.isCandidate
  { roots := candidates.filter fun i => (forest.codeParent? i).isNone && !forest.isMark i
    children := (candidates.map fun i => (i, forest.candidateChildren i)).filter
      fun entry => !entry.2.isEmpty }

end Forest
end DocForest
