import DocForest.Layout.Basic
import DocForest.Logged

/-!
# Filtering a layout by access level

A declaration below the least level goes away with everything under it.  Groups and marks have no
level of their own: a group goes away when nothing is left in it, and a mark when nothing is left
in its section.

The three rules feed each other from the bottom up, so whether a node stays is decided by recursion
on the levels below it (`Filter.keeps`).  Which nodes are looked at depends on the first rule alone
and is a walk of its own (`Filter.visited`): it settles what is reported and which indices have to
exist.

## What is here

* `dropEmptySections` — a list of siblings without the marks that head no section.
* `Filter.keeps`, `Filter.keptOf` — whether a node stays, and what stays of some siblings.
* `Filter.visited` — the nodes that are looked at, every rejected one included.
* `Layout.prune` — the filtered layout.
-/

set_option autoImplicit false

namespace DocForest

/-- The siblings without those marks that have no other sibling behind them before the next mark.
Read from the end; the second component says whether the section that is being read has content. -/
def dropEmptySectionsFrom (isMark : Nat → Bool) : List Nat → List Nat × Bool
  | [] => ([], false)
  | i :: rest =>
    let (kept, hasContent) := dropEmptySectionsFrom isMark rest
    if isMark i then (if hasContent then i :: kept else kept, false) else (i :: kept, true)

/-- The siblings without the marks that head an empty section. -/
def dropEmptySections (isMark : Nat → Bool) (siblings : List Nat) : List Nat :=
  (dropEmptySectionsFrom isMark siblings).1

theorem dropEmptySections_sublist (isMark : Nat → Bool) (siblings : List Nat) :
    (dropEmptySections isMark siblings).Sublist siblings := by
  unfold dropEmptySections
  induction siblings with
  | nil => exact List.Sublist.refl _
  | cons i rest ih =>
    simp only [dropEmptySectionsFrom]
    split
    · split
      · exact ih.cons_cons i
      · exact ih.cons i
    · exact ih.cons_cons i

theorem mem_dropEmptySections_of_not_mark (isMark : Nat → Bool) {i : Nat} (siblings : List Nat)
    (hi : isMark i = false) : i ∈ dropEmptySections isMark siblings ↔ i ∈ siblings := by
  unfold dropEmptySections
  induction siblings with
  | nil => rfl
  | cons j rest ih =>
    have hne : isMark j = true → i ≠ j := fun hj heq => by simp [heq ▸ hi] at hj
    simp only [dropEmptySectionsFrom]
    split
    · next hj =>
      have := hne hj
      split <;> simp [ih, this]
    · simp [ih]

/-- A filter by access level over the nodes of a forest. -/
structure Filter where
  forest : Forest
  minLevel : AccessLevel

namespace Filter

/-- Whether a node goes away for its own level. -/
def rejects (filter : Filter) (i : Nat) : Bool :=
  filter.forest.satisfies i fun decl =>
    !(decl.kind.isOverview || decl.kind.isMark) && decl.level < filter.minLevel

/-- Whether a node stays, looking at most `depth` levels down. -/
def keeps (filter : Filter) (children : Nat → List Nat) : Nat → Nat → Bool
  | 0, _ => false
  | depth + 1, i =>
    let kept := dropEmptySections filter.forest.isMark
      ((children i).filter (filter.keeps children depth))
    !filter.rejects i && !(filter.forest.isGroup i && kept.isEmpty)

/-- The siblings of a list that stay. -/
def keptOf (filter : Filter) (children : Nat → List Nat) (depth : Nat) (siblings : List Nat) :
    List Nat :=
  dropEmptySections filter.forest.isMark (siblings.filter (filter.keeps children depth))

/-- The nodes that are looked at: the children of a rejected node are not. -/
def visited (filter : Filter) (children : Nat → List Nat) (depth : Nat) (roots : List Nat) :
    List Nat :=
  preorder (fun i => if filter.rejects i then [] else children i) depth roots

end Filter

namespace Layout

/-- The filtered layout.  Entries remain for the nodes that are looked at and stay. -/
def filtered (layout : Layout) (filter : Filter) : Layout :=
  let keeps := filter.keeps layout.childrenOf layout.depth
  let visited := filter.visited layout.childrenOf layout.depth layout.roots
  { roots := filter.keptOf layout.childrenOf layout.depth layout.roots
    children := (layout.children.filter fun entry => visited.contains entry.1 && keeps entry.1).map
      fun entry => (entry.1, filter.keptOf layout.childrenOf layout.depth entry.2) }

/-- The layout without what is below `minLevel`; every node that is looked at has to exist. -/
def prune (layout : Layout) (forest : Forest) (minLevel : AccessLevel) : Logged Layout := do
  let filter : Filter := ⟨forest, minLevel⟩
  let visited := filter.visited layout.childrenOf layout.depth layout.roots
  if visited.any fun i => forest.size ≤ i then Logged.fail .indexOutOfRange
  else
    Logged.report (.filtered minLevel (visited.countP filter.rejects))
    return layout.filtered filter

end Layout
end DocForest
