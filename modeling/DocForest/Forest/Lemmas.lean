import DocForest.Forest.Basic
import DocForest.Outcome

/-!
# What the operations do to a forest

Every operation is described by what it does to the look-up of a node, to the size and to the roots.

## What is here

* `size_add`, `node?_add`, `size_modify`, `node?_modify` and their companions — one equation for
  each operation and view; `lt_of_decl?`, `lt_of_codeParent?`, where there is something to look up.
* `node?_putParents`, `children_withChildren`, `docsParent?_withChildren` — what giving a node its
  children does to the links.
* `checkChild_eq_ok`, `checkRoot_eq_ok` — what the checks demand.
* `link_eq_ok`, `setChildren_eq_ok`, `setRoots_eq_ok` — when a call succeeds, and with what result.
-/

set_option autoImplicit false

namespace DocForest
namespace Forest

/-! ## Adding -/

@[simp] theorem size_add (forest : Forest) (decl : Declaration) :
    (forest.add decl).size = forest.size + 1 := by
  simp [add, size]

@[simp] theorem roots_add (forest : Forest) (decl : Declaration) :
    (forest.add decl).roots = forest.roots := rfl

theorem node?_add (forest : Forest) (decl : Declaration) (i : Nat) :
    (forest.add decl).node? i = if i = forest.size then some { decl } else forest.node? i := by
  simp only [node?, add, size]
  rw [Array.getElem?_push]
  rfl

theorem node?_eq_none_iff (forest : Forest) (i : Nat) : forest.node? i = none ↔ forest.size ≤ i := by
  simp [node?, size]

theorem node?_isSome_iff (forest : Forest) (i : Nat) :
    (forest.node? i).isSome = true ↔ i < forest.size := by
  simp [node?, size]

theorem exists_node? {forest : Forest} {i : Nat} (h : i < forest.size) : ∃ node, forest.node? i = some node :=
  Option.isSome_iff_exists.1 ((forest.node?_isSome_iff i).2 h)

theorem lt_of_node? {forest : Forest} {i : Nat} {node : Node} (h : forest.node? i = some node) :
    i < forest.size :=
  (forest.node?_isSome_iff i).1 (Option.isSome_of_eq_some h)

theorem bind_node?_add {β : Type} (forest : Forest) {decl : Declaration} {field : Node → Option β}
    (hfield : field { decl } = none) (i : Nat) :
    ((forest.add decl).node? i).bind field = (forest.node? i).bind field := by
  rw [node?_add]
  split
  · next h =>
    subst h
    rw [(forest.node?_eq_none_iff _).2 (Nat.le_refl _), Option.bind_none, Option.bind_some, hfield]
  · rfl

theorem decl?_of_le {forest : Forest} {i : Nat} (h : forest.size ≤ i) : forest.decl? i = none := by
  rw [decl?, (forest.node?_eq_none_iff i).2 h, Option.map_none]

theorem exists_decl? {forest : Forest} {i : Nat} (h : i < forest.size) : ∃ decl, forest.decl? i = some decl := by
  obtain ⟨node, hnode⟩ := exists_node? h
  exact ⟨node.decl, by rw [decl?, hnode, Option.map_some]⟩

theorem lt_of_decl? {forest : Forest} {i : Nat} {decl : Declaration} (h : forest.decl? i = some decl) :
    i < forest.size :=
  Nat.not_le.1 fun hle => Option.some_ne_none decl (h.symm.trans (decl?_of_le hle))

theorem lt_of_codeParent? {forest : Forest} {i p : Nat} (h : forest.codeParent? i = some p) :
    i < forest.size := by
  obtain ⟨node, hnode, -⟩ := Option.bind_eq_some_iff.1 h
  exact lt_of_node? hnode

theorem node_eq_ok {forest : Forest} {i : Nat} {node : Node} :
    forest.node i = .ok node ↔ forest.node? i = some node := by
  unfold Forest.node
  cases forest.node? i <;> simp

/-! ## Changing a node -/

@[simp] theorem size_modify (forest : Forest) (i : Nat) (change : Node → Node) :
    (forest.modify i change).size = forest.size := by
  simp [modify, size]

@[simp] theorem roots_modify (forest : Forest) (i : Nat) (change : Node → Node) :
    (forest.modify i change).roots = forest.roots := rfl

theorem node?_modify (forest : Forest) (i j : Nat) (change : Node → Node) :
    (forest.modify i change).node? j =
      if i = j then (forest.node? j).map change else forest.node? j := by
  simp [modify, node?, Array.getElem?_modify]

@[simp] theorem size_modifyDecl (forest : Forest) (i : Nat) (change : Declaration → Declaration) :
    (forest.modifyDecl i change).size = forest.size :=
  forest.size_modify i _

@[simp] theorem roots_modifyDecl (forest : Forest) (i : Nat) (change : Declaration → Declaration) :
    (forest.modifyDecl i change).roots = forest.roots := rfl

theorem decl?_modifyDecl (forest : Forest) (i j : Nat) (change : Declaration → Declaration) :
    (forest.modifyDecl i change).decl? j =
      if i = j then (forest.decl? j).map change else forest.decl? j := by
  unfold decl? modifyDecl
  rw [node?_modify]
  split <;> simp [Function.comp_def]

/-- A change of a declaration leaves all links as they are. -/
@[simp] theorem codeParent?_modifyDecl (forest : Forest) (i j : Nat)
    (change : Declaration → Declaration) :
    (forest.modifyDecl i change).codeParent? j = forest.codeParent? j := by
  unfold codeParent? modifyDecl
  rw [node?_modify]
  split
  · cases forest.node? j <;> rfl
  · rfl

/-! ## Giving a node its children -/

theorem size_putParents (forest : Forest) (parent : Nat) (children : List Nat) :
    (forest.putParents parent children).size = forest.size := by
  unfold putParents
  induction children generalizing forest with
  | nil => rfl
  | cons child rest ih => rw [List.foldl_cons, ih, size_modify]

theorem node?_putParents (forest : Forest) (parent : Nat) (children : List Nat) (j : Nat) :
    (forest.putParents parent children).node? j =
      if j ∈ children then
        (forest.node? j).map fun node => { node with docsParent := some parent }
      else forest.node? j := by
  unfold putParents
  induction children generalizing forest with
  | nil => simp
  | cons child rest ih =>
    rw [List.foldl_cons, ih, node?_modify]
    by_cases hchild : child = j
    · subst hchild
      by_cases hrest : child ∈ rest <;> simp [hrest, Function.comp_def]
    · simp [hchild, Ne.symm hchild]

theorem size_withChildren (forest : Forest) (parent : Nat) (children : List Nat) :
    (forest.withChildren parent children).size = forest.size := by
  rw [withChildren, size_modify, size_putParents]

/-- The children of a node that is given some are these; all others keep theirs. -/
theorem children_withChildren (forest : Forest) (parent : Nat) (children : List Nat) (j : Nat) :
    ((forest.withChildren parent children).node? j).bind (·.children) =
      if parent = j then (forest.node? j).bind fun _ => some children
      else (forest.node? j).bind (·.children) := by
  rw [withChildren, node?_modify, node?_putParents]
  by_cases hparent : parent = j <;> by_cases hmem : j ∈ children <;>
    cases forest.node? j <;> simp [hparent, hmem]

/-- The parent of a child that is given to a node is that node; all others keep theirs. -/
theorem docsParent?_withChildren (forest : Forest) (parent : Nat) (children : List Nat) (j : Nat) :
    (forest.withChildren parent children).docsParent? j =
      if j ∈ children then (forest.node? j).bind fun _ => some parent
      else forest.docsParent? j := by
  rw [docsParent?, docsParent?, withChildren, node?_modify, node?_putParents]
  by_cases hparent : parent = j <;> by_cases hmem : j ∈ children <;>
    cases forest.node? j <;> simp [hparent, hmem]

/-! ## Checks -/

theorem checkChild_eq_ok {forest : Forest} {parent child : Nat} :
    forest.checkChild parent child = .ok () ↔
      child < forest.size ∧ forest.docsParent? child = none ∧ child ∉ forest.rootList
        ∧ child ≠ parent := by
  simp only [checkChild, Outcome.bind_eq_ok, Outcome.check_eq_ok, node_eq_ok, docsParent?,
    ← node?_isSome_iff]
  cases forest.node? child <;> simp [pure, Except.pure, and_assoc]

theorem checkRoot_eq_ok {forest : Forest} {root : Nat} :
    forest.checkRoot root = .ok () ↔ root < forest.size ∧ forest.docsParent? root = none := by
  simp only [checkRoot, Outcome.bind_eq_ok, Outcome.check_eq_ok, node_eq_ok, docsParent?,
    ← node?_isSome_iff]
  cases forest.node? root <;> simp [pure, Except.pure]

/-! ## Calls that succeed -/

theorem link_eq_ok {forest next : Forest} {child parent : Nat} :
    forest.link child parent = .ok next ↔
      child < forest.size ∧ forest.codeParent? child = none
        ∧ next = forest.modify child fun node => { node with codeParent := some parent } := by
  simp only [link, Outcome.bind_eq_ok, Outcome.check_eq_ok, Outcome.pure_eq_ok, node_eq_ok,
    codeParent?, ← node?_isSome_iff]
  cases forest.node? child <;> simp

theorem setChildren_eq_ok {forest next : Forest} {parent : Nat} {children : List Nat} :
    forest.setChildren parent children = .ok next ↔
      parent < forest.size ∧ (forest.node? parent).bind (·.children) = none
        ∧ (∀ child ∈ children, child < forest.size ∧ forest.docsParent? child = none
          ∧ child ∉ forest.rootList ∧ child ≠ parent)
        ∧ next = forest.withChildren parent children := by
  simp only [setChildren, Outcome.bind_eq_ok, Outcome.check_eq_ok, Outcome.pure_eq_ok, node_eq_ok,
    Outcome.exists_check, Outcome.forM_eq_ok, checkChild_eq_ok]
  rw [← node?_isSome_iff forest parent]
  cases forest.node? parent <;> simp

theorem setRoots_eq_ok {forest next : Forest} {roots : List Nat} :
    forest.setRoots roots = .ok next ↔
      forest.roots = none ∧ (∀ root ∈ roots, root < forest.size ∧ forest.docsParent? root = none)
        ∧ next = { forest with roots := some roots } := by
  simp only [setRoots, Outcome.bind_eq_ok, Outcome.check_eq_ok, Outcome.pure_eq_ok,
    Outcome.exists_check, Outcome.forM_eq_ok, checkRoot_eq_ok]
  cases forest.roots <;> simp

end Forest
end DocForest
