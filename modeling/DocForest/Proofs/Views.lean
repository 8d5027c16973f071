import DocForest.Forest.Lemmas

/-!
# What changes of nodes leave as it is

Most passes over a forest change one or two fields of some nodes.  Which field is stated here once:
a pass that never changes what `read` shows of a node keeps `Forest.view read`, and everything
that is computed from that view with it.

## What is here

* `Forest.view`, `Forest.bounds` — a part of every node, and what is known of a forest without its
  nodes; `foldl_keeps` says that what every step keeps stays.
* `Forest.mergedInto?`, `Forest.isUndocumentedBase` — the node that another is merged into, and whether a
  node stands for a type that is not documented.
* `codeParent?_eq_view` and its companions — the links as views.
* `Forest.modifyAll` — several nodes changed, each for a reason of its own; `node?_modifyAll`,
  `node?_modifyAll_of_mem` and `node?_modifyAll_of_not_mem` look a node up afterwards.
* `childList?_withChildren`, `docsParent?_withChildren_of_lt` — the links once a node has been given its
  children.
-/

set_option autoImplicit false

namespace DocForest
namespace Forest

variable {α β : Type} {forest : Forest} {i j : Nat}

/-! ## Views -/

/-- What `read` shows of a node. -/
def view (forest : Forest) (read : Node → β) (i : Nat) : Option β :=
  (forest.node? i).map read

theorem view_modify {read : Node → β} {change : Node → Node}
    (h : ∀ node, read (change node) = read node) :
    (forest.modify i change).view read j = forest.view read j := by
  rw [view, view, node?_modify]
  split
  · rw [Option.map_map]
    exact Option.map_congr fun node _ => h node
  · rfl

theorem bind_node?_modify {field : Node → Option β} {change : Node → Node}
    (h : ∀ node, field (change node) = field node) :
    ((forest.modify i change).node? j).bind field = (forest.node? j).bind field := by
  rw [node?_modify]
  split
  · rw [Option.bind_map]
    exact congrArg (Option.bind _) (funext h)
  · rfl

theorem foldl_keeps {γ : Type} (observe : Forest → γ) (step : Forest → α → Forest) (items : List α)
    (h : ∀ forest a, observe (step forest a) = observe forest) :
    observe (items.foldl step forest) = observe forest := by
  induction items generalizing forest with
  | nil => rfl
  | cons a rest ih => rw [List.foldl_cons, ih, h]

/-- What is known of a forest without its nodes. -/
def bounds (forest : Forest) : Nat × Option (List Nat) :=
  (forest.size, forest.roots)

theorem bounds_modify (forest : Forest) (i : Nat) (change : Node → Node) :
    (forest.modify i change).bounds = forest.bounds :=
  Prod.ext (forest.size_modify i change) rfl

/-! ## Links and declarations as views -/

/-- Whether a node stands for a type that is not documented itself. -/
def isUndocumentedBase (forest : Forest) (i : Nat) : Bool :=
  (forest.node? i).any (·.undocumentedBase)

/-- The node that another is merged into. -/
def mergedInto? (forest : Forest) (i : Nat) : Option Nat :=
  (forest.node? i).bind (·.mergedInto)

/-- The children of a node, if they have been given. -/
def childList? (forest : Forest) (i : Nat) : Option (List Nat) :=
  (forest.node? i).bind (·.children)

theorem bind_node?_eq_view (forest : Forest) (i : Nat) (field : Node → Option β) :
    (forest.node? i).bind field = (forest.view field i).getD none := by
  unfold view
  cases forest.node? i <;> rfl

theorem codeParent?_eq_view (forest : Forest) (i : Nat) :
    forest.codeParent? i = (forest.view (·.codeParent) i).getD none :=
  bind_node?_eq_view forest i _

theorem codeParent?_congr {other : Forest}
    (h : ∀ i, other.view (·.codeParent) i = forest.view (·.codeParent) i) :
    other.codeParent? = forest.codeParent? := by
  funext i
  rw [codeParent?_eq_view, h, codeParent?_eq_view]

theorem docsParent?_eq_view (forest : Forest) (i : Nat) :
    forest.docsParent? i = (forest.view (·.docsParent) i).getD none :=
  bind_node?_eq_view forest i _

theorem childList?_eq_view (forest : Forest) (i : Nat) :
    forest.childList? i = (forest.view (·.children) i).getD none :=
  bind_node?_eq_view forest i _

theorem mergedInto?_eq_view (forest : Forest) (i : Nat) :
    forest.mergedInto? i = (forest.view (·.mergedInto) i).getD none :=
  bind_node?_eq_view forest i _

theorem isUndocumentedBase_eq_view (forest : Forest) (i : Nat) :
    forest.isUndocumentedBase i = (forest.view (·.undocumentedBase) i).getD false := by
  unfold isUndocumentedBase view
  cases forest.node? i <;> rfl

theorem satisfies_eq_view (forest : Forest) (i : Nat) (test : Declaration → Bool) :
    forest.satisfies i test = (forest.view (test ·.decl) i).getD false := by
  unfold satisfies decl? view
  cases forest.node? i <;> rfl

theorem lt_of_satisfies {test : Declaration → Bool} (h : forest.satisfies i test = true) :
    i < forest.size := by
  obtain ⟨decl, hdecl, -⟩ := (Option.any_eq_true _ _).1 h
  exact lt_of_decl? hdecl

theorem satisfies_congr {other : Forest} {test : Declaration → Bool}
    (h : other.view (test ·.decl) i = forest.view (test ·.decl) i) :
    other.satisfies i test = forest.satisfies i test := by
  rw [satisfies_eq_view, h, satisfies_eq_view]

theorem decl?_eq_view (forest : Forest) (i : Nat) :
    forest.decl? i = forest.view (·.decl) i := rfl

/-! ## Several nodes at once -/

/-- The forest with one node changed for every item. -/
def modifyAll (forest : Forest) (target : α → Nat) (change : α → Node → Node) (items : List α) :
    Forest :=
  items.foldl (fun forest a => forest.modify (target a) (change a)) forest

theorem bounds_modifyAll (forest : Forest) (target : α → Nat) (change : α → Node → Node)
    (items : List α) : (forest.modifyAll target change items).bounds = forest.bounds :=
  foldl_keeps bounds _ items fun forest a => forest.bounds_modify (target a) (change a)

theorem view_modifyAll {read : Node → β} {target : α → Nat} {change : α → Node → Node}
    (items : List α) (h : ∀ a node, read (change a node) = read node) :
    (forest.modifyAll target change items).view read j = forest.view read j :=
  foldl_keeps (fun forest => forest.view read j) _ items fun _ a => view_modify (h a)

theorem node?_modifyAll_of_not_mem {target : α → Nat} {change : α → Node → Node} {items : List α}
    (h : ∀ a ∈ items, target a ≠ j) :
    (forest.modifyAll target change items).node? j = forest.node? j := by
  induction items generalizing forest with
  | nil => rfl
  | cons a rest ih =>
    obtain ⟨ha, hrest⟩ := List.forall_mem_cons.1 h
    change ((forest.modify (target a) (change a)).modifyAll target change rest).node? j = _
    rw [ih hrest, node?_modify, if_neg ha]

/-- A node that is changed for one item only is changed as this item says. -/
theorem node?_modifyAll_of_mem (forest : Forest) (target : α → Nat) (change : α → Node → Node)
    {items : List α} {a : α} (hnodup : (items.map target).Nodup) (ha : a ∈ items) :
    (forest.modifyAll target change items).node? (target a) =
      (forest.node? (target a)).map (change a) := by
  induction items generalizing forest with
  | nil => exact (List.not_mem_nil ha).elim
  | cons b rest ih =>
    obtain ⟨hb, hrest⟩ := List.nodup_cons.1 hnodup
    have hother : ∀ c ∈ rest, target c ≠ target b :=
      fun c hc heq => hb (heq ▸ List.mem_map_of_mem hc)
    change ((forest.modify (target b) (change b)).modifyAll target change rest).node? (target a) = _
    rcases List.mem_cons.1 ha with rfl | ha
    · rw [node?_modifyAll_of_not_mem hother, node?_modify, if_pos rfl]
    · rw [ih _ hrest ha, node?_modify, if_neg (hother a ha).symm]

/-- Several nodes that are changed for one item each: a node looks as the item with its index says. -/
theorem node?_modifyAll (forest : Forest) (target : α → Nat) (change : α → Node → Node)
    {items : List α} (hnodup : (items.map target).Nodup) (j : Nat) :
    (forest.modifyAll target change items).node? j =
      (items.find? fun a => target a = j).elim (forest.node? j) fun a =>
        (forest.node? j).map (change a) := by
  cases hfind : items.find? fun a => target a = j with
  | none =>
    refine node?_modifyAll_of_not_mem fun a ha heq => ?_
    exact List.find?_eq_none.1 hfind a ha (decide_eq_true heq)
  | some a =>
    obtain rfl : target a = j := of_decide_eq_true (List.find?_some hfind :)
    exact node?_modifyAll_of_mem forest target change hnodup (List.mem_of_find?_eq_some hfind)

/-! ## Giving a node its children -/

theorem withChildren_eq (forest : Forest) (parent : Nat) (children : List Nat) :
    forest.withChildren parent children =
      (forest.modifyAll id (fun _ node => { node with docsParent := some parent })
        children).modify parent fun node => { node with children := some children } := rfl

/-- A part of a node that shows neither its parent nor its children. -/
def Unlinked {β : Type} (read : Node → β) : Prop :=
  ∀ node docsParent children, read { node with docsParent, children } = read node

theorem view_withChildren {read : Node → β} (h : Unlinked read) (parent : Nat)
    (children : List Nat) : (forest.withChildren parent children).view read i = forest.view read i := by
  rw [withChildren_eq, view_modify fun node => h node node.docsParent _,
    view_modifyAll _ fun _ node => h node _ node.children]

theorem bounds_withChildren (forest : Forest) (parent : Nat) (children : List Nat) :
    (forest.withChildren parent children).bounds = forest.bounds := by
  rw [withChildren_eq, bounds_modify, bounds_modifyAll]

theorem rootList_withChildren (forest : Forest) (parent : Nat) (children : List Nat) :
    (forest.withChildren parent children).rootList = forest.rootList :=
  congrArg (·.getD []) (congrArg Prod.snd (forest.bounds_withChildren parent children))

theorem childrenOf_eq (forest : Forest) (i : Nat) :
    forest.childrenOf i = (forest.childList? i).getD [] := rfl

theorem childList?_withChildren {p : Nat} (hp : p < forest.size) (children : List Nat) (i : Nat) :
    (forest.withChildren p children).childList? i =
      if p = i then some children else forest.childList? i := by
  rw [childList?, children_withChildren]
  split
  · next heq =>
    subst heq
    obtain ⟨node, hnode⟩ := exists_node? hp
    rw [hnode, Option.bind_some]
  · rfl

theorem docsParent?_withChildren_of_lt {children : List Nat} (hlt : ∀ c ∈ children, c < forest.size)
    (p c : Nat) :
    (forest.withChildren p children).docsParent? c =
      if c ∈ children then some p else forest.docsParent? c := by
  rw [docsParent?_withChildren]
  split
  · next hc =>
    obtain ⟨node, hnode⟩ := exists_node? (hlt c hc)
    rw [hnode, Option.bind_some]
  · rfl

end Forest
end DocForest
