import DocForest.Proofs.Ascent
import DocForest.Proofs.Stacking
import DocForest.Proofs.Views

/-!
# Children and parents that agree

The links of the documentation run down, as lists of children, and up, as parents.  They agree if every
child has the node as its parent that lists it.  The checks of `Forest.setChildren` and `Forest.setRoots` are
all that keeps them together: a child is given to a node that has no parent, is no root, and is not that
node; a root has no parent.  **They refuse nothing else.**

None of them looks for circles.  But where the links agree below the roots there is none, since every node
there has one parent, up to a root that has none.

## What is here

* `Forest.Tied` — children and parents agree everywhere; `Tied.add`, `Tied.modify`, `Tied.setChildren`,
  `Tied.setRoots` — they still do behind a call.
* `Tied.exists_setChildren_iff`, `Tied.exists_setRoots_iff` — a call is refused only if they would not.
* `Forest.TiedBelow` — they agree below the roots; `TiedBelow.ends`, `TiedBelow.acyclic`,
  `TiedBelow.docsPath_eq` — there all parents end, and the chain of parents is the way down.
* `Forest.WalkEnds`, `TiedBelow.walkEnds` — **walking through such a documentation ends.**
-/

set_option autoImplicit false

namespace DocForest
namespace Forest

open Relation

variable {forest next : Forest} {children roots : List Nat} {i j p q c r : Nat}

/-! ## Giving children -/

/-- A node that can be given to another as a child: it exists, has no parent, and is no root. -/
structure Unplaced (forest : Forest) (i : Nat) : Prop where
  lt_size : i < forest.size
  docsParent : forest.docsParent? i = none
  not_root : i ∉ forest.rootList

theorem setChildren_eq_ok_iff :
    forest.setChildren p children = .ok next ↔
      p < forest.size ∧ forest.childList? p = none ∧
        (∀ c ∈ children, forest.Unplaced c ∧ c ≠ p) ∧ next = forest.withChildren p children := by
  have hguard : ∀ c, (c < forest.size ∧ forest.docsParent? c = none ∧ c ∉ forest.rootList ∧ c ≠ p) ↔
      forest.Unplaced c ∧ c ≠ p :=
    fun c => ⟨fun ⟨hlt, hdocs, hroot, hne⟩ => ⟨⟨hlt, hdocs, hroot⟩, hne⟩,
      fun ⟨h, hne⟩ => ⟨h.lt_size, h.docsParent, h.not_root, hne⟩⟩
  simp only [setChildren_eq_ok, hguard, childList?]

theorem docsParent?_add (forest : Forest) (decl : Declaration) (i : Nat) :
    (forest.add decl).docsParent? i = forest.docsParent? i :=
  bind_node?_add forest rfl i

theorem childList?_add (forest : Forest) (decl : Declaration) (i : Nat) :
    (forest.add decl).childList? i = forest.childList? i :=
  bind_node?_add forest rfl i

theorem childrenOf_eq_nil (h : forest.childList? p = none) : forest.childrenOf p = [] := by
  rw [childrenOf_eq, h, Option.getD_none]

theorem childrenOf_withChildren (hp : p < forest.size) (children : List Nat) (q : Nat) :
    (forest.withChildren p children).childrenOf q =
      if p = q then children else forest.childrenOf q := by
  rw [childrenOf_eq, childList?_withChildren hp]
  split <;> rfl

theorem lt_of_docsParent? (h : forest.docsParent? i = some p) : i < forest.size := by
  obtain ⟨node, hnode, -⟩ := Option.bind_eq_some_iff.1 h
  exact lt_of_node? hnode

/-! ## Children and parents agree -/

/-- Children know their parents, and parents their children; no node is its own child, and the roots
are nodes without parent. -/
structure Tied (forest : Forest) : Prop where
  mem_childrenOf_iff : ∀ {p c}, c ∈ forest.childrenOf p ↔ forest.docsParent? c = some p
  not_own_child : ∀ p, p ∉ forest.childrenOf p
  root_free : ∀ {r}, r ∈ forest.rootList → forest.docsParent? r = none
  root_lt : ∀ {r}, r ∈ forest.rootList → r < forest.size

theorem tied_empty : Tied {} where
  mem_childrenOf_iff {p c} := by simp [childrenOf, docsParent?, node?]
  not_own_child p := by simp [childrenOf, node?]
  root_free hr := absurd hr List.not_mem_nil
  root_lt hr := absurd hr List.not_mem_nil

namespace Tied

theorem parent_unique (h : forest.Tied) (hp : c ∈ forest.childrenOf p) (hq : c ∈ forest.childrenOf q) :
    p = q :=
  Option.some.inj ((h.mem_childrenOf_iff.1 hp).symm.trans (h.mem_childrenOf_iff.1 hq))

theorem add (h : forest.Tied) (decl : Declaration) : (forest.add decl).Tied where
  mem_childrenOf_iff {p c} := by
    rw [docsParent?_add, childrenOf_eq, childList?_add]
    exact h.mem_childrenOf_iff
  not_own_child p := by
    rw [childrenOf_eq, childList?_add]
    exact h.not_own_child p
  root_free hr := by
    rw [docsParent?_add]
    exact h.root_free hr
  root_lt hr := by
    rw [size_add]
    exact Nat.lt_succ_of_lt (h.root_lt hr)

theorem modify (h : forest.Tied) (i : Nat) {change : Node → Node}
    (hdocs : ∀ node, (change node).docsParent = node.docsParent)
    (hlist : ∀ node, (change node).children = node.children) : (forest.modify i change).Tied where
  mem_childrenOf_iff {p c} := by
    rw [childrenOf_eq, childList?, bind_node?_modify hlist, docsParent?, bind_node?_modify hdocs]
    exact h.mem_childrenOf_iff
  not_own_child p := by
    rw [childrenOf_eq, childList?, bind_node?_modify hlist]
    exact h.not_own_child p
  root_free {r} hr := by
    rw [docsParent?, bind_node?_modify hdocs]
    exact h.root_free hr
  root_lt hr := by
    rw [size_modify]
    exact h.root_lt hr

theorem setChildren (h : forest.Tied) (hp : p < forest.size) (hfree : forest.childList? p = none)
    (hchildren : ∀ c ∈ children, forest.Unplaced c ∧ c ≠ p) :
    (forest.withChildren p children).Tied where
  mem_childrenOf_iff {q c} := by
    rw [childrenOf_withChildren hp, docsParent?_withChildren_of_lt fun c hc => (hchildren c hc).1.lt_size]
    by_cases hc : c ∈ children
    · -- the child was nobody's before
      have hother : c ∉ forest.childrenOf q := fun hmem =>
        Option.some_ne_none q ((h.mem_childrenOf_iff.1 hmem).symm.trans (hchildren c hc).1.docsParent)
      by_cases hq : p = q <;> simp [hc, hq, hother]
    · -- the node had no children before
      have hself : forest.docsParent? c ≠ some p := fun hparent => by
        have hmem := h.mem_childrenOf_iff.2 hparent
        rw [childrenOf_eq_nil hfree] at hmem
        exact List.not_mem_nil hmem
      by_cases hq : p = q
      · subst hq
        simp [hc, hself]
      · rw [if_neg hq, if_neg hc]
        exact h.mem_childrenOf_iff
  not_own_child q := by
    rw [childrenOf_withChildren hp]
    split
    · next hq => exact fun hmem => (hchildren q hmem).2 hq.symm
    · exact h.not_own_child q
  root_free {r} hr := by
    rw [rootList_withChildren] at hr
    rw [docsParent?_withChildren_of_lt fun c hc => (hchildren c hc).1.lt_size,
      if_neg fun hmem => (hchildren r hmem).1.not_root hr]
    exact h.root_free hr
  root_lt hr := by
    rw [rootList_withChildren] at hr
    rw [size_withChildren]
    exact h.root_lt hr

theorem setRoots (h : forest.Tied)
    (hroots : ∀ r ∈ roots, r < forest.size ∧ forest.docsParent? r = none) :
    Tied { forest with roots := some roots } where
  mem_childrenOf_iff := h.mem_childrenOf_iff
  not_own_child := h.not_own_child
  root_free {r} hr := (hroots r hr).2
  root_lt {r} hr := (hroots r hr).1

/-- **Children are refused only if they would break the agreement.** -/
theorem exists_setChildren_iff (h : forest.Tied) (hp : p < forest.size)
    (hfree : forest.childList? p = none) (hlt : ∀ c ∈ children, c < forest.size) :
    (∃ next, forest.setChildren p children = .ok next) ↔ (forest.withChildren p children).Tied := by
  constructor
  · rintro ⟨next, hnext⟩
    obtain ⟨-, -, hchildren, -⟩ := setChildren_eq_ok_iff.1 hnext
    exact h.setChildren hp hfree hchildren
  · intro htied
    refine ⟨_, setChildren_eq_ok_iff.2 ⟨hp, hfree, fun c hc => ?_, rfl⟩⟩
    have hparent : (forest.withChildren p children).docsParent? c = some p := by
      rw [docsParent?_withChildren_of_lt hlt, if_pos hc]
    have hne : c ≠ p := by
      rintro rfl
      refine htied.not_own_child c ?_
      rwa [childrenOf_withChildren hp, if_pos rfl]
    refine ⟨⟨hlt c hc, ?_, fun hroot => ?_⟩, hne⟩
    · rw [Option.eq_none_iff_forall_ne_some]
      intro q hq
      -- an earlier parent would still list the child
      have hmem := h.mem_childrenOf_iff.2 hq
      have hpq : p ≠ q := by
        rintro rfl
        rw [childrenOf_eq_nil hfree] at hmem
        exact List.not_mem_nil hmem
      have hstill : c ∈ (forest.withChildren p children).childrenOf q := by
        rwa [childrenOf_withChildren hp, if_neg hpq]
      exact hpq (Option.some.inj (hparent.symm.trans (htied.mem_childrenOf_iff.1 hstill)))
    · rw [← rootList_withChildren forest p children] at hroot
      exact Option.some_ne_none p (hparent.symm.trans (htied.root_free hroot))

/-- **So are roots.** -/
theorem exists_setRoots_iff (h : forest.Tied) (hfree : forest.roots = none) :
    (∃ next, forest.setRoots roots = .ok next) ↔ Tied { forest with roots := some roots } := by
  constructor
  · rintro ⟨next, hnext⟩
    obtain ⟨-, hroots, -⟩ := setRoots_eq_ok.1 hnext
    exact h.setRoots hroots
  · intro htied
    exact ⟨_, setRoots_eq_ok.2 ⟨hfree, fun r hr => ⟨htied.root_lt hr, htied.root_free hr⟩, rfl⟩⟩

end Tied

/-! ## Below the roots -/

/-- Where the roots lead to, children know their parents; the roots have none, and all nodes there exist. -/
structure TiedBelow (forest : Forest) : Prop where
  docsParent_of_mem : ∀ {p c}, Below forest.childrenOf forest.rootList p → c ∈ forest.childrenOf p →
    forest.docsParent? c = some p
  root_free : ∀ {r}, r ∈ forest.rootList → forest.docsParent? r = none
  lt_size : ∀ {i}, Below forest.childrenOf forest.rootList i → i < forest.size

theorem Tied.below (h : forest.Tied) : forest.TiedBelow where
  docsParent_of_mem _ hc := h.mem_childrenOf_iff.1 hc
  root_free := h.root_free
  lt_size hi := by
    cases hi with
    | start hi => exact h.root_lt hi
    | child _ hi => exact lt_of_docsParent? (h.mem_childrenOf_iff.1 hi)

/-- Walking through the documentation ends, and so do all paths that it shows. -/
structure WalkEnds (forest : Forest) : Prop where
  /-- No node that the roots lead to is above itself. -/
  no_loop : ∀ i, Below forest.childrenOf forest.rootList i → ¬TransGen (Up forest.docsParent?) i i
  /-- A walk that is bounded by nothing but its stack visits the nodes of the walk, and ends. -/
  stackWalk : StackWalk forest.childrenOf forest.rootList forest.walk
  /-- The parents of a node that is visited end. -/
  ends : ∀ i ∈ forest.walk, Ends forest.docsParent? i
  /-- The path to a node that is visited is a way down from a root. -/
  docsPath : ∀ i ∈ forest.walk,
    Trail forest.childrenOf forest.rootList i (forest.docsPath i).reverse
  root : ∀ i ∈ forest.walk, ∃ r ∈ forest.rootList, (forest.docsPath i).head? = some r

namespace TiedBelow

/-- **Below the roots all parents end.** -/
theorem ends (h : forest.TiedBelow) (hi : Below forest.childrenOf forest.rootList i) :
    Ends forest.docsParent? i := by
  induction hi with
  | start hi => exact .top (h.root_free hi)
  | child hp hi ih => exact .step (h.docsParent_of_mem hp hi) ih

/-- What is found by going down from the children of a node has the node above it. -/
theorem above_of_below (h : forest.TiedBelow) (hi : Below forest.childrenOf forest.rootList i)
    (hj : Below forest.childrenOf (forest.childrenOf i) j) :
    Below forest.childrenOf forest.rootList j ∧ TransGen (Up forest.docsParent?) j i := by
  induction hj with
  | start hj => exact ⟨.child hi hj, .single (h.docsParent_of_mem hi hj)⟩
  | child _ hj ih => exact ⟨.child ih.1 hj, .head (h.docsParent_of_mem ih.1 hj) ih.2⟩

/-- **Below the roots there is no circle.** -/
theorem acyclic (h : forest.TiedBelow) : Acyclic forest.childrenOf forest.rootList :=
  fun _ hi hloop => (h.ends hi).no_loop (h.above_of_below hi hloop).2

/-- The chain of parents of a node is the way down to it. -/
theorem climb_of_trail (h : forest.TiedBelow) {path : List Nat} {steps : Nat}
    (ht : Trail forest.childrenOf forest.rootList i path) (hlength : path.length ≤ steps + 1) :
    climb forest.docsParent? steps i = path := by
  -- on the way: a root has no parent to climb to, and a child has the one that lists it
  induction ht generalizing steps with
  | start hi => cases steps <;> simp [climb, h.root_free hi]
  | @child p i path hp hi ih =>
    have hpos := hp.length_pos
    rw [List.length_cons] at hlength
    obtain ⟨less, rfl⟩ : ∃ less, steps = less + 1 := ⟨steps - 1, by omega⟩
    rw [climb, h.docsParent_of_mem hp.isBelow hi]
    exact congrArg (i :: ·) (ih (by omega))

theorem length_trail_le (h : forest.TiedBelow) {path : List Nat}
    (ht : Trail forest.childrenOf forest.rootList i path) : path.length ≤ forest.size :=
  h.acyclic.length_trail_le (fun _ => h.lt_size) ht

theorem docsPath_eq (h : forest.TiedBelow) {path : List Nat}
    (ht : Trail forest.childrenOf forest.rootList i path) : forest.docsPath i = path.reverse := by
  rw [docsPath, h.climb_of_trail ht (Nat.le_succ_of_le (h.length_trail_le ht))]

/-- **Walking through a documentation ends whose links agree below the roots.** -/
theorem walkEnds (h : forest.TiedBelow) : forest.WalkEnds where
  no_loop _ hi := (h.ends hi).no_loop
  stackWalk := stackWalk_preorder fun _ _ => h.length_trail_le
  ends _ hi := h.ends (below_of_mem_preorder hi)
  docsPath i hi := by
    obtain ⟨path, hpath⟩ := below_iff_exists_trail.1 (below_of_mem_preorder hi)
    rwa [h.docsPath_eq hpath, List.reverse_reverse]
  root i hi := by
    obtain ⟨path, hpath⟩ := below_iff_exists_trail.1 (below_of_mem_preorder hi)
    rw [h.docsPath_eq hpath, List.head?_reverse]
    exact hpath.exists_start

end TiedBelow

end Forest
end DocForest
