import DocForest.Proofs.Granting
import DocForest.Proofs.Halting
import DocForest.Proofs.Placement

/-!
# Reading order

A plan and a finished documentation are read alike: a node, then the trees below its children, one after the
other.  Neither reading needs a recursion.  A loop that keeps the nodes to be visited on a stack, the next
one last, takes a node off the stack and puts its children there from the last to the first.  **Where the
roots lead to no circle this loop ends, and it visits the nodes in the order of the recursion.**  The finished
documentation is read like the plan that it was made of.

## What is here

* `Walker`, `Walker.round` — the loop and its rounds; `StackWalk.reaches` — what is on top of a stack is
  walked through before the rest.
* `Unfolds` — the reading order as a recursion; `unfolds_preorder`.
* `InPreorder`, `inPreorder_of_length_trail_le` — **both read the same**, if no way down is endless.
* `Forest.reads_in_preorder` — plans, documentations behind any calls, and those that are built.
-/

set_option autoImplicit false

namespace DocForest

open StateTransition

variable {children : Nat → List Nat} {starts nodes stack visited : List Nat} {depth i : Nat}

/-! ## The loop over a stack -/

/-- A walk with a stack between two of its rounds. -/
structure Walker where
  /-- The nodes that are still to be visited, the next one last. -/
  stack : List Nat
  /-- The nodes that have been visited. -/
  visited : List Nat
  deriving DecidableEq, Repr

namespace Walker

/-- The walk from some nodes before its first round. -/
def start (starts : List Nat) : Walker :=
  { stack := starts.reverse, visited := [] }

/-- Visits the last node of the stack and puts its children there, the first of them last.  Without a node
on the stack there is no more round. -/
def round (children : Nat → List Nat) (walker : Walker) : Option Walker :=
  walker.stack.getLast?.map fun i =>
    { stack := walker.stack.dropLast ++ (children i).reverse, visited := walker.visited ++ [i] }

theorem round_concat (children : Nat → List Nat) (stack visited : List Nat) (i : Nat) :
    round children ⟨stack ++ [i], visited⟩ = some ⟨stack ++ (children i).reverse, visited ++ [i]⟩ := by
  simp [round]

end Walker

/-- **What a walk visits, the loop visits in turn**, behind what has been visited before. -/
theorem StackWalk.reaches (h : StackWalk children stack nodes) (visited : List Nat) :
    Reaches (Walker.round children) ⟨stack.reverse, visited⟩ ⟨[], visited ++ nodes⟩ := by
  induction h generalizing visited with
  | done =>
    rw [List.append_nil]
    exact .refl
  | @visit i stack nodes _ ih =>
    have hround := Walker.round_concat children stack.reverse visited i
    have hrest := ih (visited ++ [i])
    rw [List.reverse_append, List.append_assoc, List.singleton_append] at hrest
    rw [List.reverse_cons]
    exact .head hround hrest

theorem StackWalk.eval_eq (h : StackWalk children starts nodes) :
    eval (Walker.round children) (Walker.start starts) = Part.some ⟨[], nodes⟩ :=
  Part.eq_some_iff.2 (mem_eval.2 ⟨h.reaches [], rfl⟩)

/-! ## The recursion -/

/-- The trees below some nodes, one after the other; a tree is its node and then the trees below the children
of the node. -/
inductive Unfolds (children : Nat → List Nat) : List Nat → List Nat → Prop
  | nil : Unfolds children [] []
  | cons {i : Nat} {rest below others : List Nat} (hi : Unfolds children (children i) below)
      (hrest : Unfolds children rest others) : Unfolds children (i :: rest) (i :: below ++ others)

theorem Unfolds.unique {nodes' : List Nat} (h : Unfolds children starts nodes)
    (h' : Unfolds children starts nodes') : nodes = nodes' := by
  induction h generalizing nodes' with
  | nil =>
    cases h'
    rfl
  | cons _ _ ihi ihrest =>
    cases h' with
    | cons hi' hrest' => rw [ihi hi', ihrest hrest']

/-- **The walk that counts levels is the recursion**, if it is allowed enough of them. -/
theorem unfolds_preorder
    (hlength : ∀ i path, Trail children starts i path → path.length ≤ depth) :
    Unfolds children starts (preorder children depth starts) := by
  induction depth generalizing starts with
  | zero =>
    rw [eq_nil_of_length_trail_le_zero hlength]
    exact .nil
  | succ depth ih =>
    induction starts with
    | nil => exact .nil
    | cons s rest ihrest =>
      rw [preorder_cons]
      refine .cons (ih fun i path => length_trail_le_of_mem hlength List.mem_cons_self) (ihrest ?_)
      exact fun i path hpath => hlength i path (hpath.mono (List.subset_cons_self s rest))

/-! ## Both together -/

/-- The nodes are what the loop over a stack visits, and what the recursion lists. -/
structure InPreorder (children : Nat → List Nat) (starts nodes : List Nat) : Prop where
  /-- The loop ends with an empty stack, and these nodes have been visited. -/
  eval_eq : eval (Walker.round children) (Walker.start starts) = Part.some ⟨[], nodes⟩
  /-- They are the trees below the starts, one after the other, and nothing else is. -/
  unfolds_iff : ∀ other, Unfolds children starts other ↔ other = nodes

theorem inPreorder_of_length_trail_le
    (hlength : ∀ i path, Trail children starts i path → path.length ≤ depth) :
    InPreorder children starts (preorder children depth starts) where
  eval_eq := (stackWalk_preorder hlength).eval_eq
  unfolds_iff other := by
    have hunfolds := unfolds_preorder hlength
    exact ⟨fun hother => hother.unique hunfolds, fun heq => heq ▸ hunfolds⟩

/-- A plan without circles is read like that. -/
theorem Layout.inPreorder_reachable {layout : Layout} (h : Acyclic layout.childrenOf layout.roots) :
    InPreorder layout.childrenOf layout.roots layout.reachable :=
  inPreorder_of_length_trail_le fun _ _ => Layout.length_trail_le_depth h

namespace Forest

variable {config : Config} {inflect : String → String} {records : List Record} {forest : Forest}

/-- So is a documentation without circles, all nodes of which exist. -/
theorem inPreorder_walk (hsize : ∀ i, Below forest.childrenOf forest.rootList i → i < forest.size)
    (h : Acyclic forest.childrenOf forest.rootList) :
    InPreorder forest.childrenOf forest.rootList forest.walk :=
  inPreorder_of_length_trail_le fun _ _ => h.length_trail_le hsize

/-- **The documentation is read like the plan that was written into it.** -/
theorem exists_frozen_walk_eq (h : (build config inflect records).outcome = .ok forest) :
    ∃ loaded, (loadRecords records).outcome = .ok loaded ∧
      (arranged config inflect loaded).1.freeze (arranged config inflect loaded).2 = .ok forest ∧
      forest.walk = (arranged config inflect loaded).2.reachable := by
  simp only [build_outcome, Outcome.bind_eq_ok, Outcome.exists_check] at h
  obtain ⟨loaded, hload, hnesting, -, -, -, hfreeze⟩ := h
  have hprepared := (loadRecords_eq_ok hload).prepared hnesting config
  obtain ⟨frozen, hok, hfrozen⟩ := freeze_of_prepared hprepared inflect
  obtain rfl := Except.ok.inj (hok.symm.trans hfreeze)
  exact ⟨loaded, hload, hfreeze, hfrozen.walk_eq (arranged_grown hprepared inflect).tidy⟩

/-- **Plans and documentations are read in preorder** where their roots lead to no circle, whatever calls have
been made; and a documentation that is built is read like its plan. -/
theorem reads_in_preorder :
    (∀ layout : Layout, Acyclic layout.childrenOf layout.roots →
      InPreorder layout.childrenOf layout.roots layout.reachable) ∧
    (∀ forest : Forest, (∀ i, Below forest.childrenOf forest.rootList i → i < forest.size) →
      Acyclic forest.childrenOf forest.rootList →
        InPreorder forest.childrenOf forest.rootList forest.walk) ∧
    (∀ operations : List Operation, let forest := (Arena.afterAll {} operations).forest
      Acyclic forest.childrenOf forest.rootList →
        InPreorder forest.childrenOf forest.rootList forest.walk) ∧
    ∀ config inflect records forest, (build config inflect records).outcome = .ok forest →
      ∃ loaded, (loadRecords records).outcome = .ok loaded ∧
        (arranged config inflect loaded).1.freeze (arranged config inflect loaded).2 = .ok forest ∧
        forest.walk = (arranged config inflect loaded).2.reachable := by
  refine ⟨fun _ => Layout.inPreorder_reachable, fun _ => inPreorder_walk, fun operations => ?_,
    fun _ _ _ _ => exists_frozen_walk_eq⟩
  exact inPreorder_walk fun _ => (Arena.given_afterAll operations).below_lt

/-- A plan in which two roots share a member that has a list of no children. -/
def sharedLayout : Layout where
  roots := [0, 1]
  children := [(0, [3, 2]), (1, [3]), (2, [4]), (3, [])]

/-- The shared member is read below both roots, and the structure in two fragments like its plan. -/
theorem reads_in_preorder_shared :
    Acyclic sharedLayout.childrenOf sharedLayout.roots ∧
      InPreorder sharedLayout.childrenOf sharedLayout.roots [0, 3, 2, 4, 1, 3] ∧
      ∃ forest, (build { modules := ["M"] } id fragmentRecords).outcome = .ok forest ∧
        ∃ loaded, (loadRecords fragmentRecords).outcome = .ok loaded ∧
          (arranged { modules := ["M"] } id loaded).2.reachable = [5, 4, 2, 3, 1] := by
  have hacyclic : Acyclic sharedLayout.childrenOf sharedLayout.roots :=
    Layout.acyclic_of_entries (by decide)
  have hreachable : sharedLayout.reachable = [0, 3, 2, 4, 1, 3] := by decide +kernel
  obtain ⟨forest, hforest, hwalk, -⟩ := build_fragmentRecords
  obtain ⟨loaded, hload, -, hplan⟩ := reads_in_preorder.2.2.2 _ _ _ _ hforest
  exact ⟨hacyclic, hreachable ▸ reads_in_preorder.1 sharedLayout hacyclic, forest, hforest, loaded, hload,
    hplan.symm.trans hwalk⟩

end Forest
end DocForest
