import DocForest.Proofs.DirectCalls

/-!
# Arenas behind any calls

The calls on an arena can be made in any order, and any of them may be refused in between.  Their checks
compare indices as they are given, while links are written and read at the nodes that the indices name.  As
long as all indices count from the front this comes to the same: children and parents agree, and below the
roots there is no circle.  **An index that counts from the end passes the checks under another number**, so
that a root can become a child and a node its own child; and a list that has been given with such an index
shows other children once nodes have been added.

Two nodes that no root leads to can be made children of each other by any indices.

## What is here

* `tied_afterAll` — **when children and parents agree behind any calls**, and that the checks refuse nothing
  that would keep them in agreement; `calls_disagree` shows calls behind which they do not.
* `walk_ends_afterAll` — **when walking through the documentation ends**; `walk_runs_in_circle` shows calls
  behind which it does not.
-/

set_option autoImplicit false

namespace DocForest
namespace Arena

open Relation

variable {arena next : Arena} {calls : List Grant} {i j : Nat}

/-! ## Children and parents -/

/-- **Behind any calls children and parents agree exactly if the lists of children are read as they have been
given, none of them has named its own node or a root.**  They do if no index of the calls counts from the end;
then the arena is a forest, and whatever would leave them in agreement is not refused. -/
theorem tied_afterAll (operations : List Operation) :
    let arena := afterAll {} operations
    (arena.forest.Tied ↔ (∀ g ∈ grants {} operations, g.Steady arena.size) ∧
        ∀ r ∈ arena.forest.rootList, ∀ g ∈ grants {} operations, r ∉ g.named) ∧
      (arena.forest.Tied → ∀ p q c, c ∈ arena.forest.childrenOf p → c ∈ arena.forest.childrenOf q → p = q) ∧
      ((∀ call ∈ accepted {} operations, call.2.Direct) →
        ∃ forest : Forest, arena = ofForest forest ∧ arena.forest = forest ∧ forest.Tied ∧
          (∀ (p : Nat) (children : List Nat), p < forest.size → forest.childList? p = none →
            (∀ c ∈ children, c < forest.size) →
              ((∃ next, arena.setChildren p (children.map Nat.cast) = .ok next) ↔
                (forest.withChildren p children).Tied)) ∧
          ∀ roots : List Nat, forest.roots = none →
            ((∃ next, arena.setRoots (roots.map Nat.cast) = .ok next) ↔
              Forest.Tied { forest with roots := some roots })) := by
  refine ⟨(given_afterAll operations).tied_iff, fun htied _ _ _ => htied.parent_unique, fun hdirect => ?_⟩
  have hmap : ∀ outcome : Except Failure Forest,
      (∃ next, outcome.map ofForest = .ok next) ↔ ∃ later, outcome = .ok later := fun outcome => by
    cases outcome <;> simp [Except.map]
  obtain ⟨forest, heq, htied⟩ := exists_ofForest_afterAll hdirect
  refine ⟨forest, heq, heq ▸ forest_ofForest forest, htied, fun p children hp hfree hlt => ?_,
    fun roots hfree => ?_⟩
  · rw [heq, ofForest_setChildren, hmap]
    exact htied.exists_setChildren_iff hp hfree hlt
  · rw [heq, ofForest_setRoots, hmap]
    exact htied.exists_setRoots_iff hfree

/-- None of these calls is refused.  The first ones make a root a child, the next ones give a node to itself,
and the last ones give a node to two others, of which it is shown to know one only. -/
theorem calls_disagree :
    let decl := Declaration.group (.str "G") .null
    let rootTaken : List Operation := [.add decl, .add decl, .setRoots [1], .setChildren 0 [-1]]
    let ownChild : List Operation := [.add decl, .add decl, .setChildren 0 [-2]]
    let shared : List Operation :=
      [.add decl, .add decl, .setChildren 0 [-1], .add decl, .setChildren 1 [2]]
    ((accepted {} rootTaken).length = 4 ∧ 1 ∈ (afterAll {} rootTaken).forest.rootList ∧
        (afterAll {} rootTaken).forest.docsParent? 1 = some 0 ∧ ¬(afterAll {} rootTaken).forest.Tied) ∧
      ((accepted {} ownChild).length = 3 ∧ 0 ∈ (afterAll {} ownChild).forest.childrenOf 0) ∧
      ((accepted {} shared).length = 5 ∧ 2 ∈ (afterAll {} shared).forest.childrenOf 0 ∧
        2 ∈ (afterAll {} shared).forest.childrenOf 1 ∧
        (afterAll {} shared).forest.docsParent? 2 = some 1) := by
  intro decl rootTaken ownChild shared
  have hroot : 1 ∈ (afterAll {} rootTaken).forest.rootList := by decide +kernel
  have hdocs : (afterAll {} rootTaken).forest.docsParent? 1 = some 0 := by decide +kernel
  refine ⟨⟨by decide +kernel, hroot, hdocs, fun htied => ?_⟩, by decide +kernel, by decide +kernel⟩
  exact Option.some_ne_none 0 (hdocs.symm.trans (htied.root_free hroot))

/-! ## Circles that no root leads to -/

/-- A node that has no place in the documentation yet, and no children. -/
structure Loose (arena : Arena) (i : Nat) : Prop extends Unplaced arena i where
  childIndices : arena.childIndices? i = none

theorem docsIndex?_withChild {c : Nat} (hc : c < arena.size) (parent : Int) (i : Nat) :
    (arena.withChildren parent [↑c]).docsIndex? i = if i = c then some parent else arena.docsIndex? i := by
  have hlt : ∀ d ∈ [(c : Int)], arena.position d < arena.size :=
    fun d hd => List.mem_singleton.1 hd ▸ hc
  rw [docsIndex?_withChildren hlt]
  exact if_congr List.mem_singleton rfl rfl

/-- **Two such nodes can be made children of each other.** -/
theorem exists_circle (hi : arena.Loose i) (hj : arena.Loose j) (hne : i ≠ j) :
    ∃ next last, Step arena (.setChildren j [↑i]) next ∧ Step next (.setChildren i [↑j]) last ∧
      TransGen (Up last.forest.docsParent?) i i := by
  have hsize : (arena.withChildren j [↑i]).size = arena.size := arena.size_withChildren j [↑i]
  have hchild : ∀ c ∈ [(i : Int)], arena.Unplaced c ∧ c ≠ j := fun c hc =>
    List.mem_singleton.1 hc ▸ ⟨hi.toUnplaced, fun heq => hne (Int.ofNat.inj heq)⟩
  have hother : ∀ c ∈ [(j : Int)], (arena.withChildren j [↑i]).Unplaced c ∧ c ≠ i := by
    intro c hc
    obtain rfl := List.mem_singleton.1 hc
    refine ⟨⟨hsize.symm ▸ hj.lt_size, ?_, ?_⟩, fun heq => hne (Int.ofNat.inj heq).symm⟩
    · exact (docsIndex?_withChild hi.lt_size _ j).trans ((if_neg hne.symm).trans hj.docsIndex)
    · rw [rootList, roots_withChildren]
      exact hj.not_root
  have hfree : (arena.withChildren j [↑i]).childIndices? i = none :=
    (childIndices?_withChildren hj.lt_size _ i).trans ((if_neg hne.symm).trans hi.childIndices)
  have hfirst : i < arena.size := hi.lt_size
  have hlast : j < (arena.withChildren j [↑i]).size := hsize.symm ▸ hj.lt_size
  refine ⟨_, _, .setChildren hj.lt_size hj.childIndices hchild,
    .setChildren (hsize.symm ▸ hi.lt_size) hfree hother, ?_⟩
  have hup : Up ((arena.withChildren j [↑i]).withChildren i [↑j]).forest.docsParent? i j := by
    rw [Up, docsParent?_forest, docsIndex?_withChild hlast, if_neg hne, docsIndex?_withChild hfirst, if_pos rfl]
    rfl
  have hdown : Up ((arena.withChildren j [↑i]).withChildren i [↑j]).forest.docsParent? j i := by
    rw [Up, docsParent?_forest, docsIndex?_withChild hlast, if_pos rfl]
    rfl
  exact .head hup (.single hdown)

theorem Given.loose_of_new (h : Given calls arena) (hle : arena.size ≤ i) (hlt : i < next.size)
    (hdocs : next.docsIndex? i = arena.docsIndex? i)
    (hchildren : next.childIndices? i = arena.childIndices? i) (hroots : next.roots = arena.roots) :
    next.Loose i where
  lt_size := hlt
  docsIndex := by
    change next.docsIndex? i = none
    rw [hdocs, docsIndex?, (arena.entryAt?_eq_none_iff i).2 hle, Option.bind_none]
  not_root := by
    rw [rootList, hroots]
    exact fun hi => Nat.not_lt.2 hle (h.root_lt i hi)
  childIndices := by
    rw [hchildren, childIndices?, (arena.entryAt?_eq_none_iff i).2 hle, Option.bind_none]

/-- **There are always calls that close a circle.** -/
theorem Given.exists_calls_circle (h : Given calls arena) :
    ∃ operations i, TransGen (Up (arena.afterAll operations).forest.docsParent?) i i := by
  -- two new nodes are loose whatever has been called before
  let decl := Declaration.group .null .null
  have hdocs : ∀ i, ((arena.add decl).add decl).docsIndex? i = arena.docsIndex? i := fun i =>
    ((arena.add decl).bind_entryAt?_add rfl i).trans (arena.bind_entryAt?_add rfl i)
  have hchildren : ∀ i, ((arena.add decl).add decl).childIndices? i = arena.childIndices? i := fun i =>
    ((arena.add decl).bind_entryAt?_add rfl i).trans (arena.bind_entryAt?_add rfl i)
  have hsize : ((arena.add decl).add decl).size = arena.size + 2 := by simp
  have hfirst : ((arena.add decl).add decl).Loose arena.size :=
    h.loose_of_new (Nat.le_refl _) (by omega) (hdocs _) (hchildren _) rfl
  have hsecond : ((arena.add decl).add decl).Loose (arena.size + 1) :=
    h.loose_of_new (Nat.le_succ _) (by omega) (hdocs _) (hchildren _) rfl
  obtain ⟨next, last, hnext, hlast, hloop⟩ :=
    exists_circle hfirst hsecond (Nat.ne_of_lt (Nat.lt_succ_self _))
  refine ⟨[.add decl, .add decl, .setChildren (arena.size + 1 : Nat) [(arena.size : Int)],
    .setChildren arena.size [(arena.size + 1 : Nat)]], arena.size, ?_⟩
  change TransGen (Up ((((arena.add decl).add decl).after _).after _).forest.docsParent?) _ _
  rwa [after_of_step hnext, after_of_step hlast]

/-! ## The walk -/

/-- A walk without a bound ends exactly if the roots lead to no circle. -/
theorem Given.exists_stackWalk_iff (h : Given calls arena) :
    (∃ nodes, StackWalk arena.forest.childrenOf arena.forest.rootList nodes) ↔
      Acyclic arena.forest.childrenOf arena.forest.rootList :=
  ⟨fun ⟨_, hwalk⟩ => hwalk.acyclic, fun hacyclic => ⟨_, stackWalk_preorder fun _ _ =>
    hacyclic.length_trail_le fun _ => h.below_lt⟩⟩

/-- **Walking through the documentation ends behind any calls that give no root to another node, if those
lists of children that the roots lead to are read as they have been given**, as all lists are if no index
counts from the end.  Without that it ends exactly if the roots lead to no circle.  Some more calls can always
close a circle among nodes that no root leads to. -/
theorem walk_ends_afterAll (operations : List Operation) :
    let arena := afterAll {} operations
    let forest := arena.forest
    ((∀ r ∈ forest.rootList, ∀ g ∈ grants {} operations, r ∉ g.named) →
        (∀ g ∈ grants {} operations, Below forest.childrenOf forest.rootList g.owner →
          g.Steady arena.size) → forest.WalkEnds) ∧
      ((∀ call ∈ accepted {} operations, call.2.Direct) → forest.WalkEnds) ∧
      ((∃ nodes, StackWalk forest.childrenOf forest.rootList nodes) ↔
        Acyclic forest.childrenOf forest.rootList) ∧
      ∃ more i, TransGen (Up (afterAll {} (operations ++ more)).forest.docsParent?) i i := by
  have hgiven := given_afterAll operations
  refine ⟨fun hroots hsteady => (hgiven.tiedBelow hsteady hroots).walkEnds, fun hdirect => ?_,
    hgiven.exists_stackWalk_iff, ?_⟩
  · obtain ⟨forest, heq, htied⟩ := exists_ofForest_afterAll hdirect
    rw [heq, forest_ofForest]
    exact htied.below.walkEnds
  · obtain ⟨more, i, hloop⟩ := hgiven.exists_calls_circle
    refine ⟨more, i, ?_⟩
    rwa [afterAll, List.foldl_append]

/-- None of these calls is refused, and the root is its own child: walking never ends. -/
theorem walk_runs_in_circle :
    let decl := Declaration.group (.str "G") .null
    let operations : List Operation := [.add decl, .add decl, .setRoots [0], .setChildren 0 [-2]]
    let forest := (afterAll {} operations).forest
    (accepted {} operations).length = 4 ∧ forest.rootList = [0] ∧ forest.childrenOf 0 = [0] ∧
      forest.docsParent? 0 = some 0 ∧ ∀ nodes, ¬StackWalk forest.childrenOf forest.rootList nodes := by
  intro decl operations forest
  have hroots : forest.rootList = [0] := by decide +kernel
  have hchildren : forest.childrenOf 0 = [0] := by decide +kernel
  refine ⟨by decide +kernel, hroots, hchildren, by decide +kernel, fun nodes hwalk => ?_⟩
  have hroot : Below forest.childrenOf forest.rootList 0 := .start (hroots ▸ List.mem_cons_self)
  exact hwalk.acyclic 0 hroot (.start (hchildren ▸ List.mem_cons_self))

end Arena
end DocForest
