import DocForest.Proofs.DirectCalls
import DocForest.Proofs.Refusals
import Mathlib.Data.List.Pairwise

/-!
# Lists that name a node twice

A child is refused if it has a parent already, and a root as well.  Both checks look at the arena as it is
before the call, so that they see what earlier calls have written, but not what the same call is about to
write: a list that names a free node twice passes them.  If no index counts from the end, **that is the only
way for a node to get two places.**  Whatever has a place is refused a second one by every later call, so that
nobody has two unless one call has named it twice.

Nodes may also be named twice by two different indices, in one list or by a root and a child.  In general
nobody has two places exactly if all lists together, as they are read now, repeat nothing.

## What is here

* `Operation.places` — the indices by which a call gives nodes a place.
* `Given.onePlace_iff` — **when nobody has two places.**
* `Tied.onePlace_iff`, `Given.noRepeats_iff` — if no index counts from the end, this is so exactly if no call
  has repeated an index.
* `Tied.nodup_walk_iff` — the walk meets no node twice if none of the lists that it goes through does.
* `refused_of_placed` — a call that names a node with a parent, or a root as it has been given, is refused.
* `places_afterAll` — all of this behind any calls; `set_repeats` shows lists that are not refused.
-/

set_option autoImplicit false

namespace DocForest

/-- The indices by which a call gives nodes a place in the documentation. -/
def Operation.places : Operation → List Int
  | .add _ | .addAgain _ | .link _ _ => []
  | .setChildren _ children => children
  | .setRoots roots => roots

theorem Operation.mem_indices_of_mem_places {operation : Operation} {k : Int} (h : k ∈ operation.places) :
    k ∈ operation.indices := by
  cases operation with
  | add | addAgain | link => exact (List.not_mem_nil h).elim
  | setChildren parent children => exact List.mem_cons_of_mem parent h
  | setRoots roots => exact h

namespace Forest

variable {forest : Forest} {i p : Nat}

/-- A node that is listed somewhere. -/
def Listed (forest : Forest) (i : Nat) : Prop :=
  i ∈ forest.rootList ∨ ∃ p, i ∈ forest.childrenOf p

/-! ## Lists without repetition -/

/-- No list of children and no list of roots names a node twice. -/
structure NoRepeats (forest : Forest) : Prop where
  roots : forest.rootList.Nodup
  children : ∀ p, (forest.childrenOf p).Nodup

theorem Tied.not_child_of_root (h : forest.Tied) (hi : i ∈ forest.rootList) : i ∉ forest.childrenOf p :=
  fun hchild => Option.some_ne_none p ((h.mem_childrenOf_iff.1 hchild).symm.trans (h.root_free hi))

/-- Two lists never share a node, so that this is enough for nobody to have two places. -/
theorem Tied.onePlace_iff (h : forest.Tied) :
    OnePlace forest.childrenOf forest.rootList ↔ forest.NoRepeats :=
  ⟨fun hplace => ⟨hplace.roots_nodup, hplace.children_nodup⟩, fun hnodup =>
    { roots_nodup := hnodup.roots
      children_nodup := hnodup.children
      parent_unique := h.parent_unique
      root_free := h.not_child_of_root }⟩

/-! ## The walk -/

/-- **The walk meets no node twice if and only if no list names one twice that it goes through.** -/
theorem Tied.nodup_walk_iff (h : forest.Tied) :
    forest.walk.Nodup ↔ forest.rootList.Nodup ∧ ∀ p ∈ forest.walk, (forest.childrenOf p).Nodup := by
  have hlength : ∀ i path, Trail forest.childrenOf forest.rootList i path → path.length ≤ forest.size :=
    fun _ _ => h.below.length_trail_le
  constructor
  · intro hwalk
    refine ⟨hwalk.sublist (sublist_preorder hlength), fun p hp => ?_⟩
    exact hwalk.sublist (children_sublist_preorder hlength (below_of_mem_preorder hp))
  · rintro ⟨hroots, hchildren⟩
    -- the lists that the walk does not go through can be left out, and then nobody has two places
    let lists := fun p => if p ∈ forest.walk then forest.childrenOf p else []
    have hsub : ∀ p, lists p ⊆ forest.childrenOf p := fun p => by
      dsimp only [lists]
      split
      · exact List.Subset.refl _
      · exact List.nil_subset _
    have hplace : OnePlace lists forest.rootList :=
      { roots_nodup := hroots
        children_nodup := fun p => by
          dsimp only [lists]
          split
          · exact hchildren p ‹_›
          · exact List.nodup_nil
        parent_unique := fun hp hq => h.parent_unique (hsub _ hp) (hsub _ hq)
        root_free := fun hroot hchild => h.not_child_of_root hroot (hsub _ hchild) }
    have hsame : ∀ p, Below forest.childrenOf forest.rootList p → forest.childrenOf p = lists p :=
      fun p hp => (if_pos ((h.below.acyclic.mem_preorder_iff_of_lt fun _ => h.below.lt_size).2 hp)).symm
    have hbound : ∀ i path, Trail lists forest.rootList i path → path.length ≤ forest.size :=
      fun _ _ => hplace.acyclic.length_trail_le fun i hi =>
        h.below.lt_size (hi.mono (List.Subset.refl _) hsub)
    rw [walk, preorder_congr hsame hlength hbound]
    exact hplace.nodup_preorder _

end Forest

namespace Arena

variable {arena next : Arena} {operation : Operation} {operations : List Operation} {calls : List Grant}
  {g : Grant} {k : Int}

/-! ## All lists together -/

theorem eq_of_mem_flatMap {α β : Type} {items : List α} {part : α → List β} {a b : α} {x : β}
    (h : (items.flatMap part).Nodup) (ha : a ∈ items) (hb : b ∈ items) (hx : x ∈ part a) (hx' : x ∈ part b) :
    a = b := by
  have hsymm : Std.Symm (Function.onFun List.Disjoint part) := ⟨fun _ _ hpair _ hi hi' => hpair hi' hi⟩
  by_contra hne
  exact (List.nodup_flatMap.1 h).2.forall ha hb hne hx hx'

theorem Given.childrenOf_owner (h : Given calls arena) (hg : g ∈ calls) :
    arena.forest.childrenOf g.owner = g.childrenAt arena.size := by
  rw [childrenOf_forest, h.childIndices?_iff.2 ⟨g, hg, rfl, rfl⟩]
  rfl

/-- **Nobody has two places exactly if the roots and the children of all calls, as they are read now, name
nobody twice.** -/
theorem Given.onePlace_iff (h : Given calls arena) :
    OnePlace arena.forest.childrenOf arena.forest.rootList ↔
      (arena.forest.rootList ++ calls.flatMap fun g => g.childrenAt arena.size).Nodup := by
  rw [List.nodup_append']
  constructor
  · intro hplace
    refine ⟨hplace.roots_nodup, List.nodup_flatMap.2 ⟨fun g hg => ?_, ?_⟩, fun i hroot hi => ?_⟩
    · rw [← h.childrenOf_owner hg]
      exact hplace.children_nodup _
    · refine (List.pairwise_map.1 h.owners_nodup).imp_of_mem fun {g g'} hg hg' hne i hi hi' => hne ?_
      have hchild := h.mem_childrenOf_iff.2 ⟨g, hg, rfl, hi⟩
      have hchild' := h.mem_childrenOf_iff.2 ⟨g', hg', rfl, hi'⟩
      exact hplace.parent_unique hchild hchild'
    · obtain ⟨g, hg, hi⟩ := List.mem_flatMap.1 hi
      exact hplace.root_free hroot (h.mem_childrenOf_iff.2 ⟨g, hg, rfl, hi⟩)
  · rintro ⟨hroots, hchildren, hdisjoint⟩
    refine ⟨hroots, fun p => ?_, fun {p q i} hp hq => ?_, fun {p i} hroot hi => ?_⟩
    · by_cases hnil : arena.forest.childrenOf p = []
      · exact hnil ▸ List.nodup_nil
      · obtain ⟨i, hi⟩ := List.exists_mem_of_ne_nil _ hnil
        obtain ⟨g, hg, rfl, -⟩ := h.mem_childrenOf_iff.1 hi
        exact h.childrenOf_owner hg ▸ (List.nodup_flatMap.1 hchildren).1 g hg
    · obtain ⟨g, hg, rfl, hi⟩ := h.mem_childrenOf_iff.1 hp
      obtain ⟨g', hg', rfl, hi'⟩ := h.mem_childrenOf_iff.1 hq
      exact congrArg Grant.owner (eq_of_mem_flatMap hchildren hg hg' hi hi')
    · obtain ⟨g, hg, -, hi⟩ := h.mem_childrenOf_iff.1 hi
      exact hdisjoint hroot (List.mem_flatMap.2 ⟨g, hg, hi⟩)

/-! ## Indices that count from the front -/

theorem nodup_natCast_iff (items : List Nat) : (items.map (Nat.cast : Nat → Int)).Nodup ↔ items.Nodup :=
  List.nodup_map_iff fun _ _ => Int.ofNat.inj

/-- A forest repeats nothing exactly if none of the lists does that it has been given. -/
theorem Given.noRepeats_iff {forest : Forest} (h : Given calls (ofForest forest)) :
    forest.NoRepeats ↔ (ofForest forest).rootList.Nodup ∧ ∀ g ∈ calls, g.children.Nodup := by
  have hlist : ∀ i children, forest.childList? i = some children ↔
      ∃ g ∈ calls, g.owner = i ∧ g.children = children.map Nat.cast := fun i children => by
    rw [← h.childIndices?_iff, childIndices?_ofForest]
    constructor
    · exact fun hi => hi ▸ rfl
    · intro hi
      obtain ⟨children', hi', hmap⟩ := Option.map_eq_some_iff.1 hi
      rw [hi', (List.map_injective_iff.2 fun _ _ => Int.ofNat.inj) hmap]
  rw [rootList_ofForest, nodup_natCast_iff]
  constructor
  · rintro ⟨hroots, hchildren⟩
    refine ⟨hroots, fun g hg => ?_⟩
    have hgiven := h.childIndices?_iff.2 ⟨g, hg, rfl, rfl⟩
    rw [childIndices?_ofForest] at hgiven
    obtain ⟨children, hi, hmap⟩ := Option.map_eq_some_iff.1 hgiven
    rw [← hmap, nodup_natCast_iff]
    have hnodup := hchildren g.owner
    rwa [Forest.childrenOf_eq, hi, Option.getD_some] at hnodup
  · rintro ⟨hroots, hcalls⟩
    refine ⟨hroots, fun p => ?_⟩
    rw [Forest.childrenOf_eq]
    cases hp : forest.childList? p with
    | none => exact List.nodup_nil
    | some children =>
      obtain ⟨g, hg, -, hmap⟩ := (hlist p children).1 hp
      exact (nodup_natCast_iff children).1 (hmap ▸ hcalls g hg)

/-! ## A second place -/

/-- A call is refused, and over a link that there is if all nodes that it looks up are there. -/
def Refuses (arena : Arena) (operation : Operation) : Prop :=
  ∃ failure, operation.apply arena = .error failure ∧
    ((∀ j ∈ operation.lookedUp, arena.position j < arena.size) → failure.isAssembly = true)

/-- **A call that names a node with a parent is refused, and so is one that names a root by the index that it
has been given.** -/
theorem refused_of_placed (hk : k ∈ operation.places)
    (hplaced : arena.forest.docsParent? (arena.position k) ≠ none ∨ k ∈ arena.rootList) :
    arena.Refuses operation := by
  cases happly : operation.apply arena with
  | error failure =>
    refine ⟨failure, happly, fun hlt => (apply_eq_error happly).resolve_right fun ⟨_, j, hj, hle⟩ => ?_⟩
    exact Nat.not_lt.2 hle (hlt j hj)
  | ok next =>
    rw [docsParent?_forest, Ne, Option.map_eq_none_iff] at hplaced
    cases apply_eq_ok_iff.1 happly with
    | add | link => exact (List.not_mem_nil hk).elim
    | setChildren _ _ hchildren =>
      obtain ⟨hunplaced, -⟩ := hchildren k hk
      rcases hplaced with hdocs | hroot
      · exact absurd hunplaced.docsIndex hdocs
      · exact absurd hroot hunplaced.not_root
    | setRoots hfree hroots =>
      rcases hplaced with hdocs | hroot
      · exact absurd (hroots k hk).2 hdocs
      · rw [rootList, hfree] at hroot
        exact (List.not_mem_nil hroot).elim

/-! ## Behind any calls -/

/-- **Behind any calls nobody has two places exactly if the roots and all children that have been given, as
they are read now, name nobody twice; then the walk meets every node once.**  If no index counts from the end
this is so exactly if no call repeats an index; the walk meets no node twice if no list does that it goes
through, and every call that names a node with a place is refused.  In general it is refused over a parent, and
over a root that is named by the index that it has been given. -/
theorem places_afterAll (operations : List Operation) :
    let arena := afterAll {} operations
    let forest := arena.forest
    (OnePlace forest.childrenOf forest.rootList ↔
        (forest.rootList ++ (grants {} operations).flatMap fun g => g.childrenAt arena.size).Nodup) ∧
      (OnePlace forest.childrenOf forest.rootList → forest.walk.Nodup) ∧
      (∀ operation : Operation, ∀ k ∈ operation.places,
        forest.docsParent? (arena.position k) ≠ none ∨ k ∈ arena.rootList → arena.Refuses operation) ∧
      ((∀ call ∈ accepted {} operations, call.2.Direct) →
        (OnePlace forest.childrenOf forest.rootList ↔
            arena.rootList.Nodup ∧ ∀ g ∈ grants {} operations, g.children.Nodup) ∧
          (forest.walk.Nodup ↔
            forest.rootList.Nodup ∧ ∀ p ∈ forest.walk, (forest.childrenOf p).Nodup) ∧
          ∀ operation : Operation, operation.Direct → ∀ k ∈ operation.places,
            forest.Listed (arena.position k) → arena.Refuses operation) := by
  have hgiven := given_afterAll operations
  refine ⟨hgiven.onePlace_iff, fun hplace => hplace.nodup_preorder _, fun _ _ => refused_of_placed,
    fun hdirect => ?_⟩
  obtain ⟨forest, heq, htied⟩ := exists_ofForest_afterAll hdirect
  rw [heq, forest_ofForest]
  refine ⟨htied.onePlace_iff.trans (heq ▸ hgiven).noRepeats_iff, htied.nodup_walk_iff,
    fun operation hoperation k hk hlisted => ?_⟩
  lift k to Nat using hoperation k (Operation.mem_indices_of_mem_places hk)
  refine refused_of_placed hk ?_
  rw [forest_ofForest, rootList_ofForest]
  rcases hlisted with hroot | ⟨p, hp⟩
  · exact .inr (List.mem_map_of_mem hroot)
  · exact .inl fun hnone => Option.some_ne_none p ((htied.mem_childrenOf_iff.1 hp).symm.trans hnone)

/-- Neither the children of a node nor the roots are refused for naming a node twice, be it by one index or by
two. -/
theorem set_repeats :
    let decl := Declaration.group (.str "G") .null
    let same : List Operation := [.add decl, .add decl, .setChildren 0 [1, 1], .setRoots [0, 0]]
    let other : List Operation := [.add decl, .add decl, .setChildren 0 [1, -1], .setRoots [0]]
    ((accepted {} same).length = 4 ∧ (afterAll {} same).forest.childrenOf 0 = [1, 1] ∧
        (afterAll {} same).forest.rootList = [0, 0] ∧
        (afterAll {} same).forest.walk = [0, 1, 1, 0, 1, 1]) ∧
      ((accepted {} other).length = 4 ∧ (afterAll {} other).childIndices? 0 = some [1, -1] ∧
        (afterAll {} other).forest.walk = [0, 1, 1]) := by
  decide +kernel

end Arena
end DocForest
