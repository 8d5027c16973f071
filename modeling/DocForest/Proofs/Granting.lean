import DocForest.Arena.Lemmas
import DocForest.Proofs.Ties
import Mathlib.Data.List.Nodup

/-!
# Lists of children that have been given

An index that counts from the end names one node when a list of children is given and another one when it is
read among more nodes.  What an arena shows can therefore be told from the calls that have not been refused,
each with the number of nodes that it has found: **the links are the indices of these calls, stored at the
nodes that they named then, and read as they name nodes now.**

## What is here

* `Arena.accepted` — the calls that are not refused; `Arena.grants` — those that give a node its children.
* `Grant.owner`, `Grant.named` — the nodes that such a call has named; `Grant.parentAt` and
  `Grant.childrenAt` — the nodes that its indices name among so many.
* `Arena.Given`, `given_afterAll` — the links that there are, and the calls that they come from.
* `Given.mem_childrenOf_iff`, `Given.docsParent?_eq_some_iff` — what the arena shows of them.
* `Grant.Steady`, `Given.tied_iff` — **children and parents agree exactly if all these calls are read as
  they have been made.**
-/

set_option autoImplicit false

namespace DocForest

/-- A call that has given a node its children. -/
structure Grant where
  /-- The number of nodes that there were. -/
  size : Nat
  parent : Int
  children : List Int
  deriving DecidableEq, Repr

/-- The children that a call gives if it is not refused. -/
def Operation.grant? (size : Nat) : Operation → Option Grant
  | .setChildren parent children => some ⟨size, parent, children⟩
  | .add _ | .addAgain _ | .link _ _ | .setRoots _ => none

namespace Grant

/-- The node that the call names as the parent, among `size` nodes. -/
def parentAt (g : Grant) (size : Nat) : Nat :=
  position size g.parent

/-- The nodes that it names as children, among `size` nodes. -/
def childrenAt (g : Grant) (size : Nat) : List Nat :=
  g.children.map (position size)

/-- The node that has been given the children. -/
def owner (g : Grant) : Nat :=
  g.parentAt g.size

/-- The nodes that have been given to it. -/
def named (g : Grant) : List Nat :=
  g.childrenAt g.size

/-- Whether the call is read among `size` nodes as it has been made, and has not given a node to itself. -/
structure Steady (g : Grant) (size : Nat) : Prop where
  /-- It names the same parent, unless it has given it no children. -/
  parentAt_eq : g.children ≠ [] → g.parentAt size = g.owner
  /-- It names the same children. -/
  mem_childrenAt_iff : ∀ i, i ∈ g.childrenAt size ↔ i ∈ g.named
  owner_not_mem : g.owner ∉ g.named

theorem children_ne_nil {g : Grant} {i : Nat} (h : i ∈ g.named) : g.children ≠ [] := by
  rintro hnil
  rw [named, childrenAt, hnil] at h
  exact List.not_mem_nil h

end Grant

namespace Arena

variable {arena next : Arena} {operation : Operation} {calls : List Grant} {g g' : Grant} {i p c r : Nat}

/-- Those of several calls that are not refused, each with the number of nodes that it finds. -/
def accepted (arena : Arena) : List Operation → List (Nat × Operation)
  | [] => []
  | operation :: rest =>
    match operation.apply arena with
    | .ok next => (arena.size, operation) :: next.accepted rest
    | .error _ => arena.accepted rest

/-- Those of them that give a node its children. -/
def grants (arena : Arena) (operations : List Operation) : List Grant :=
  (arena.accepted operations).filterMap fun call => call.2.grant? call.1

/-! ## Links and calls -/

theorem exists_mem_concat {p : Grant → Prop} :
    (∃ g ∈ calls ++ [g'], p g) ↔ (∃ g ∈ calls, p g) ∨ p g' := by
  simp [or_and_right, exists_or]

/-- The links of the documentation are what some calls have given. -/
structure Given (calls : List Grant) (arena : Arena) : Prop where
  size_le : ∀ g ∈ calls, g.size ≤ arena.size
  owner_lt : ∀ g ∈ calls, g.owner < g.size
  named_lt : ∀ g ∈ calls, ∀ c ∈ g.named, c < g.size
  owners_nodup : (calls.map Grant.owner).Nodup
  childIndices?_iff : ∀ {i children}, arena.childIndices? i = some children ↔
    ∃ g ∈ calls, g.owner = i ∧ g.children = children
  docsIndex?_iff : ∀ {i k}, arena.docsIndex? i = some k ↔ ∃ g ∈ calls, i ∈ g.named ∧ g.parent = k
  root_lt : ∀ r ∈ arena.rootList, arena.position r < arena.size

namespace Given

theorem empty : Given [] {} where
  size_le _ h := absurd h List.not_mem_nil
  owner_lt _ h := absurd h List.not_mem_nil
  named_lt _ h := absurd h List.not_mem_nil
  owners_nodup := List.nodup_nil
  childIndices?_iff := by simp [childIndices?, entryAt?]
  docsIndex?_iff := by simp [docsIndex?, entryAt?]
  root_lt _ h := absurd h List.not_mem_nil

theorem congr (h : Given calls arena) (hsize : arena.size ≤ next.size)
    (hchildren : ∀ i, next.childIndices? i = arena.childIndices? i)
    (hdocs : ∀ i, next.docsIndex? i = arena.docsIndex? i)
    (hroots : ∀ r ∈ next.rootList, next.position r < next.size) : Given calls next where
  size_le g hg := Nat.le_trans (h.size_le g hg) hsize
  owner_lt := h.owner_lt
  named_lt := h.named_lt
  owners_nodup := h.owners_nodup
  childIndices?_iff := by
    intro i children
    rw [hchildren]
    exact h.childIndices?_iff
  docsIndex?_iff := by
    intro i k
    rw [hdocs]
    exact h.docsIndex?_iff
  root_lt := hroots

theorem setChildren (h : Given calls arena) {parent : Int} {children : List Int}
    (hparent : arena.position parent < arena.size)
    (hfree : arena.childIndices? (arena.position parent) = none)
    (hchildren : ∀ c ∈ children, arena.Unplaced c ∧ c ≠ parent) :
    Given (calls ++ [⟨arena.size, parent, children⟩]) (arena.withChildren parent children) := by
  have hlt : ∀ c ∈ children, arena.position c < arena.size := fun c hc => (hchildren c hc).1.lt_size
  have hsize : (arena.withChildren parent children).size = arena.size :=
    arena.size_withChildren parent children
  -- the node has had no children before, and none of its children a parent
  have howner : ∀ g ∈ calls, g.owner ≠ arena.position parent := fun g hg heq =>
    Option.some_ne_none _ ((h.childIndices?_iff.2 ⟨g, hg, heq, rfl⟩).symm.trans hfree)
  have hnamed : ∀ g ∈ calls, ∀ i ∈ g.named, i ∉ children.map arena.position := by
    intro g hg i hi hmem
    obtain ⟨c, hc, rfl⟩ := List.mem_map.1 hmem
    exact Option.some_ne_none _
      ((h.docsIndex?_iff.2 ⟨g, hg, hi, rfl⟩).symm.trans (hchildren c hc).1.docsIndex)
  exact
    { size_le := by
        rw [hsize, List.forall_mem_append]
        exact ⟨h.size_le, by simp⟩
      owner_lt := by
        rw [List.forall_mem_append]
        exact ⟨h.owner_lt, List.forall_mem_singleton.2 hparent⟩
      named_lt := by
        rw [List.forall_mem_append]
        exact ⟨h.named_lt, List.forall_mem_singleton.2 (List.forall_mem_map.2 hlt)⟩
      owners_nodup := by
        rw [List.map_append, List.map_singleton, ← List.concat_eq_append, List.nodup_concat]
        refine ⟨fun hmem => ?_, h.owners_nodup⟩
        obtain ⟨g, hg, heq⟩ := List.mem_map.1 hmem
        exact howner g hg heq
      childIndices?_iff := by
        intro i list
        rw [childIndices?_withChildren hparent, exists_mem_concat]
        split
        · next hi =>
          subst hi
          constructor
          · exact fun hlist => .inr ⟨rfl, Option.some.inj hlist⟩
          · rintro (⟨g, hg, hi, -⟩ | ⟨-, rfl⟩)
            · exact absurd hi (howner g hg)
            · rfl
        · next hi => rw [h.childIndices?_iff, or_iff_left fun hnew => hi hnew.1]
      docsIndex?_iff := by
        intro i k
        rw [docsIndex?_withChildren hlt, exists_mem_concat]
        split
        · next hi =>
          constructor
          · exact fun hk => .inr ⟨hi, Option.some.inj hk⟩
          · rintro (⟨g, hg, hmem, -⟩ | ⟨-, rfl⟩)
            · exact absurd hi (hnamed g hg i hmem)
            · rfl
        · next hi => rw [h.docsIndex?_iff, or_iff_left fun hnew => hi hnew.1]
      root_lt := by
        intro r hr
        rw [rootList, roots_withChildren] at hr
        rw [position, hsize]
        exact h.root_lt r hr }

/-- **A step stores what its call gives.** -/
theorem step (h : Given calls arena) (hnext : Step arena operation next) :
    Given (calls ++ (operation.grant? arena.size).toList) next := by
  cases hnext with
  | add decl =>
    rw [Operation.grant?, Option.toList_none, List.append_nil]
    refine h.congr (by simp) (fun i => arena.bind_entryAt?_add rfl i) (fun i => arena.bind_entryAt?_add rfl i)
      fun r hr => ?_
    have hlt := position_lt_iff.1 (h.root_lt r hr)
    rw [position, position_lt_iff, size_add]
    omega
  | @link child parent _ _ =>
    rw [Operation.grant?, Option.toList_none, List.append_nil]
    refine h.congr (by simp) (fun i => bind_entryAt?_modify fun _ => rfl)
      (fun i => bind_entryAt?_modify fun _ => rfl) fun r hr => ?_
    rw [position_modify, size_modify]
    exact h.root_lt r hr
  | setChildren hparent hfree hchildren => exact h.setChildren hparent hfree hchildren
  | setRoots _ hroots =>
    rw [Operation.grant?, Option.toList_none, List.append_nil]
    exact h.congr (Nat.le_refl _) (fun _ => rfl) (fun _ => rfl) fun r hr => (hroots r hr).1

/-- **So do all calls.** -/
theorem afterAll (h : Given calls arena) (operations : List Operation) :
    Given (calls ++ arena.grants operations) (arena.afterAll operations) := by
  induction operations generalizing calls arena with
  | nil =>
    rw [Arena.grants, accepted, List.filterMap_nil, List.append_nil]
    exact h
  | cons operation rest ih =>
    change Given _ ((arena.after operation).afterAll rest)
    rw [Arena.grants, accepted, after]
    cases happly : operation.apply arena with
    | error failure => exact ih h
    | ok next =>
      have hrest := ih (h.step (apply_eq_ok_iff.1 happly))
      rw [List.append_assoc] at hrest
      dsimp only
      rw [List.filterMap_cons]
      cases hgrant : operation.grant? arena.size with
      | none => rwa [hgrant] at hrest
      | some g => rwa [hgrant] at hrest

end Given

theorem given_afterAll (operations : List Operation) :
    Given (grants {} operations) (afterAll {} operations) :=
  Given.empty.afterAll operations

/-! ## What the arena shows -/

namespace Given

theorem eq_of_owner (h : Given calls arena) (hg : g ∈ calls) (hg' : g' ∈ calls)
    (heq : g.owner = g'.owner) : g = g' :=
  List.inj_on_of_nodup_map h.owners_nodup hg hg' heq

theorem mem_childrenOf_iff (h : Given calls arena) :
    c ∈ arena.forest.childrenOf p ↔ ∃ g ∈ calls, g.owner = p ∧ c ∈ g.childrenAt arena.size := by
  rw [childrenOf_forest]
  constructor
  · intro hc
    cases hlist : arena.childIndices? p with
    | none =>
      rw [hlist] at hc
      exact absurd hc List.not_mem_nil
    | some children =>
      obtain ⟨g, hg, howner, rfl⟩ := h.childIndices?_iff.1 hlist
      rw [hlist] at hc
      exact ⟨g, hg, howner, hc⟩
  · rintro ⟨g, hg, howner, hc⟩
    rw [h.childIndices?_iff.2 ⟨g, hg, howner, rfl⟩]
    exact hc

theorem docsParent?_eq_some_iff (h : Given calls arena) :
    arena.forest.docsParent? c = some p ↔ ∃ g ∈ calls, c ∈ g.named ∧ g.parentAt arena.size = p := by
  rw [docsParent?_forest, Option.map_eq_some_iff]
  constructor
  · rintro ⟨k, hk, rfl⟩
    obtain ⟨g, hg, hc, rfl⟩ := h.docsIndex?_iff.1 hk
    exact ⟨g, hg, hc, rfl⟩
  · rintro ⟨g, hg, hc, rfl⟩
    exact ⟨g.parent, h.docsIndex?_iff.2 ⟨g, hg, hc, rfl⟩, rfl⟩

theorem docsParent?_eq_none (h : Given calls arena) (hnamed : ∀ g ∈ calls, c ∉ g.named) :
    arena.forest.docsParent? c = none := by
  rw [Option.eq_none_iff_forall_ne_some]
  intro p hp
  obtain ⟨g, hg, hc, -⟩ := h.docsParent?_eq_some_iff.1 hp
  exact hnamed g hg hc

theorem lt_of_mem_childrenOf (h : Given calls arena) (hc : c ∈ arena.forest.childrenOf p) :
    c < arena.size := by
  obtain ⟨g, hg, -, hc⟩ := h.mem_childrenOf_iff.1 hc
  obtain ⟨k, hk, rfl⟩ := List.mem_map.1 hc
  have hlt := position_lt_iff.1 (h.named_lt g hg _ (List.mem_map_of_mem hk))
  have hle := h.size_le g hg
  rw [position_lt_iff]
  omega

theorem lt_of_mem_rootList (h : Given calls arena) (hr : r ∈ arena.forest.rootList) : r < arena.size := by
  rw [rootList_forest] at hr
  obtain ⟨k, hk, rfl⟩ := List.mem_map.1 hr
  exact h.root_lt k hk

theorem below_lt (h : Given calls arena)
    (hi : Below arena.forest.childrenOf arena.forest.rootList i) : i < arena.forest.size := by
  rw [size_forest]
  cases hi with
  | start hi => exact h.lt_of_mem_rootList hi
  | child _ hi => exact h.lt_of_mem_childrenOf hi

/-! ## When children and parents agree -/

/-- Among more nodes an index never names an earlier one. -/
theorem owner_le_parentAt (h : Given calls arena) (hg : g ∈ calls) : g.owner ≤ g.parentAt arena.size := by
  have hlt := position_lt_iff.1 (h.owner_lt g hg)
  have hle := h.size_le g hg
  have hthen := coe_position g.size g.parent
  have hnow := coe_position arena.size g.parent
  rw [Grant.owner, Grant.parentAt, Grant.parentAt]
  split at hthen <;> split at hnow <;> omega

/-- If children and parents agree, a child that has been given is still shown below the node that it has been
given to. -/
theorem parentAt_eq_of_tied (h : Given calls arena) (htied : arena.forest.Tied) (hg : g ∈ calls)
    (hne : g.children ≠ []) : g.parentAt arena.size = g.owner := by
  -- the parent that a child of the node has comes from this call, or from one with an earlier owner
  induction howner : g.owner using Nat.strongRecOn generalizing g with
  | _ owner ih =>
    subst howner
    obtain ⟨k, rest, hlist⟩ := List.exists_cons_of_ne_nil hne
    have hc : arena.position k ∈ g.childrenAt arena.size := by
      rw [Grant.childrenAt, hlist]
      exact List.mem_cons_self
    have hmem := h.mem_childrenOf_iff.2 ⟨g, hg, rfl, hc⟩
    obtain ⟨g', hg', hnamed, hparent⟩ := h.docsParent?_eq_some_iff.1 (htied.mem_childrenOf_iff.1 hmem)
    rcases Nat.lt_or_eq_of_le (hparent ▸ h.owner_le_parentAt hg') with hless | heq
    · have hsame := ih g'.owner hless hg' (Grant.children_ne_nil hnamed) rfl
      exact absurd (hsame.symm.trans hparent) (Nat.ne_of_lt hless)
    · obtain rfl := h.eq_of_owner hg' hg heq
      exact hparent

theorem mem_childrenAt_iff_of_tied (h : Given calls arena) (htied : arena.forest.Tied) (hg : g ∈ calls) :
    i ∈ g.childrenAt arena.size ↔ i ∈ g.named := by
  constructor
  · intro hi
    have hchild := h.mem_childrenOf_iff.2 ⟨g, hg, rfl, hi⟩
    obtain ⟨g', hg', hi', hparent⟩ := h.docsParent?_eq_some_iff.1 (htied.mem_childrenOf_iff.1 hchild)
    have howner := (h.parentAt_eq_of_tied htied hg' (Grant.children_ne_nil hi')).symm.trans hparent
    obtain rfl := h.eq_of_owner hg' hg howner
    exact hi'
  · intro hi
    have hparent := h.docsParent?_eq_some_iff.2
      ⟨g, hg, hi, h.parentAt_eq_of_tied htied hg (Grant.children_ne_nil hi)⟩
    obtain ⟨g', hg', howner, hi'⟩ := h.mem_childrenOf_iff.1 (htied.mem_childrenOf_iff.2 hparent)
    obtain rfl := h.eq_of_owner hg' hg howner
    exact hi'

theorem steady_of_tied (h : Given calls arena) (htied : arena.forest.Tied) (hg : g ∈ calls) :
    g.Steady arena.size where
  parentAt_eq := h.parentAt_eq_of_tied htied hg
  mem_childrenAt_iff _ := h.mem_childrenAt_iff_of_tied htied hg
  owner_not_mem hself := by
    have hi := (h.mem_childrenAt_iff_of_tied htied hg).2 hself
    exact htied.not_own_child g.owner (h.mem_childrenOf_iff.2 ⟨g, hg, rfl, hi⟩)

/-- **Children and parents agree exactly if every call that has given a node its children is read as it has
been made, and no root has been named by any of them.** -/
theorem tied_iff (h : Given calls arena) :
    arena.forest.Tied ↔ (∀ g ∈ calls, g.Steady arena.size) ∧
      ∀ r ∈ arena.forest.rootList, ∀ g ∈ calls, r ∉ g.named := by
  constructor
  · intro htied
    refine ⟨fun g hg => h.steady_of_tied htied hg, fun r hr g hg hi => ?_⟩
    have hparent := h.docsParent?_eq_some_iff.2 ⟨g, hg, hi, rfl⟩
    exact Option.some_ne_none _ (hparent.symm.trans (htied.root_free hr))
  · rintro ⟨hsteady, hroots⟩
    refine ⟨fun {p c} => ?_, fun p hp => ?_, fun {r} hr => ?_, fun {r} hr => ?_⟩
    · rw [h.mem_childrenOf_iff, h.docsParent?_eq_some_iff]
      constructor
      · rintro ⟨g, hg, rfl, hc⟩
        have hnamed := ((hsteady g hg).mem_childrenAt_iff c).1 hc
        exact ⟨g, hg, hnamed, (hsteady g hg).parentAt_eq (Grant.children_ne_nil hnamed)⟩
      · rintro ⟨g, hg, hc, rfl⟩
        have howner := (hsteady g hg).parentAt_eq (Grant.children_ne_nil hc)
        exact ⟨g, hg, howner.symm, ((hsteady g hg).mem_childrenAt_iff c).2 hc⟩
    · obtain ⟨g, hg, rfl, hc⟩ := h.mem_childrenOf_iff.1 hp
      exact (hsteady g hg).owner_not_mem (((hsteady g hg).mem_childrenAt_iff _).1 hc)
    · exact h.docsParent?_eq_none (hroots r hr)
    · rw [size_forest]
      exact h.lt_of_mem_rootList hr

/-- **Below the roots it is enough** that the lists of children are read so that belong to nodes there. -/
theorem tiedBelow (h : Given calls arena)
    (hsteady : ∀ g ∈ calls, Below arena.forest.childrenOf arena.forest.rootList g.owner →
      g.Steady arena.size)
    (hroots : ∀ r ∈ arena.forest.rootList, ∀ g ∈ calls, r ∉ g.named) : arena.forest.TiedBelow where
  docsParent_of_mem {p c} hp hchild := by
    obtain ⟨g, hg, rfl, hc⟩ := h.mem_childrenOf_iff.1 hchild
    have hnamed := ((hsteady g hg hp).mem_childrenAt_iff c).1 hc
    have howner := (hsteady g hg hp).parentAt_eq (Grant.children_ne_nil hnamed)
    exact h.docsParent?_eq_some_iff.2 ⟨g, hg, hnamed, howner⟩
  root_free hr := h.docsParent?_eq_none (hroots _ hr)
  lt_size := h.below_lt

end Given
end Arena
end DocForest
