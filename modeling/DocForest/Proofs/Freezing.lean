import DocForest.Build.Assembly
import DocForest.Proofs.Ascent
import DocForest.Proofs.Grouping
import DocForest.Proofs.Views

/-!
# Writing the links of a layout

Every link is written once, and the operations check that.  Where nobody has two places in a layout
the checks have nothing to find, so that freezing succeeds; the documentation is then the layout as
far as its roots lead.

## What is here

* `Forest.Fresh` — nothing has a place in the documentation yet.
* `Forest.Written` — the lists of some nodes have been written and no others; `Written.freezeNode` and
  `Written.foldlM` write one more, and several.
* `Forest.Frozen`, `Forest.freeze_eq_ok` — **freezing a tidy layout succeeds**, and what it gives.
* `Frozen.mem_walk`, `Frozen.nodup_walk` — the walk meets what the layout reaches, once;
  `Frozen.walk_eq` — in the order of the layout.
* `Frozen.mem_childrenOf_iff` — children and parents agree.
-/

set_option autoImplicit false

namespace DocForest
namespace Forest

variable {forest state frozen : Forest} {layout : Layout} {done : List Nat} {i p q c : Nat}

/-- Nothing has a place in the documentation. -/
structure Fresh (forest : Forest) : Prop where
  docsParent : ∀ i, forest.docsParent? i = none
  childList : ∀ i, forest.childList? i = none
  roots : forest.roots = none

/-- The lists of the nodes `done` have been written into `forest`, and nothing else. -/
structure Written (layout : Layout) (forest : Forest) (done : List Nat) (state : Forest) : Prop where
  bounds : state.bounds = forest.bounds
  childrenOf : ∀ p, state.childrenOf p = if p ∈ done then layout.childrenOf p else []
  childList : ∀ p, p ∉ done → state.childList? p = none
  docsParent : ∀ {c p}, state.docsParent? c = some p ↔ p ∈ done ∧ c ∈ layout.childrenOf p
  view : ∀ {β : Type} {read : Node → β}, Unlinked read → ∀ i, state.view read i = forest.view read i

/-! ## Giving a node its children -/

/-- No node of `done` lists a child of another node. -/
theorem Written.docsParent_eq_none (h : Written layout forest done state)
    (hplace : OnePlace layout.childrenOf layout.roots) (hp : p ∉ done)
    (hc : c ∈ layout.childrenOf p) : state.docsParent? c = none := by
  rw [Option.eq_none_iff_forall_ne_some]
  intro q hq
  obtain ⟨hdone, hchild⟩ := h.docsParent.1 hq
  exact hp (hplace.parent_unique hc hchild ▸ hdone)

/-- **One more list can be written**, and then it has been. -/
theorem Written.freezeNode (h : Written layout forest done state) (hfresh : forest.Fresh)
    (hplace : OnePlace layout.childrenOf layout.roots) (hwithin : layout.Within forest.size)
    (hp : p ∉ done) (hlt : p < forest.size) (hself : p ∉ layout.childrenOf p) :
    ∃ next, Forest.freezeNode layout state p = .ok next ∧
      Written layout forest (done ++ [p]) next := by
  have hsize : state.size = forest.size := congrArg Prod.fst h.bounds
  by_cases hempty : layout.childrenOf p = []
  · refine ⟨state, by simp [Forest.freezeNode, hempty], h.bounds, fun q => ?_, fun q hq => ?_,
      fun {c q} => ?_, h.view⟩
    · rw [h.childrenOf]
      by_cases hq : q = p <;> simp [hq, hempty]
    · exact h.childList q fun hmem => hq (List.mem_append_left _ hmem)
    · rw [h.docsParent]
      by_cases hq : q = p <;> simp [hq, hempty]
  · have hset : state.setChildren p (layout.childrenOf p) =
        .ok (state.withChildren p (layout.childrenOf p)) := by
      refine setChildren_eq_ok.2 ⟨hsize ▸ hlt, h.childList p hp, fun c hc => ⟨?_, ?_, ?_, ?_⟩, rfl⟩
      · exact hsize ▸ hwithin.children p c hc
      · exact h.docsParent_eq_none hplace hp hc
      · have hroots : state.roots = none := (congrArg Prod.snd h.bounds).trans hfresh.roots
        rw [rootList, hroots]
        exact List.not_mem_nil
      · exact fun heq => hself (heq ▸ hc)
    refine ⟨state.withChildren p (layout.childrenOf p), ?_, ?_, fun q => ?_, fun q hq => ?_,
      fun {c q} => ?_, fun hread i => ?_⟩
    · simpa [Forest.freezeNode, hempty] using hset
    · rw [bounds_withChildren, h.bounds]
    · rw [childrenOf_eq, childList?_withChildren (hsize ▸ hlt)]
      by_cases hq : p = q
      · simp [hq]
      · rw [if_neg hq, ← childrenOf_eq, h.childrenOf]
        simp [Ne.symm hq]
    · rw [List.mem_append, List.mem_singleton, not_or] at hq
      rw [childList?_withChildren (hsize ▸ hlt), if_neg (Ne.symm hq.2)]
      exact h.childList q hq.1
    · rw [docsParent?_withChildren_of_lt (hsize ▸ hwithin.children p)]
      by_cases hc : c ∈ layout.childrenOf p
      · rw [if_pos hc, Option.some.injEq]
        exact ⟨fun heq => heq ▸ ⟨by simp, hc⟩, fun hq => hplace.parent_unique hc hq.2⟩
      · rw [if_neg hc, h.docsParent]
        have hne : c ∈ layout.childrenOf q → q ≠ p := fun hq heq => hc (heq ▸ hq)
        grind
    · rw [view_withChildren hread, h.view hread]

/-- **All lists can be written one after the other.** -/
theorem Written.foldlM {todo : List Nat} (h : Written layout forest done state)
    (hfresh : forest.Fresh) (hplace : OnePlace layout.childrenOf layout.roots)
    (hwithin : layout.Within forest.size) (hnodup : (done ++ todo).Nodup)
    (hlt : ∀ p ∈ todo, p < forest.size) (hself : ∀ p ∈ todo, p ∉ layout.childrenOf p) :
    ∃ final, todo.foldlM (Forest.freezeNode layout) state = .ok final ∧
      Written layout forest (done ++ todo) final := by
  induction todo generalizing state done with
  | nil => exact ⟨state, rfl, by simpa using h⟩
  | cons p rest ih =>
    have hp : p ∉ done := fun hmem =>
      (List.nodup_append.1 hnodup).2.2 p hmem p List.mem_cons_self rfl
    obtain ⟨next, hnext, hwritten⟩ := h.freezeNode hfresh hplace hwithin hp
      (hlt p List.mem_cons_self) (hself p List.mem_cons_self)
    rw [List.append_cons] at hnodup ⊢
    obtain ⟨final, hfinal, hall⟩ := ih hwritten hnodup
      (fun q hq => hlt q (List.mem_cons_of_mem _ hq))
      (fun q hq => hself q (List.mem_cons_of_mem _ hq))
    exact ⟨final, by rw [List.foldlM_cons, hnext]; exact hfinal, hall⟩

/-! ## Freezing -/

/-- `frozen` is `forest` with the links of `layout`. -/
structure Frozen (layout : Layout) (forest frozen : Forest) : Prop where
  size : frozen.size = forest.size
  rootList : frozen.rootList = layout.roots
  childrenOf : ∀ p, frozen.childrenOf p =
    if p ∈ layout.reachable then layout.childrenOf p else []
  docsParent : ∀ {c p}, frozen.docsParent? c = some p ↔
    p ∈ layout.reachable ∧ c ∈ layout.childrenOf p
  view : ∀ {β : Type} {read : Node → β}, Unlinked read → ∀ i, frozen.view read i = forest.view read i

theorem written_nil (h : forest.Fresh) : Written layout forest [] forest where
  bounds := rfl
  childrenOf p := by rw [childrenOf_eq, h.childList p]; rfl
  childList p _ := h.childList p
  docsParent {c p} := by simp [h.docsParent c]
  view _ _ := rfl

/-- **Freezing a tidy layout succeeds.** -/
theorem freeze_eq_ok (h : layout.Tidy forest.size) (hfresh : forest.Fresh) :
    ∃ frozen, forest.freeze layout = .ok frozen ∧ Frozen layout forest frozen := by
  have hbelow : ∀ p ∈ layout.reachable, Below layout.childrenOf layout.roots p :=
    fun p hp => (Layout.mem_reachable_iff h.onePlace).1 hp
  obtain ⟨linked, hlinked, hwritten⟩ := (written_nil hfresh).foldlM hfresh h.onePlace h.within
    (by simpa using Layout.nodup_reachable h.onePlace)
    (fun p hp => h.within.below (hbelow p hp))
    (fun p hp hmem => h.onePlace.acyclic p (hbelow p hp) (.start hmem))
  rw [List.nil_append] at hwritten
  have hsize : linked.size = forest.size := congrArg Prod.fst hwritten.bounds
  have hset : linked.setRoots layout.roots = .ok { linked with roots := some layout.roots } := by
    refine setRoots_eq_ok.2 ⟨?_, fun i hi => ⟨?_, ?_⟩, rfl⟩
    · exact (congrArg Prod.snd hwritten.bounds).trans hfresh.roots
    · exact hsize ▸ h.within.roots i hi
    · rw [Option.eq_none_iff_forall_ne_some]
      exact fun p hp => h.onePlace.root_free hi (hwritten.docsParent.1 hp).2
  refine ⟨_, Outcome.bind_eq_ok.2 ⟨linked, hlinked, hset⟩, hsize, rfl, ?_, ?_, ?_⟩
  · exact hwritten.childrenOf
  · exact hwritten.docsParent
  · exact hwritten.view

namespace Frozen

theorem onePlace (h : Frozen layout forest frozen) (htidy : layout.Tidy forest.size) :
    OnePlace frozen.childrenOf frozen.rootList := by
  rw [h.rootList]
  refine htidy.onePlace.sublist (List.Sublist.refl _) fun p => ?_
  rw [h.childrenOf]
  split
  · exact List.Sublist.refl _
  · exact List.nil_sublist _

theorem below_iff (h : Frozen layout forest frozen) (htidy : layout.Tidy forest.size) :
    Below frozen.childrenOf frozen.rootList i ↔ Below layout.childrenOf layout.roots i := by
  constructor
  · refine Below.mono (fun i hi => h.rootList ▸ hi) fun p => ?_
    rw [h.childrenOf]
    split
    · exact List.Subset.refl _
    · exact List.nil_subset _
  · intro hi
    induction hi with
    | start hi => exact .start (h.rootList ▸ hi)
    | child hp hi ih =>
      refine .child ih ?_
      rwa [h.childrenOf, if_pos ((Layout.mem_reachable_iff htidy.onePlace).2 hp)]

/-- **The walk meets what the layout reaches.** -/
theorem mem_walk (h : Frozen layout forest frozen) (htidy : layout.Tidy forest.size) :
    i ∈ frozen.walk ↔ Below layout.childrenOf layout.roots i := by
  rw [walk, (h.onePlace htidy).acyclic.mem_preorder_iff_of_lt, h.below_iff htidy]
  intro i hi
  rw [h.size]
  exact htidy.within.below ((h.below_iff htidy).1 hi)

/-- **It meets no node twice.** -/
theorem nodup_walk (h : Frozen layout forest frozen) (htidy : layout.Tidy forest.size) :
    frozen.walk.Nodup :=
  (h.onePlace htidy).nodup_preorder _

/-- **The walk is the layout as it was planned.**  Lists without nodes, which are not written, are lists
of no nodes. -/
theorem walk_eq (h : Frozen layout forest frozen) (htidy : layout.Tidy forest.size) :
    frozen.walk = layout.reachable := by
  have hacyclic := (h.onePlace htidy).acyclic
  rw [walk, h.rootList, Layout.reachable]
  rw [h.rootList] at hacyclic
  have hbelow : ∀ {p}, Below frozen.childrenOf layout.roots p → Below layout.childrenOf layout.roots p :=
    fun hp => (h.below_iff htidy).1 (h.rootList.symm ▸ hp)
  refine preorder_congr (fun p hp => ?_) (fun i path hpath => ?_) fun i path hpath => ?_
  · rw [h.childrenOf, if_pos ((Layout.mem_reachable_iff htidy.onePlace).2 (hbelow hp))]
  · exact hacyclic.length_trail_le (fun i hi => h.size ▸ htidy.within.below (hbelow hi)) hpath
  · exact Layout.length_trail_le_depth htidy.onePlace.acyclic hpath

/-- **A node is among the children of another exactly if that one is its parent.** -/
theorem mem_childrenOf_iff (h : Frozen layout forest frozen) :
    c ∈ frozen.childrenOf p ↔ frozen.docsParent? c = some p := by
  rw [h.childrenOf, h.docsParent]
  split
  · next hp => simp [hp]
  · next hp => simp [hp]

/-- **Parents always end**: what no root leads to has no parent at all. -/
theorem ends_docsParent (h : Frozen layout forest frozen) (htidy : layout.Tidy forest.size) (i : Nat) :
    Ends frozen.docsParent? i := by
  have hroots : ∀ i ∈ layout.roots, frozen.docsParent? i = none := fun i hi =>
    Option.eq_none_iff_forall_ne_some.2 fun p hp =>
      htidy.onePlace.root_free hi (h.docsParent.1 hp).2
  have hbelow : ∀ i, Below layout.childrenOf layout.roots i → Ends frozen.docsParent? i := by
    intro i hi
    induction hi with
    | start hi => exact .top (hroots _ hi)
    | child hp hi ih =>
      exact .step (h.docsParent.2 ⟨(Layout.mem_reachable_iff htidy.onePlace).2 hp, hi⟩) ih
  cases hparent : frozen.docsParent? i with
  | none => exact .top hparent
  | some p =>
    obtain ⟨hp, hi⟩ := h.docsParent.1 hparent
    exact hbelow i (.child ((Layout.mem_reachable_iff htidy.onePlace).1 hp) hi)

end Frozen
end Forest
end DocForest
