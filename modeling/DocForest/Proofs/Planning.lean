import DocForest.Build.Plan
import DocForest.Proofs.Ascent
import DocForest.Proofs.Layouts
import DocForest.Proofs.Merging

/-!
# What the plan says

The plan moves the members of merged fragments to the fragment that stays.  Read upwards it is a
single function: a node is planned under its owner, which is what stays of its container.  Nodes have
one owner, so nobody has two places.  But owners may run in a circle where containers do not, for an
extension may stand in the type that extends the type it is merged into; **the plan reaches the nodes
above which the owners end, and no others**.

## What is here

* `Forest.standing`, `Forest.owner?` — what stays of a node, and what stays of its container.
* `Forest.Consolidated` — what planning may rely on.
* `Forest.Stands` — the nodes that have a place in the plan, reached or not.
* `Consolidated.mem_childrenOf_plan`, `Consolidated.mem_roots_plan` — **every place in the plan is
  given by the owner**.
* `Consolidated.onePlace_plan`, `Consolidated.below_plan_iff` — nobody has two places, and what the
  plan reaches.
-/

set_option autoImplicit false

namespace DocForest
namespace Forest

variable {forest : Forest} {visible : Layout} {i j c : Nat}

/-! ## Owners -/

/-- What stays of a node: the one that it is merged into, or else the node itself. -/
def standing (forest : Forest) (i : Nat) : Nat :=
  (forest.mergedInto? i).getD i

/-- The node under which another one is planned: what stays of its container. -/
def owner? (forest : Forest) (i : Nat) : Option Nat :=
  (forest.codeParent? i).map forest.standing

theorem standing_of_merged (h : forest.mergedInto? i = some j) : forest.standing i = j := by
  rw [standing, h, Option.getD_some]

theorem standing_of_unmerged (h : forest.mergedInto? i = none) : forest.standing i = i := by
  rw [standing, h, Option.getD_none]

theorem owner?_eq_none : forest.owner? i = none ↔ forest.codeParent? i = none :=
  Option.map_eq_none_iff

theorem owner?_eq_some :
    forest.owner? i = some j ↔ ∃ p, forest.codeParent? i = some p ∧ forest.standing p = j :=
  Option.map_eq_some_iff

/-- What stays is the node itself or a fragment of it, if it has one. -/
theorem standing_eq_iff (hj : forest.mergedInto? j = none) :
    forest.standing i = j ↔ i = j ∨ forest.mergedInto? i = some j := by
  cases hi : forest.mergedInto? i with
  | none => simp [standing_of_unmerged hi]
  | some k =>
    rw [standing_of_merged hi, Option.some.injEq, or_iff_right]
    rintro rfl
    exact Option.some_ne_none k (hi.symm.trans hj)

/-- The layout follows the code, and what is merged into a visible node is visible. -/
structure Consolidated (forest : Forest) (visible : Layout) : Prop where
  followsCode : visible.FollowsCode forest
  absorbed : ∀ {i j}, forest.mergedInto? i = some j →
    i ∈ visible.reachable ∧ j ∈ visible.reachable ∧ j ≠ i ∧ forest.mergedInto? j = none

/-- The node is visible and not merged into another. -/
structure Stands (forest : Forest) (visible : Layout) (i : Nat) : Prop where
  reachable : i ∈ visible.reachable
  unmerged : forest.mergedInto? i = none

namespace Consolidated

theorem stands_standing (h : forest.Consolidated visible) (hi : i ∈ visible.reachable) :
    forest.Stands visible (forest.standing i) := by
  cases hmerged : forest.mergedInto? i with
  | none =>
    rw [standing_of_unmerged hmerged]
    exact ⟨hi, hmerged⟩
  | some j =>
    rw [standing_of_merged hmerged]
    obtain ⟨-, hj, -, hunmerged⟩ := h.absorbed hmerged
    exact ⟨hj, hunmerged⟩

/-- The owner of a visible node stands. -/
theorem stands_of_owner (h : forest.Consolidated visible) (hi : i ∈ visible.reachable)
    (hj : forest.owner? i = some j) : forest.Stands visible j := by
  obtain ⟨p, hp, rfl⟩ := owner?_eq_some.1 hj
  exact h.stands_standing (h.followsCode.container hi hp).1

/-- So does everything that owners lead to. -/
theorem stands_of_above (h : forest.Consolidated visible) (hi : forest.Stands visible i)
    (hj : Relation.ReflTransGen (Up forest.owner?) i j) : forest.Stands visible j := by
  induction hj with
  | refl => exact hi
  | tail _ hup ih => exact h.stands_of_owner ih.reachable hup

theorem reachable_of_standing (h : forest.Consolidated visible)
    (hi : forest.Stands visible (forest.standing i)) : i ∈ visible.reachable := by
  cases hmerged : forest.mergedInto? i with
  | none => exact standing_of_unmerged hmerged ▸ hi.reachable
  | some j => exact (h.absorbed hmerged).1

end Consolidated

/-! ## The lists of the plan -/

theorem hintOf_eq_view (forest : Forest) (i : Nat) :
    forest.hintOf i = (forest.view (·.decl.hint) i).getD none := by
  unfold hintOf decl? view
  cases forest.node? i <;> rfl

theorem inOrder_perm (forest : Forest) (siblings : List Nat) :
    (forest.inOrder siblings).Perm siblings :=
  ordered_perm _ _ siblings

theorem mem_inOrder {siblings : List Nat} : i ∈ forest.inOrder siblings ↔ i ∈ siblings :=
  (forest.inOrder_perm siblings).mem_iff

theorem mem_plannedChildren (hi : forest.mergedInto? i = none) :
    c ∈ forest.plannedChildren visible i ↔
      forest.mergedInto? c = none ∧ ∃ p, forest.standing p = i ∧ c ∈ visible.childrenOf p := by
  simp only [plannedChildren, List.mem_filter, List.mem_flatMap, List.mem_cons, mem_fragmentsOf,
    standing_eq_iff hi, Bool.not_eq_true', isMerged_eq_false]
  exact and_comm

theorem nodup_cons_fragmentsOf (hi : forest.mergedInto? i = none) : (i :: forest.fragmentsOf i).Nodup := by
  have hself : i ∉ forest.fragmentsOf i := fun hmem =>
    Option.some_ne_none i ((mem_fragmentsOf.1 hmem).symm.trans hi)
  exact List.nodup_cons.2 ⟨hself, forest.nodup_fragmentsOf i⟩

theorem nodup_plannedChildren (h : visible.FollowsCode forest) (hi : forest.mergedInto? i = none) :
    (forest.plannedChildren visible i).Nodup := by
  have hnodup := nodup_cons_fragmentsOf hi
  refine List.Nodup.filter _ (List.nodup_flatMap.2 ⟨fun p _ => h.children_nodup p, ?_⟩)
  exact hnodup.imp fun hne c hc hc' => hne (h.onePlace.parent_unique hc hc')

theorem mem_standing_iff :
    i ∈ visible.reachable.filter (fun i => !forest.isMerged i) ↔ forest.Stands visible i := by
  rw [List.mem_filter, Bool.not_eq_true', isMerged_eq_false]
  exact ⟨fun h => ⟨h.1, h.2⟩, fun h => ⟨h.reachable, h.unmerged⟩⟩

theorem childrenOf_plan_eq (forest : Forest) (visible : Layout) (i : Nat) :
    (forest.plan visible).childrenOf i = forest.inOrder
      (if i ∈ visible.reachable.filter fun i => !forest.isMerged i
        then forest.plannedChildren visible i else []) := by
  rw [plan, Layout.childrenOf_map _ [] _ rfl, Layout.childrenOf_of_entries]

/-- A node that stands has its planned children in the order of their hints. -/
theorem childrenOf_plan (hi : forest.Stands visible i) :
    (forest.plan visible).childrenOf i = forest.inOrder (forest.plannedChildren visible i) := by
  rw [childrenOf_plan_eq, if_pos (mem_standing_iff.2 hi)]

/-- Nothing else has children. -/
theorem childrenOf_plan_of_not_stands (hi : ¬forest.Stands visible i) :
    (forest.plan visible).childrenOf i = [] := by
  rw [childrenOf_plan_eq, if_neg fun hmem => hi (mem_standing_iff.1 hmem)]
  rfl

namespace Consolidated

/-- **A node is a child of its owner in the plan, and of nobody else.** -/
theorem mem_childrenOf_plan (h : forest.Consolidated visible) :
    c ∈ (forest.plan visible).childrenOf i ↔
      forest.Stands visible c ∧ forest.owner? c = some i := by
  by_cases hi : forest.Stands visible i
  · rw [childrenOf_plan hi, mem_inOrder, mem_plannedChildren hi.unmerged]
    constructor
    · rintro ⟨hunmerged, p, rfl, hc⟩
      have hp := h.reachable_of_standing hi
      exact ⟨⟨h.followsCode.reachable_of_mem_childrenOf hp hc, hunmerged⟩,
        owner?_eq_some.2 ⟨p, h.followsCode.child_codeParent hc, rfl⟩⟩
    · rintro ⟨hc, howner⟩
      obtain ⟨p, hp, rfl⟩ := owner?_eq_some.1 howner
      exact ⟨hc.unmerged, p, rfl, (h.followsCode.container hc.reachable hp).2⟩
  · rw [childrenOf_plan_of_not_stands hi]
    exact ⟨fun hc => (List.not_mem_nil hc).elim,
      fun ⟨hc, howner⟩ => absurd (h.stands_of_owner hc.reachable howner) hi⟩

/-- The roots of the plan are the nodes without owner. -/
theorem mem_roots_plan (h : forest.Consolidated visible) :
    i ∈ (forest.plan visible).roots ↔
      forest.Stands visible i ∧ forest.owner? i = none := by
  rw [plan, List.mem_filter, Bool.not_eq_true', isMerged_eq_false, owner?_eq_none]
  constructor
  · rintro ⟨hi, hunmerged⟩
    exact ⟨⟨h.followsCode.reachable_of_mem_roots hi, hunmerged⟩, h.followsCode.root_codeParent hi⟩
  · rintro ⟨hi, hparent⟩
    exact ⟨h.followsCode.mem_roots hi.reachable hparent, hi.unmerged⟩

/-- **Nobody has two places in the plan.** -/
theorem onePlace_plan (h : forest.Consolidated visible) :
    OnePlace (forest.plan visible).childrenOf (forest.plan visible).roots where
  roots_nodup := h.followsCode.roots_nodup.filter _
  children_nodup i := by
    by_cases hi : forest.Stands visible i
    · rw [childrenOf_plan hi, (forest.inOrder_perm _).nodup_iff]
      exact nodup_plannedChildren h.followsCode hi.unmerged
    · rw [childrenOf_plan_of_not_stands hi]
      exact List.nodup_nil
  parent_unique hp hq :=
    Option.some.inj ((h.mem_childrenOf_plan.1 hp).2.symm.trans (h.mem_childrenOf_plan.1 hq).2)
  root_free hi hp := Option.some_ne_none _
    ((h.mem_childrenOf_plan.1 hp).2.symm.trans (h.mem_roots_plan.1 hi).2)

/-- **The plan reaches the nodes that stand and whose owners end.** -/
theorem below_plan_iff (h : forest.Consolidated visible) :
    Below (forest.plan visible).childrenOf (forest.plan visible).roots i ↔
      forest.Stands visible i ∧ Ends forest.owner? i := by
  constructor
  · intro hi
    induction hi with
    | start hi =>
      obtain ⟨hstands, hnone⟩ := h.mem_roots_plan.1 hi
      exact ⟨hstands, .top hnone⟩
    | child _ hi ih =>
      obtain ⟨hstands, howner⟩ := h.mem_childrenOf_plan.1 hi
      exact ⟨hstands, .step howner ih.2⟩
  · rintro ⟨hi, hends⟩
    induction hends with
    | top hnone => exact .start (h.mem_roots_plan.2 ⟨hi, hnone⟩)
    | step howner _ ih =>
      exact .child (ih (h.stands_of_owner hi.reachable howner))
        (h.mem_childrenOf_plan.2 ⟨hi, howner⟩)

theorem lt_of_stands (h : forest.Consolidated visible) (hi : forest.Stands visible i) :
    i < forest.size :=
  h.followsCode.lt_size hi.reachable

theorem plan_within (h : forest.Consolidated visible) :
    (forest.plan visible).Within forest.size where
  roots i hi := h.lt_of_stands (h.mem_roots_plan.1 hi).1
  children p i hi := h.lt_of_stands (h.mem_childrenOf_plan.1 hi).1
  keys entry hentry := by
    obtain ⟨entry', hentry', rfl⟩ := List.mem_map.1 hentry
    obtain ⟨i, hi, rfl⟩ := List.mem_map.1 (List.mem_filter.1 hentry').1
    exact h.lt_of_stands (mem_standing_iff.1 hi)

end Consolidated
end Forest
end DocForest
