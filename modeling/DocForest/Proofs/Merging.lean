import DocForest.Proofs.Gathering
import DocForest.Proofs.Views
import Mathlib.Data.List.Flatten

/-!
# What merging does to a forest

Every visible fragment belongs to one family, the fragments with its key, and the family says which
other fragment it is merged into.  That one stays: **no target is merged itself**, so nothing is
handed on from fragment to fragment.

## What is here

* `Family.mem_of_target?`, `Family.ne_of_target?`, `Family.target?_target?` — the target of a fragment
  is another one of the family, and has no target.
* `Forest.familyOf` — the family of a node; `nodup_members_families`, every fragment is in one.
* `Forest.target?`, `Forest.bases` — the target of a node, and the nodes that stand for types.
* `Forest.node?_merged` — **a node of the merged forest**; `Forest.mergedInto?_merged`, what it is merged
  into, and `Forest.absorbed_merged`, what that says of the two nodes.
* `Forest.view_merged`, `Forest.bounds_merged` — everything else stays.
-/

set_option autoImplicit false

namespace DocForest

variable {forest : Forest} {i j : Nat}

/-! ## Families -/

namespace Family

variable {family : Family}

theorem mem_primaries :
    i ∈ family.primaries forest ↔ i ∈ family.members ∧ forest.isExtension i = false := by
  simp [primaries]

theorem mem_extensions :
    i ∈ family.extensions forest ↔ i ∈ family.members ∧ forest.isExtension i = true := by
  simp [extensions]

theorem leader?_spec (h : family.leader? forest i = some j) :
    j ∈ family.primaries forest ∧ forest.kindOf j = forest.kindOf i :=
  ⟨List.mem_of_find?_eq_some h, by simpa using List.find?_some h⟩

theorem leader?_leader? (h : family.leader? forest i = some j) :
    family.leader? forest j = some j := by
  have hkind := (leader?_spec h).2
  unfold leader? at h ⊢
  rwa [hkind]

theorem leader?_of_head? (h : (family.primaries forest).head? = some j) :
    family.leader? forest j = some j := by
  obtain ⟨rest, hrest⟩ := List.head?_eq_some_iff.1 h
  rw [leader?, hrest, List.find?_cons]
  simp

theorem leader?_of_fitting? (h : family.fitting? forest i = some j) :
    family.leader? forest j = some j := by
  have hmem := List.mem_of_find?_eq_some h
  rw [leaders, List.mem_filter] at hmem
  simpa using hmem.2

/-- Without primaries the first extension is the target of all others. -/
theorem target?_of_no_primaries (h : (family.primaries forest).isEmpty = true) :
    family.target? forest i = (family.extensions forest).head?.filter fun j => j ≠ i := by
  rw [target?, if_pos h]

/-- With primaries, a target leads the primaries of its kind. -/
theorem leader?_of_target? (h : (family.primaries forest).isEmpty = false)
    (hj : family.target? forest i = some j) : family.leader? forest j = some j := by
  rw [target?, h] at hj
  simp only [Bool.false_eq_true, if_false, Option.filter_eq_some_iff] at hj
  obtain ⟨hj, -⟩ := hj
  split at hj
  · rcases hfit : family.fitting? forest i with _ | k
    · rw [hfit] at hj
      exact leader?_of_head? hj
    · rw [hfit] at hj
      obtain rfl : k = j := Option.some.inj hj
      exact leader?_of_fitting? hfit
  · exact leader?_leader? hj

theorem ne_of_target? (h : family.target? forest i = some j) : j ≠ i := by
  rw [target?, Option.filter_eq_some_iff] at h
  simpa using h.2

theorem mem_of_target? (h : family.target? forest i = some j) : j ∈ family.members := by
  by_cases hempty : (family.primaries forest).isEmpty = true
  · rw [target?_of_no_primaries hempty, Option.filter_eq_some_iff] at h
    exact (mem_extensions.1 (List.mem_of_head? h.1)).1
  · have hleader := leader?_of_target? (by simpa using hempty) h
    exact (mem_primaries.1 (leader?_spec hleader).1).1

/-- **A target has no target itself.** -/
theorem target?_target? (h : family.target? forest i = some j) : family.target? forest j = none := by
  by_cases hempty : (family.primaries forest).isEmpty = true
  · rw [target?_of_no_primaries hempty, Option.filter_eq_some_iff] at h
    rw [target?_of_no_primaries hempty, h.1]
    simp
  · have hleader := leader?_of_target? (by simpa using hempty) h
    have hprimary := (mem_primaries.1 (leader?_spec hleader).1).2
    rw [target?, if_neg hempty, hprimary, hleader]
    simp

theorem base?_eq_some :
    family.base? forest = some i ↔
      (family.primaries forest).isEmpty = true ∧ (family.extensions forest).head? = some i := by
  rw [base?, Option.ite_none_right_eq_some]

theorem mem_of_base? (h : family.base? forest = some i) : i ∈ family.members :=
  (mem_extensions.1 (List.mem_of_head? (base?_eq_some.1 h).2)).1

/-- The merged members stand in the order of the family. -/
theorem targets_sublist (family : Family) (forest : Forest) :
    ((family.targets forest).map (·.1)).Sublist family.members := by
  rw [targets, List.map_filterMap]
  have hsome : ∀ i, Option.map Prod.fst ((family.target? forest i).map fun j => (i, j)) =
      (Option.guard (fun i => (family.target? forest i).isSome) i) := by
    intro i
    cases h : family.target? forest i <;> simp [Option.guard, h]
  simp only [hsome, List.filterMap_eq_filter]
  exact List.filter_sublist

end Family

/-! ## The family of a node -/

namespace Forest

variable {visible : List Nat}

theorem mem_fragments :
    i ∈ forest.fragments visible ↔
      i < forest.size ∧ i ∈ visible ∧ forest.satisfies i Declaration.isFragment = true := by
  simp [fragments]

theorem nodup_fragments (forest : Forest) (visible : List Nat) :
    (forest.fragments visible).Nodup :=
  List.nodup_range.filter _

/-- The visible fragments with the key of a node. -/
def familyOf (forest : Forest) (visible : List Nat) (i : Nat) : Family :=
  ⟨(forest.fragments visible).filter fun j => forest.mergeKey? j == forest.mergeKey? i⟩

theorem mem_familyOf :
    j ∈ (forest.familyOf visible i).members ↔
      j ∈ forest.fragments visible ∧ forest.mergeKey? j = forest.mergeKey? i := by
  simp [familyOf]

theorem familyOf_congr (h : forest.mergeKey? j = forest.mergeKey? i) :
    forest.familyOf visible j = forest.familyOf visible i := by
  rw [familyOf, h, familyOf]

theorem families_eq (forest : Forest) (visible : List Nat) :
    forest.families visible = ((forest.fragments visible).map forest.mergeKey?).eraseDups.map fun k =>
      ⟨(forest.fragments visible).filter fun j => forest.mergeKey? j == k⟩ := by
  rw [families, gatherBy_eq, List.map_map]
  rfl

theorem mem_families {family : Family} :
    family ∈ forest.families visible ↔
      ∃ i ∈ forest.fragments visible, family = forest.familyOf visible i := by
  simp only [families_eq, List.mem_map, List.mem_eraseDups]
  constructor
  · rintro ⟨k, ⟨i, hi, rfl⟩, rfl⟩
    exact ⟨i, hi, rfl⟩
  · rintro ⟨i, hi, rfl⟩
    exact ⟨_, ⟨i, hi, rfl⟩, rfl⟩

/-- **Every visible fragment is in one family.** -/
theorem nodup_members_families (forest : Forest) (visible : List Nat) :
    ((forest.families visible).flatMap Family.members).Nodup := by
  rw [families_eq, List.flatMap_map]
  exact nodup_parts (nodup_eraseDups _) (forest.nodup_fragments visible)

/-! ## Merging -/

/-- The merged fragments, each with its target. -/
def mergeTargets (forest : Forest) (visible : List Nat) : List (Nat × Nat) :=
  (forest.families visible).flatMap fun family => family.targets forest

theorem mem_mergeTargets :
    (i, j) ∈ forest.mergeTargets visible ↔
      i ∈ forest.fragments visible ∧ (forest.familyOf visible i).target? forest i = some j := by
  simp only [mergeTargets, Family.targets, List.mem_flatMap, List.mem_filterMap,
    Option.map_eq_some_iff, Prod.mk.injEq, mem_families]
  constructor
  · rintro ⟨_, ⟨k, -, rfl⟩, i', hi', j', htarget, rfl, rfl⟩
    obtain ⟨hfragment, hkey⟩ := mem_familyOf.1 hi'
    exact ⟨hfragment, familyOf_congr hkey ▸ htarget⟩
  · rintro ⟨hi, htarget⟩
    exact ⟨_, ⟨i, hi, rfl⟩, i, mem_familyOf.2 ⟨hi, rfl⟩, j, htarget, rfl, rfl⟩

theorem nodup_mergeTargets (forest : Forest) (visible : List Nat) :
    ((forest.mergeTargets visible).map (·.1)).Nodup := by
  refine (forest.nodup_members_families visible).sublist ?_
  rw [mergeTargets, List.map_flatMap]
  exact List.Sublist.flatMap_right _ fun family _ => family.targets_sublist forest

/-- The fragment that a node is merged into. -/
def target? (forest : Forest) (visible : List Nat) (i : Nat) : Option Nat :=
  if i ∈ forest.fragments visible then (forest.familyOf visible i).target? forest i else none

theorem target?_eq_some :
    forest.target? visible i = some j ↔
      i ∈ forest.fragments visible ∧ (forest.familyOf visible i).target? forest i = some j := by
  rw [target?, Option.ite_none_right_eq_some]

/-- The extensions that stand for types that are not documented. -/
def bases (forest : Forest) (visible : List Nat) : List Nat :=
  (forest.families visible).filterMap fun family => family.base? forest

theorem mem_bases :
    i ∈ forest.bases visible ↔
      i ∈ forest.fragments visible ∧ (forest.familyOf visible i).base? forest = some i := by
  simp only [bases, List.mem_filterMap, mem_families]
  constructor
  · rintro ⟨_, ⟨k, -, rfl⟩, hbase⟩
    obtain ⟨hfragment, hkey⟩ := mem_familyOf.1 (Family.mem_of_base? hbase)
    exact ⟨hfragment, familyOf_congr hkey ▸ hbase⟩
  · rintro ⟨hi, hbase⟩
    exact ⟨_, ⟨i, hi, rfl⟩, hbase⟩

theorem nodup_bases (forest : Forest) (visible : List Nat) : (forest.bases visible).Nodup := by
  refine (forest.nodup_members_families visible).sublist ?_
  rw [bases, List.filterMap_eq_flatMap_toList]
  refine List.Sublist.flatMap_right _ fun family _ => ?_
  cases hbase : family.base? forest with
  | none => exact List.nil_sublist _
  | some i => exact List.singleton_sublist.2 (Family.mem_of_base? hbase)

theorem isMerged_eq (forest : Forest) (i : Nat) :
    forest.isMerged i = (forest.mergedInto? i).isSome := by
  unfold isMerged mergedInto?
  cases forest.node? i <;> rfl

theorem isMerged_eq_false : forest.isMerged i = false ↔ forest.mergedInto? i = none := by
  rw [isMerged_eq, Option.isSome_eq_false_iff, Option.isNone_iff_eq_none]

theorem mem_fragmentsOf : j ∈ forest.fragmentsOf i ↔ forest.mergedInto? j = some i := by
  rw [fragmentsOf, List.mem_filter, List.mem_range, decide_eq_true_eq]
  refine ⟨fun h => h.2, fun h => ⟨?_, h⟩⟩
  obtain ⟨node, hnode, -⟩ := Option.bind_eq_some_iff.1 h
  exact lt_of_node? hnode

theorem nodup_fragmentsOf (forest : Forest) (i : Nat) : (forest.fragmentsOf i).Nodup :=
  List.nodup_range.filter _

theorem merged_eq (forest : Forest) (visible : List Nat) :
    forest.merged visible =
      (forest.modifyAll (·.1) (fun entry node => { node with mergedInto := some entry.2 })
          (forest.mergeTargets visible)).modifyAll id
        (fun _ node => { node with undocumentedBase := true })
        ((forest.families visible).filterMap fun family => family.base? forest) := rfl

theorem bounds_merged (forest : Forest) (visible : List Nat) :
    (forest.merged visible).bounds = forest.bounds := by
  rw [merged_eq, bounds_modifyAll, bounds_modifyAll]

theorem size_merged (forest : Forest) (visible : List Nat) :
    (forest.merged visible).size = forest.size :=
  congrArg Prod.fst (forest.bounds_merged visible)

/-- **Merging changes nothing but what it says of merging.** -/
theorem view_merged {β : Type} {read : Node → β}
    (h : ∀ node mergedInto undocumentedBase,
      read { node with mergedInto, undocumentedBase } = read node) :
    (forest.merged visible).view read i = forest.view read i := by
  rw [merged_eq, view_modifyAll _ fun _ node => h node node.mergedInto _,
    view_modifyAll _ fun _ node => h node _ node.undocumentedBase]

theorem find?_mergeTargets (forest : Forest) (visible : List Nat) (i : Nat) :
    ((forest.mergeTargets visible).find? fun entry => entry.1 = i) =
      (forest.target? visible i).map fun j => (i, j) := by
  cases hfind : (forest.mergeTargets visible).find? fun entry => entry.1 = i with
  | none =>
    refine (Option.map_eq_none_iff.2 (Option.eq_none_iff_forall_ne_some.2 fun j hj => ?_)).symm
    exact List.find?_eq_none.1 hfind _ (mem_mergeTargets.2 (target?_eq_some.1 hj)) (decide_eq_true rfl)
  | some entry =>
    obtain rfl : entry.1 = i := of_decide_eq_true (List.find?_some hfind :)
    have htarget := target?_eq_some.2 (mem_mergeTargets.1 (List.mem_of_find?_eq_some hfind))
    rw [htarget, Option.map_some]

/-- **A node of the merged forest is merged into its target, and stands for a type if it is to.** -/
theorem node?_merged (forest : Forest) (visible : List Nat) (i : Nat) :
    (forest.merged visible).node? i = (forest.node? i).map fun node =>
      { node with
        mergedInto := forest.target? visible i <|> node.mergedInto
        undocumentedBase := node.undocumentedBase || decide (i ∈ forest.bases visible) } := by
  have htargets : (forest.putTargets (forest.mergeTargets visible)).node? i =
      (forest.node? i).map fun node =>
        { node with mergedInto := forest.target? visible i <|> node.mergedInto } := by
    refine (node?_modifyAll _ _ _ (forest.nodup_mergeTargets visible) i).trans ?_
    rw [find?_mergeTargets]
    cases forest.target? visible i <;> cases forest.node? i <;> rfl
  by_cases hi : i ∈ forest.bases visible
  · have hbases : ((forest.bases visible).map id).Nodup := by
      rw [List.map_id]
      exact forest.nodup_bases visible
    refine (node?_modifyAll_of_mem _ _ _ hbases hi).trans ?_
    change ((forest.putTargets (forest.mergeTargets visible)).node? i).map _ = _
    rw [htargets]
    simp [hi, Function.comp_def]
  · have hother : ∀ j ∈ forest.bases visible, id j ≠ i := fun j hj heq => hi ((heq : j = i) ▸ hj)
    refine (node?_modifyAll_of_not_mem hother).trans ?_
    change (forest.putTargets (forest.mergeTargets visible)).node? i = _
    rw [htargets]
    simp [hi]

/-- **A node is merged into the target that its family gives it.** -/
theorem mergedInto?_eq_target? (h : ∀ i, forest.mergedInto? i = none) (i : Nat) :
    (forest.merged visible).mergedInto? i = forest.target? visible i := by
  have hi := h i
  rw [mergedInto?] at hi ⊢
  rw [node?_merged]
  cases hnode : forest.node? i with
  | none =>
    refine (Option.eq_none_iff_forall_ne_some.2 fun j hj => ?_).symm
    obtain ⟨node, hsome⟩ := exists_node? (mem_fragments.1 (target?_eq_some.1 hj).1).1
    exact Option.some_ne_none node (hsome.symm.trans hnode)
  | some node =>
    rw [hnode, Option.bind_some] at hi
    rw [Option.map_some, Option.bind_some, hi]
    cases forest.target? visible i <;> rfl

/-- What is no fragment is not merged into anything. -/
theorem mergedInto?_of_not_isFragment (h : ∀ i, forest.mergedInto? i = none)
    (hi : forest.satisfies i Declaration.isFragment = false) :
    (forest.merged visible).mergedInto? i = none := by
  rw [mergedInto?_eq_target? h, Option.eq_none_iff_forall_ne_some]
  intro j hj
  exact Bool.false_ne_true (hi.symm.trans (mem_fragments.1 (target?_eq_some.1 hj).1).2.2)

/-- Guides are not, -/
theorem mergedInto?_of_isGuide (h : ∀ i, forest.mergedInto? i = none) (hguide : forest.isGuide i = true) :
    (forest.merged visible).mergedInto? i = none := by
  refine mergedInto?_of_not_isFragment h ?_
  obtain ⟨decl, hdecl, hmarkdown⟩ := (Option.any_eq_true _ _).1 hguide
  rw [satisfies, hdecl, Option.any_some, Declaration.isFragment, of_decide_eq_true hmarkdown]
  decide

/-- and neither are marks. -/
theorem mergedInto?_of_isMark (h : ∀ i, forest.mergedInto? i = none) (hmark : forest.isMark i = true) :
    (forest.merged visible).mergedInto? i = none := by
  refine mergedInto?_of_not_isFragment h ?_
  obtain ⟨decl, hdecl, hmark⟩ := (Option.any_eq_true _ _).1 hmark
  rw [satisfies, hdecl, Option.any_some, Declaration.isFragment]
  rcases Bool.or_eq_true_iff.1 hmark with hkind | hkind <;> rw [of_decide_eq_true hkind] <;> decide

/-- **A node stands for a type if it is the first extension of a family without primaries.** -/
theorem isUndocumentedBase_merged (h : ∀ i, forest.isUndocumentedBase i = false) (i : Nat) :
    (forest.merged visible).isUndocumentedBase i = true ↔ i ∈ forest.bases visible := by
  have hi := h i
  rw [isUndocumentedBase] at hi ⊢
  rw [node?_merged]
  cases hnode : forest.node? i with
  | none =>
    refine ⟨fun h => (nomatch h), fun hi => ?_⟩
    obtain ⟨node, hsome⟩ := exists_node? (mem_fragments.1 (mem_bases.1 hi).1).1
    exact absurd (hsome.symm.trans hnode) (Option.some_ne_none node)
  | some node =>
    rw [hnode, Option.any_some] at hi
    rw [Option.map_some, Option.any_some, hi, Bool.false_or, decide_eq_true_iff]

theorem mergedInto?_merged (h : ∀ i, forest.mergedInto? i = none) :
    (forest.merged visible).mergedInto? i = some j ↔ (i, j) ∈ forest.mergeTargets visible := by
  rw [mergedInto?_eq_target? h, target?_eq_some, mem_mergeTargets]

/-- A merged node and the one that it is merged into are two visible ones, and **the second one is not
merged itself**. -/
theorem absorbed_merged (h : ∀ i, forest.mergedInto? i = none)
    (hj : (forest.merged visible).mergedInto? i = some j) :
    i ∈ visible ∧ j ∈ visible ∧ j ≠ i ∧ (forest.merged visible).mergedInto? j = none := by
  obtain ⟨hi, htarget⟩ := mem_mergeTargets.1 ((mergedInto?_merged h).1 hj)
  obtain ⟨hj, hkey⟩ := mem_familyOf.1 (Family.mem_of_target? htarget)
  refine ⟨(mem_fragments.1 hi).2.1, (mem_fragments.1 hj).2.1, Family.ne_of_target? htarget, ?_⟩
  rw [Option.eq_none_iff_forall_ne_some]
  intro k hk
  have hnext := (mem_mergeTargets.1 ((mergedInto?_merged h).1 hk)).2
  rw [familyOf_congr hkey, Family.target?_target? htarget] at hnext
  exact Option.some_ne_none k hnext.symm

end Forest
end DocForest
