import DocForest.Proofs.Planning
import DocForest.Proofs.Sparing

/-!
# Merging and planning under new numbers

Which fragments are merged, and what is planned for a node, is told by kinds, keys and the order of the
nodes.  **Where these agree, so do families, targets and plans**, whatever other nodes there are that the
filter does not leave.

## What is here

* `Family.renumbered` — a family under new numbers; `Relabels.family_target?` and its companions.
* `Forest.Corresponds`, `Forest.SameMerging` — forests with the same nodes, merged in the same way;
  `Relabels.merged` says that merging makes them so.
* `Layout.Copies` — layouts with the same entries; `SameMerging.plan` says that planning makes them so.
-/

set_option autoImplicit false

namespace DocForest

variable {e : Nat → Nat} {i j : Nat}

/-- A family under new numbers. -/
def Family.renumbered (e : Nat → Nat) (family : Family) : Family :=
  ⟨family.members.map e⟩

/-- The entries of `whole` are those of `part` under new numbers. -/
structure Layout.Copies (e : Nat → Nat) (part whole : Layout) : Prop where
  roots : whole.roots = part.roots.map e
  childList? : ∀ i, whole.childList? (e i) = (part.childList? i).map (List.map e)
  others : ∀ j, (∀ i, e i ≠ j) → whole.childList? j = none

theorem Layout.Copies.renumbers {part whole : Layout} (h : Layout.Copies e part whole) :
    Layout.Renumbers e part whole where
  roots := h.roots
  childrenOf i := by
    rw [childrenOf, childrenOf, h.childList?]
    cases part.childList? i <;> rfl
  hidden j hj := by rw [childrenOf, h.others j hj, Option.getD_none]

namespace Forest

variable {part whole : Forest} {visible visible' : List Nat} {family : Family}

namespace Relabels

/-! ## Families -/

section Families

variable (h : Relabels e part whole)

include h

theorem primaries (family : Family) :
    (family.renumbered e).primaries whole = (family.primaries part).map e := by
  rw [Family.primaries, Family.primaries, Family.renumbered, List.filter_map, ← h.isExtension]
  rfl

theorem extensions (family : Family) :
    (family.renumbered e).extensions whole = (family.extensions part).map e := by
  rw [Family.extensions, Family.extensions, Family.renumbered, List.filter_map, ← h.isExtension]
  rfl

theorem leader? (family : Family) (i : Nat) :
    (family.renumbered e).leader? whole (e i) = (family.leader? part i).map e := by
  rw [Family.leader?, Family.leader?, h.primaries, List.find?_map]
  simp only [Function.comp_def, h.kindOf]

theorem leaders (family : Family) :
    (family.renumbered e).leaders whole = (family.leaders part).map e := by
  rw [Family.leaders, Family.leaders, h.primaries, List.filter_map]
  refine congrArg _ (List.filter_congr fun i _ => ?_)
  rw [Function.comp_apply, h.leader?, decide_eq_decide]
  exact (Option.map_injective h.injective).eq_iff' rfl

theorem fitting? (family : Family) (i : Nat) :
    (family.renumbered e).fitting? whole (e i) = (family.fitting? part i).map e := by
  rw [Family.fitting?, Family.fitting?, h.leaders, List.find?_map]
  simp only [Function.comp_def, h.kindOf]

/-- **The same fragment is merged into the same one.** -/
theorem family_target? (family : Family) (i : Nat) :
    (family.renumbered e).target? whole (e i) = (family.target? part i).map e := by
  have hextension : whole.isExtension (e i) = part.isExtension i := congrFun h.isExtension i
  have hother : (fun j => decide (e j ≠ e i)) = fun j => decide (j ≠ i) :=
    funext fun j => decide_eq_decide.2 (not_congr h.injective.eq_iff)
  have hfound : (if ((family.renumbered e).primaries whole).isEmpty
      then ((family.renumbered e).extensions whole).head?
      else if whole.isExtension (e i)
        then (family.renumbered e).fitting? whole (e i) <|> ((family.renumbered e).primaries whole).head?
        else (family.renumbered e).leader? whole (e i)) =
      (if (family.primaries part).isEmpty then (family.extensions part).head?
        else if part.isExtension i then family.fitting? part i <|> (family.primaries part).head?
        else family.leader? part i).map e := by
    rw [h.primaries, h.extensions, h.fitting?, h.leader?, hextension, List.isEmpty_map, List.head?_map,
      List.head?_map]
    split
    · rfl
    · split
      · cases family.fitting? part i <;> rfl
      · rfl
  rw [Family.target?, Family.target?, hfound, Option.filter_map]
  exact congrArg (fun test => (Option.filter test _).map e) hother

theorem base? (family : Family) :
    (family.renumbered e).base? whole = (family.base? part).map e := by
  rw [Family.base?, Family.base?, h.primaries, h.extensions, List.isEmpty_map, List.head?_map]
  split <;> rfl

end Families

/-! ## Merging -/

section Merging

variable (h : Relabels e part whole) (hnested : part.Nested)
  (hvisible : ∀ j, j ∈ visible' ↔ ∃ i ∈ visible, e i = j)

include h hnested

omit hnested in
include hvisible in
theorem fragments : whole.fragments visible' = (part.fragments visible).map e := by
  refine eq_map_of_mem_iff (fun i hi j hj => h.fragment_lt (mem_fragments.1 hi).2.2 (mem_fragments.1 hj).2.2)
    (List.pairwise_lt_range.filter _) (List.pairwise_lt_range.filter _) (fun j hj => ?_) fun i => ?_
  · obtain ⟨i, -, hi⟩ := (hvisible j).1 (mem_fragments.1 hj).2.1
    exact ⟨i, hi⟩
  · rw [mem_fragments, mem_fragments, h.lt_iff, iff_of_forall_iff_exists h.injective hvisible,
      h.satisfies]

include hvisible

/-- **The same fragments are of one type.** -/
theorem familyOf (i : Nat) :
    whole.familyOf visible' (e i) = (part.familyOf visible i).renumbered e := by
  rw [Forest.familyOf, Forest.familyOf, Family.renumbered, h.fragments hvisible, List.filter_map]
  simp only [Function.comp_def, h.mergeKey? hnested]

theorem target? (i : Nat) :
    whole.target? visible' (e i) = (part.target? visible i).map e := by
  have hmem : e i ∈ whole.fragments visible' ↔ i ∈ part.fragments visible := by
    rw [h.fragments hvisible, List.mem_map_of_injective h.injective]
  rw [Forest.target?, Forest.target?, h.familyOf hnested hvisible, h.family_target?, if_congr hmem rfl rfl]
  split <;> rfl

omit hnested in
theorem not_mem_fragments (hj : ∀ i, e i ≠ j) : j ∉ whole.fragments visible' := by
  rw [h.fragments hvisible]
  intro hmem
  obtain ⟨i, -, hi⟩ := List.mem_map.1 hmem
  exact hj i hi

theorem mem_bases : e i ∈ whole.bases visible' ↔ i ∈ part.bases visible := by
  rw [Forest.mem_bases, Forest.mem_bases, h.fragments hvisible, List.mem_map_of_injective h.injective,
    h.familyOf hnested hvisible, h.base?]
  exact and_congr_right fun _ => (Option.map_injective h.injective).eq_iff' rfl

theorem checkFragments (hcheck : whole.checkFragments visible' = .ok ()) :
    part.checkFragments visible = .ok () := by
  have hkeys : ((whole.fragments visible').all fun i => (whole.mergeName i).isKey) = true := by
    by_contra hne
    rw [Forest.checkFragments, if_neg hne] at hcheck
    cases hcheck
  rw [h.fragments hvisible, List.all_map] at hkeys
  refine if_pos ((List.all_congr rfl fun i => ?_).trans hkeys)
  rw [Function.comp_apply, h.mergeName hnested]

end Merging

end Relabels

/-- A node has an entry in the plan if it stands and children are planned for it. -/
theorem childList?_plan (forest : Forest) (visible : Layout) (i : Nat) :
    (forest.plan visible).childList? i =
      if i ∈ visible.reachable.filter (fun i => !forest.isMerged i) ∧
          (!(forest.plannedChildren visible i).isEmpty) = true
      then some (forest.inOrder (forest.plannedChildren visible i)) else none := by
  rw [plan, Layout.childList?, List.find?_map]
  refine (congrArg _ (congrArg _ (find?_entry _ _ (fun items => !items.isEmpty) i))).trans ?_
  split <;> rfl

/-! ## Merged forests -/

/-- The nodes of `part` are merged in `whole` as in `part`, and no others are. -/
structure Corresponds (e : Nat → Nat) (part whole : Forest) : Prop extends Renumbers e part whole where
  mergedInto? : ∀ i, whole.mergedInto? (e i) = (part.mergedInto? i).map e
  isUndocumentedBase : ∀ i, whole.isUndocumentedBase (e i) = part.isUndocumentedBase i
  mergedInto?_others : ∀ j, (∀ i, e i ≠ j) → whole.mergedInto? j = none
  isUndocumentedBase_others : ∀ j, (∀ i, e i ≠ j) → whole.isUndocumentedBase j = false

/-- The nodes of `part` are merged in `whole` as in `part`, and no others are; only fragments are merged. -/
structure SameMerging (e : Nat → Nat) (part whole : Forest) : Prop extends Relabels e part whole where
  mergedInto? : ∀ i, whole.mergedInto? (e i) = (part.mergedInto? i).map e
  isUndocumentedBase : ∀ i, whole.isUndocumentedBase (e i) = part.isUndocumentedBase i
  mergedInto?_others : ∀ j, (∀ i, e i ≠ j) → whole.mergedInto? j = none
  isUndocumentedBase_others : ∀ j, (∀ i, e i ≠ j) → whole.isUndocumentedBase j = false
  isFragment : ∀ {i j}, part.mergedInto? i = some j → part.satisfies i Declaration.isFragment = true

/-- **Merging does the same to the same nodes.** -/
theorem Relabels.merged (h : Relabels e part whole) (hpart : part.Prepared) (hwhole : whole.Prepared)
    (hvisible : ∀ j, j ∈ visible' ↔ ∃ i ∈ visible, e i = j) :
    SameMerging e (part.merged visible) (whole.merged visible') := by
  have hdecl : ∀ (forest : Forest) visible i, (forest.merged visible).decl? i = forest.decl? i :=
    fun forest visible i => view_merged fun _ _ _ => rfl
  have hparent : ∀ (forest : Forest) visible,
      (forest.merged visible).codeParent? = forest.codeParent? := fun forest visible =>
    codeParent?_congr fun _ => view_merged fun _ _ _ => rfl
  have hfragment : ∀ i, (part.merged visible).satisfies i Declaration.isFragment =
      part.satisfies i Declaration.isFragment := fun i => satisfies_congr (view_merged fun _ _ _ => rfl)
  refine ⟨h.congr (size_merged _ _) (size_merged _ _) (hparent _ _) (hparent _ _) hfragment fun i => ?_,
    fun i => ?_, fun i => ?_, fun j hj => ?_, fun j hj => ?_, fun {i j} hmerged => ?_⟩
  · rw [hdecl, hdecl, h.decl?]
  · rw [mergedInto?_eq_target? hwhole.mergedInto, mergedInto?_eq_target? hpart.mergedInto,
      h.target? hpart.toNested hvisible]
  · rw [Bool.eq_iff_iff, isUndocumentedBase_merged hwhole.undocumentedBase,
      isUndocumentedBase_merged hpart.undocumentedBase, h.mem_bases hpart.toNested hvisible]
  · rw [mergedInto?_eq_target? hwhole.mergedInto, Forest.target?,
      if_neg (h.not_mem_fragments hvisible hj)]
  · rw [← Bool.not_eq_true, isUndocumentedBase_merged hwhole.undocumentedBase]
    exact fun hbase => h.not_mem_fragments hvisible hj (Forest.mem_bases.1 hbase).1
  · rw [mergedInto?_eq_target? hpart.mergedInto, Forest.target?] at hmerged
    split at hmerged
    · next hi =>
      rw [hfragment]
      exact (mem_fragments.1 hi).2.2
    · cases hmerged

/-- **A node has the same fragments**, if their order is kept. -/
theorem fragmentsOf_map (he : Function.Injective e)
    (hmono : ∀ k l, part.mergedInto? k = some i → part.mergedInto? l = some i → k < l → e k < e l)
    (hmerged : ∀ i, whole.mergedInto? (e i) = (part.mergedInto? i).map e)
    (hothers : ∀ j, (∀ i, e i ≠ j) → whole.mergedInto? j = none) :
    whole.fragmentsOf (e i) = (part.fragmentsOf i).map e := by
  refine eq_map_of_mem_iff (fun k hk l hl => hmono k l (mem_fragmentsOf.1 hk) (mem_fragmentsOf.1 hl))
    (List.pairwise_lt_range.filter _) (List.pairwise_lt_range.filter _) (fun j hj => ?_) fun k => ?_
  · by_contra hother
    have hj := mem_fragmentsOf.1 hj
    rw [hothers j (not_exists.1 hother)] at hj
    cases hj
  · rw [mem_fragmentsOf, mem_fragmentsOf, hmerged]
    exact (Option.map_injective he).eq_iff' rfl

theorem Corresponds.fragmentsOf (h : Corresponds e part whole) (i : Nat) :
    whole.fragmentsOf (e i) = (part.fragmentsOf i).map e :=
  fragmentsOf_map h.strictMono.injective (fun _ _ _ _ hlt => h.strictMono hlt) h.mergedInto?
    h.mergedInto?_others

namespace SameMerging

variable (h : SameMerging e part whole) {layout layout' : Layout}

include h

theorem isMerged (i : Nat) : whole.isMerged (e i) = part.isMerged i := by
  rw [isMerged_eq, isMerged_eq, h.mergedInto?, Option.isSome_map]

theorem fragmentsOf (i : Nat) : whole.fragmentsOf (e i) = (part.fragmentsOf i).map e :=
  fragmentsOf_map h.injective (fun _ _ hk hl => h.fragment_lt (h.isFragment hk) (h.isFragment hl))
    h.mergedInto? h.mergedInto?_others

/-! ## Planning -/

/-- **The same children are planned for a node.** -/
theorem plannedChildren (hlayout : Layout.Renumbers e layout layout') (i : Nat) :
    whole.plannedChildren layout' (e i) = (part.plannedChildren layout i).map e := by
  have hmembers : (e i :: whole.fragmentsOf (e i)).flatMap layout'.childrenOf =
      ((i :: part.fragmentsOf i).flatMap layout.childrenOf).map e := by
    rw [h.fragmentsOf, ← List.map_cons, List.flatMap_map, List.map_flatMap]
    exact List.flatMap_congr fun p _ => hlayout.childrenOf p
  rw [Forest.plannedChildren, hmembers, List.filter_map, Forest.plannedChildren]
  simp only [Function.comp_def, h.isMerged]

/-- **The plan has the same entries.** -/
theorem plan (hlayout : Layout.Renumbers e layout layout')
    (hreachable : ∀ j, j ∈ layout'.reachable ↔ ∃ i ∈ layout.reachable, e i = j) :
    Layout.Copies e (part.plan layout) (whole.plan layout') := by
  have hstanding : ∀ j, j ∈ layout'.reachable.filter (fun i => !whole.isMerged i) ↔
      ∃ i ∈ layout.reachable.filter (fun i => !part.isMerged i), e i = j := by
    intro j
    simp only [List.mem_filter, Bool.not_eq_true']
    constructor
    · rintro ⟨hj, hmerged⟩
      obtain ⟨i, hi, rfl⟩ := (hreachable j).1 hj
      exact ⟨i, ⟨hi, (h.isMerged i).symm.trans hmerged⟩, rfl⟩
    · rintro ⟨i, ⟨hi, hmerged⟩, rfl⟩
      exact ⟨(hreachable _).2 ⟨i, hi, rfl⟩, (h.isMerged i).trans hmerged⟩
  refine ⟨?_, fun i => ?_, fun j hj => ?_⟩
  · rw [Forest.plan, Forest.plan, hlayout.roots, List.filter_map]
    simp only [Function.comp_def, h.isMerged]
  · have hi : e i ∈ layout'.reachable.filter (fun i => !whole.isMerged i) ↔
        i ∈ layout.reachable.filter fun i => !part.isMerged i :=
      iff_of_forall_iff_exists h.injective hstanding i
    rw [childList?_plan, childList?_plan, h.plannedChildren hlayout, List.isEmpty_map, h.inOrder,
      if_congr (and_congr hi Iff.rfl) rfl rfl]
    split <;> rfl
  · rw [childList?_plan, if_neg]
    rintro ⟨hmem, -⟩
    obtain ⟨i, -, hi⟩ := (hstanding j).1 hmem
    exact hj i hi

end SameMerging

end Forest
end DocForest
