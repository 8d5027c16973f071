import DocForest.Proofs.Marking
import DocForest.Proofs.Parentage
import DocForest.Proofs.Pruning
import DocForest.Proofs.Resolving

/-!
# The sections of what is left

Members are given their sections before the access filter takes some of them away, and before fragments are
merged.  Neither moves a section: a mark goes only with all of its section, so that **the last mark in front
of a member is the same in the end**.

## What is here

* `Forest.sectionMarks_subset_of_thinned` — sections of siblings that are thinned.
* `Forest.sectionMarks_visible_subset` — the members that the filter leaves are in the sections that the
  records give them.
* `Forest.markOf_frozen` — **a member has the mark of the section that it stands in**, among the members of
  its container that are left.
-/

set_option autoImplicit false

namespace DocForest
namespace Forest

variable {config : Config} {inflect : String → String} {records : List Record} {loaded : Loaded}
  {forest frozen : Forest} {minLevel : AccessLevel} {survives : Nat → Prop} {given left front back : List Nat}
  {mark : SectionMark} {i y p : Nat}

/-! ## Siblings that are thinned -/

/-- Siblings without anything in front of the first mark do not show what section is open there. -/
theorem sectionMarks_of_sectionOf_eq_nil
    (hopens : ∀ m ∈ given, forest.isMark m = true → forest.opensSection m = true)
    (h : sectionOf forest.isMark given = []) (current other : SectionMark) :
    forest.sectionMarks current given = forest.sectionMarks other given := by
  cases given with
  | nil => rfl
  | cons m rest =>
    rw [sectionOf_cons, ite_eq_left_iff] at h
    have hm : forest.isMark m = true := by_contra fun hm => List.cons_ne_nil _ _ (h hm)
    have hafter : forest.sectionAfter current m = forest.sectionAfter other m := by
      rw [sectionAfter, sectionAfter, hopens m List.mem_cons_self hm, if_pos rfl, if_pos rfl]
    rw [sectionMarks_cons, sectionMarks_cons, hafter, hm, Bool.not_true, Bool.and_false,
      if_neg Bool.false_ne_true, if_neg Bool.false_ne_true]

/-- **Thinned siblings have the sections that they have had.** -/
theorem sectionMarks_subset_of_thinned (h : Thinned forest.isMark survives given left)
    (hopens : ∀ m ∈ given, forest.isMark m = true → forest.opensSection m = true) (current : SectionMark) :
    forest.sectionMarks current left ⊆ forest.sectionMarks current given := by
  induction h generalizing current with
  | nil => exact List.Subset.refl _
  | keep _ _ _ ih | keepMark _ _ _ ih =>
    rw [List.forall_mem_cons] at hopens
    rw [sectionMarks_cons, sectionMarks_cons]
    exact fun entry hentry => List.mem_append.2 ((List.mem_append.1 hentry).imp_right (ih hopens.2 _ ·))
  | @drop i _ _ hi _ _ ih =>
    rw [List.forall_mem_cons] at hopens
    have hnot : forest.opensSection i = false :=
      Bool.eq_false_iff.2 fun hopen => Bool.false_ne_true (hi.symm.trans (isMark_of_opensSection hopen))
    rw [sectionMarks_cons, sectionAfter_of_not_opens current hnot]
    exact List.Subset.trans (ih hopens.2 current) (List.subset_append_right _ _)
  | @dropMark m _ left _ hnone hrest ih =>
    rw [List.forall_mem_cons] at hopens
    -- nothing is left in front of the next mark, so that it makes no difference which section is open there
    have hnil : sectionOf forest.isMark left = [] := by
      rw [List.eq_nil_iff_forall_not_mem]
      intro i hi
      have hleft := (List.takeWhile_sublist _).subset hi
      exact hnone i (hrest.mem_of_mem_sectionOf hi)
        (hrest.survives_of_mem hleft (not_isMark_of_mem_sectionOf hi))
    rw [sectionMarks_cons, sectionMarks_of_sectionOf_eq_nil (fun m hm => hopens.2 m (hrest.sublist.subset hm))
      hnil current (forest.sectionAfter current m)]
    exact List.Subset.trans (ih hopens.2 _) (List.subset_append_right _ _)

/-! ## Members -/

theorem isCandidate_of_isMark (h : forest.isMark i = true) :
    forest.isCandidate i = forest.opensSection i := by
  obtain ⟨decl, hdecl, hmark⟩ := (Option.any_eq_true _ _).1 h
  rw [isCandidate, opensSection, satisfies, satisfies, hdecl, Option.any_some, Option.any_some, hmark,
    Bool.true_and, Declaration.isCandidate, hmark, if_pos rfl]

/-- **The members that the filter leaves are in the sections that the records give them.** -/
theorem sectionMarks_visible_subset (hp : p ∈ (forest.visible minLevel).reachable) (current : SectionMark) :
    forest.sectionMarks current ((forest.visible minLevel).childrenOf p) ⊆
      forest.sectionMarks current (forest.codeChildren p) := by
  have hacyclic := forest.candidateLayout_followsCode.onePlace.acyclic
  have hbelow := (forest.visible_followsCode minLevel).mem_reachable_iff.1 hp
  have hmembers : forest.candidateLayout.childrenOf p = forest.candidateChildren p := by
    rw [childrenOf_candidateLayout, if_pos (admitted_of_reachable hp).candidate]
  have hthinned : Thinned forest.isMark
      (fun i => Filter.keeps ⟨forest, minLevel⟩ forest.candidateLayout.childrenOf
        forest.candidateLayout.depth i)
      (forest.candidateChildren p) (Filter.keptOf ⟨forest, minLevel⟩ forest.candidateLayout.childrenOf
        forest.candidateLayout.depth (forest.candidateChildren p)) :=
    Layout.thinned_keptOf_keeps ⟨forest, minLevel⟩ hacyclic
      (fun i hi => .child (Layout.below_of_below_filtered hbelow) (hmembers ▸ hi)) fun _ _ _ => Iff.rfl
  have hopens : ∀ m ∈ forest.candidateChildren p, forest.isMark m = true → forest.opensSection m = true :=
    fun m hm hmark => isCandidate_of_isMark hmark ▸ (mem_candidateChildren.1 hm).2
  rw [visible, Layout.childrenOf_filtered_of_below hacyclic hbelow, hmembers]
  refine List.Subset.trans (sectionMarks_subset_of_thinned hthinned hopens current) ?_
  rw [candidateChildren, sectionMarks_filter current fun m _ hopen =>
    (isCandidate_of_isMark (isMark_of_opensSection hopen)).trans hopen]
  exact List.filter_sublist.subset

/-! ## The marks that are written -/

theorem markOf_completed (h : (completed config loaded).Nested)
    (hi : (i, mark) ∈ (completed config loaded).memberMarks p) :
    (completed config loaded).markOf i = mark := by
  have hmodules : (loaded.forest.fillModules config).Nested := by
    refine h.congr ?_ (Nat.le_of_eq ?_)
    · rw [codeParent?_fillModules, codeParent?_completed]
    · rw [size_completed, size_fillModules]
  have hmembers : (completed config loaded).memberMarks p =
      (loaded.forest.fillModules config).memberMarks p := by
    refine memberMarks_congr ?_ (fun hread j => ?_) p
    · rw [size_completed, size_fillModules]
    · rw [view_completed hread, view_fillModules hread]
  rw [hmembers] at hi
  have hsection := sectionOf?_eq_some.2 ⟨p, hi⟩
  obtain ⟨node, hnode, -⟩ := Option.bind_eq_some_iff.1 (codeParent?_of_mem_memberMarks hi)
  have hdecl : (loaded.forest.fillModules config).decl? i = some node.decl := by
    rw [decl?, hnode, Option.map_some]
  rw [markOf_eq_view, completed, view_deriveLevels_of fun _ _ => rfl, ← markOf_eq_view, markOf,
    decl?_assignMarks hmodules, hdecl, hsection]
  rfl

section Finished

variable (hfrozen : Frozen (arranged config inflect loaded).2 (arranged config inflect loaded).1 frozen)
  (h : (completed config loaded).Prepared) (hp : p ∈ (filtered config loaded).reachable)

include hfrozen h hp

/-- Merging takes away no marks, so that the members that have a place of their own are in the sections that
the records give them, too. -/
theorem sectionMarks_keptMembers_subset (current : SectionMark) :
    (completed config loaded).sectionMarks current (frozen.keptMembers (filtered config loaded).reachable p) ⊆
      (completed config loaded).sectionMarks current ((completed config loaded).codeChildren p) := by
  have hmerged : ∀ m ∈ (filtered config loaded).childrenOf p,
      (completed config loaded).opensSection m = true → (!frozen.isMerged m) = true := by
    intro m _ hm
    rw [Bool.not_eq_true', isMerged_eq_false, mergedInto?_frozen hfrozen]
    exact mergedInto?_of_isMark h.mergedInto (isMark_of_opensSection hm)
  rw [(consolidated_frozen hfrozen h).keptMembers_eq (inInputOrder_visible _ _) hp,
    sectionMarks_filter current hmerged]
  exact List.Subset.trans List.filter_sublist.subset (sectionMarks_visible_subset hp current)

/-- **A member has the mark of the section that it stands in**, among the members of its container that have
a place of their own. -/
theorem markOf_frozen
    (hsplit : frozen.keptMembers (filtered config loaded).reachable p = front ++ y :: back)
    (hy : frozen.isMark y = false) : frozen.markOf y = frozen.sectionBehind (frozen.openingOf p) front := by
  -- the sections are those of the forest that is filtered, and that agrees on the nodes of the records
  have hkept : ∀ {i}, i ∈ front ++ y :: back → i ∈ (filtered config loaded).reachable := fun hi =>
    (mem_keptMembers.1 (hsplit ▸ hi)).2.1
  have hdecl : ∀ {i}, i ∈ (filtered config loaded).reachable →
      frozen.decl? i = (completed config loaded).decl? i := fun hi =>
    decl?_frozen hfrozen (lt_size_of_mem_filtered hi)
  have hreachable : y ∈ (filtered config loaded).reachable := hkept (by simp)
  have hmark : (completed config loaded).isMark y = false := by
    rwa [isMark, satisfies, ← hdecl hreachable]
  have hmember : (y, (completed config loaded).sectionBehind ((completed config loaded).openingOf p) front) ∈
      (completed config loaded).memberMarks p := by
    refine sectionMarks_keptMembers_subset hfrozen h hp _ ?_
    rw [hsplit]
    exact mem_sectionMarks_append ((visible_followsCode _ _).lt_size hreachable) hmark
  rw [markOf, hdecl hreachable, ← markOf, markOf_completed h.toNested hmember, openingOf, openingOf, hdecl hp,
    sectionBehind_congr fun i hi => hdecl (hkept (List.mem_append_left _ hi))]

end Finished

end Forest
end DocForest
