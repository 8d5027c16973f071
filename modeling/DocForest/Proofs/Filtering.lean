import DocForest.Build.Assembly
import DocForest.Proofs.Completion
import DocForest.Proofs.Layouts

/-!
# What the access filter leaves

The candidates are laid out under their containers, and the filter takes nodes out of this layout.
So what is left still follows the code, and every node of it stands under containers that are left
as well.

## What is here

* `Filter.mem_visited_iff_below`, `Layout.prune_outcome` — the nodes that the filter looks at; it does not
  fail if they exist.
* `Layout.childList?_filtered`, `Layout.childrenOf_filtered` — the children that the filter leaves of a
  node; `Layout.FollowsCode.filtered`, a layout that follows the code does so still.
* `Forest.candidateLayout_followsCode` — the candidates follow the code.
* `Forest.visible`, `Forest.visibleLayout_outcome` — what the filter leaves of the candidates; it never
  fails.
* `Forest.Admitted`, `Forest.admitted_of_reachable` — **what is left is a candidate, and a mark or high
  enough**.
-/

set_option autoImplicit false

namespace DocForest

variable {i p : Nat}

/-! ## Filtering any layout -/

namespace Filter

variable (filter : Filter) (children : Nat → List Nat) (depth : Nat) (siblings : List Nat)

theorem keptOf_sublist : (filter.keptOf children depth siblings).Sublist siblings :=
  (dropEmptySections_sublist _ _).trans List.filter_sublist

variable {filter children depth siblings}

theorem not_rejects_of_keeps (h : filter.keeps children depth i = true) :
    filter.rejects i = false := by
  cases depth with
  | zero => cases h
  | succ depth =>
    rw [keeps, Bool.and_eq_true] at h
    simpa using h.1

theorem of_mem_keptOf (h : i ∈ filter.keptOf children depth siblings) :
    i ∈ siblings ∧ filter.keeps children depth i = true :=
  List.mem_filter.1 ((dropEmptySections_sublist _ _).subset h)

theorem not_rejects_of_mem_keptOf (h : i ∈ filter.keptOf children depth siblings) :
    filter.rejects i = false :=
  not_rejects_of_keeps (of_mem_keptOf h).2

end Filter

namespace Filter

variable {filter : Filter} {layout : Layout}

theorem entered_subset (filter : Filter) (layout : Layout) (p : Nat) :
    (if filter.rejects p then [] else layout.childrenOf p) ⊆ layout.childrenOf p := by
  split
  · exact List.nil_subset _
  · exact List.Subset.refl _

theorem mem_visited_iff_below (h : Acyclic layout.childrenOf layout.roots) :
    i ∈ filter.visited layout.childrenOf layout.depth layout.roots ↔
      Below (fun p => if filter.rejects p then [] else layout.childrenOf p) layout.roots i := by
  refine (h.mono (List.Subset.refl _) (filter.entered_subset layout)).mem_preorder_iff
    (fun p hp => Layout.mem_keys_of_childrenOf_ne_nil fun hnil => hp (by rw [hnil, ite_self])) ?_
  rw [List.length_map, Layout.depth]
  exact Nat.lt_succ_self _

end Filter

namespace Layout

variable {layout : Layout} {filter : Filter}

/-- The filter leaves the entries of the nodes that it looks at and keeps. -/
theorem childList?_filtered (layout : Layout) (filter : Filter) (i : Nat) :
    (layout.filtered filter).childList? i =
      if (filter.visited layout.childrenOf layout.depth layout.roots).contains i
          && filter.keeps layout.childrenOf layout.depth i
      then (layout.childList? i).map (filter.keptOf layout.childrenOf layout.depth) else none := by
  rw [childList?, filtered]
  dsimp only
  rw [find?_filter_map_entries layout.children fun j =>
    (filter.visited layout.childrenOf layout.depth layout.roots).contains j
      && filter.keeps layout.childrenOf layout.depth j]
  split
  · rw [childList?, Option.map_map, Option.map_map]
    rfl
  · rfl

/-- It leaves children of these nodes alone. -/
theorem childrenOf_filtered (layout : Layout) (filter : Filter) (i : Nat) :
    (layout.filtered filter).childrenOf i =
      if (filter.visited layout.childrenOf layout.depth layout.roots).contains i
          && filter.keeps layout.childrenOf layout.depth i
      then filter.keptOf layout.childrenOf layout.depth (layout.childrenOf i) else [] := by
  rw [childrenOf, childList?_filtered]
  split
  · rw [childrenOf]
    cases layout.childList? i <;> rfl
  · rfl

theorem childrenOf_filtered_sublist (layout : Layout) (filter : Filter) (i : Nat) :
    ((layout.filtered filter).childrenOf i).Sublist (layout.childrenOf i) := by
  rw [childrenOf_filtered]
  split
  · exact filter.keptOf_sublist _ _ _
  · exact List.nil_sublist _

/-- The filter leads nowhere that could not be reached before, -/
theorem below_of_below_filtered
    (hi : Below (layout.filtered filter).childrenOf (layout.filtered filter).roots i) :
    Below layout.childrenOf layout.roots i :=
  hi.mono (filter.keptOf_sublist _ _ _).subset fun p => (layout.childrenOf_filtered_sublist filter p).subset

/-- and closes no circle. -/
theorem acyclic_filtered (h : Acyclic layout.childrenOf layout.roots) (filter : Filter) :
    Acyclic (layout.filtered filter).childrenOf (layout.filtered filter).roots :=
  h.mono (filter.keptOf_sublist _ _ _).subset fun p => (layout.childrenOf_filtered_sublist filter p).subset

theorem not_rejects_of_mem_childrenOf (h : i ∈ (layout.filtered filter).childrenOf p) :
    filter.rejects i = false := by
  rw [childrenOf_filtered] at h
  split at h
  · exact Filter.not_rejects_of_mem_keptOf h
  · exact (List.not_mem_nil h).elim

/-- **The filter does not fail** if all that the layout leads to exists. -/
theorem prune_outcome {forest : Forest} {minLevel : AccessLevel}
    (h : ∀ i, Below layout.childrenOf layout.roots i → i < forest.size) :
    (layout.prune forest minLevel).outcome = .ok (layout.filtered ⟨forest, minLevel⟩) := by
  rw [prune, if_neg]
  · rfl
  · simp only [List.any_eq_true, decide_eq_true_eq, not_exists, not_and, Nat.not_le]
    intro i hi
    have hbelow := below_of_mem_preorder hi
    exact h i (hbelow.mono (List.Subset.refl _) (Filter.entered_subset _ layout))

/-- **The filter leaves a layout that follows the code as well.** -/
theorem FollowsCode.filtered {forest : Forest} (h : layout.FollowsCode forest) (filter : Filter) :
    (layout.filtered filter).FollowsCode forest where
  roots_nodup := h.roots_nodup.sublist (filter.keptOf_sublist _ _ _)
  children_nodup p := (h.children_nodup p).sublist (layout.childrenOf_filtered_sublist filter p)
  root_lt hi := h.root_lt ((filter.keptOf_sublist _ _ _).subset hi)
  root_codeParent hi := h.root_codeParent ((filter.keptOf_sublist _ _ _).subset hi)
  child_codeParent hi :=
    h.child_codeParent ((layout.childrenOf_filtered_sublist filter _).subset hi)

end Layout

/-! ## The candidates -/

namespace Forest

variable {forest : Forest} {minLevel : AccessLevel}

theorem rejects_of_decl? {decl : Declaration} (h : forest.decl? i = some decl) :
    Filter.rejects ⟨forest, minLevel⟩ i =
      (!(decl.kind.isOverview || decl.kind.isMark) && decide (decl.level < minLevel)) := by
  rw [Filter.rejects, satisfies, h, Option.any_some]

theorem not_rejects_of_isMark (h : forest.isMark i = true) :
    Filter.rejects ⟨forest, minLevel⟩ i = false := by
  obtain ⟨decl, hdecl, hmark⟩ := (Option.any_eq_true _ _).1 h
  rw [rejects_of_decl? hdecl, hmark, Bool.or_true, Bool.not_true, Bool.false_and]

theorem mem_codeChildren : i ∈ forest.codeChildren p ↔ forest.codeParent? i = some p := by
  simp only [codeChildren, List.mem_filter, List.mem_range, decide_eq_true_eq]
  exact ⟨fun h => h.2, fun h => ⟨lt_of_codeParent? h, h⟩⟩

theorem nodup_codeChildren (forest : Forest) (p : Nat) : (forest.codeChildren p).Nodup :=
  List.nodup_range.filter _

theorem mem_candidateChildren :
    i ∈ forest.candidateChildren p ↔
      forest.codeParent? i = some p ∧ forest.isCandidate i = true := by
  rw [candidateChildren, List.mem_filter, mem_codeChildren]

theorem mem_roots_candidateLayout :
    i ∈ forest.candidateLayout.roots ↔
      forest.isCandidate i = true ∧ forest.codeParent? i = none ∧ forest.isMark i = false := by
  simp only [candidateLayout, List.mem_filter, List.mem_range, Bool.and_eq_true,
    Option.isNone_iff_eq_none, Bool.not_eq_true']
  exact ⟨fun h => ⟨h.1.2, h.2⟩, fun h => ⟨⟨lt_of_satisfies h.1, h.1⟩, h.2⟩⟩

theorem childrenOf_candidateLayout (forest : Forest) (i : Nat) :
    forest.candidateLayout.childrenOf i =
      if forest.isCandidate i then forest.candidateChildren i else [] := by
  rw [candidateLayout, Layout.childrenOf_of_entries]
  have : i ∈ (List.range forest.size).filter forest.isCandidate ↔ forest.isCandidate i = true := by
    rw [List.mem_filter, List.mem_range]
    exact ⟨fun h => h.2, fun h => ⟨lt_of_satisfies h, h⟩⟩
  simp only [this]

theorem mem_childrenOf_candidateLayout :
    i ∈ forest.candidateLayout.childrenOf p ↔
      forest.isCandidate p = true ∧ forest.codeParent? i = some p
        ∧ forest.isCandidate i = true := by
  rw [childrenOf_candidateLayout]
  split
  · next hp => simp [mem_candidateChildren, hp]
  · next hp => simp [hp]

theorem candidateLayout_followsCode (forest : Forest) :
    forest.candidateLayout.FollowsCode forest where
  roots_nodup := (List.nodup_range.filter _).filter _
  children_nodup p := by
    rw [childrenOf_candidateLayout]
    split
    · exact (forest.nodup_codeChildren p).filter _
    · exact List.nodup_nil
  root_lt hi := lt_of_satisfies (mem_roots_candidateLayout.1 hi).1
  root_codeParent hi := (mem_roots_candidateLayout.1 hi).2.1
  child_codeParent hi := (mem_childrenOf_candidateLayout.1 hi).2.1

/-! ## What is visible -/

/-- The layout that the access filter leaves of the candidates. -/
def visible (forest : Forest) (minLevel : AccessLevel) : Layout :=
  forest.candidateLayout.filtered ⟨forest, minLevel⟩

theorem visible_followsCode (forest : Forest) (minLevel : AccessLevel) :
    (forest.visible minLevel).FollowsCode forest :=
  forest.candidateLayout_followsCode.filtered _

/-- **The filter never fails**: all candidates exist. -/
theorem visibleLayout_outcome (config : Config) (forest : Forest) :
    (visibleLayout config forest).outcome = .ok (forest.visible config.minLevel) :=
  Layout.prune_outcome fun _ hi =>
    forest.candidateLayout_followsCode.lt_size (forest.candidateLayout_followsCode.mem_reachable_iff.2 hi)

/-- A node may be shown as far as it is concerned itself: it is a candidate, and a mark or high
enough. -/
structure Admitted (forest : Forest) (minLevel : AccessLevel) (i : Nat) : Prop where
  candidate : forest.isCandidate i = true
  level : forest.isMark i = false → ∀ decl, forest.decl? i = some decl → minLevel ≤ decl.level

theorem not_isOverview_of_isCandidate {decl : Declaration} (h : decl.isCandidate = true) :
    decl.kind.isOverview = false := by
  by_contra hne
  have hkind : decl.kind = .overview := by simpa [Kind.isOverview] using hne
  rw [Declaration.isCandidate, hkind, if_neg (by decide)] at h
  exact absurd h (by decide)

theorem admitted_of_not_rejects (hi : forest.isCandidate i = true)
    (hrejects : Filter.rejects ⟨forest, minLevel⟩ i = false) : forest.Admitted minLevel i := by
  refine ⟨hi, fun hmark decl hdecl => ?_⟩
  have hcandidate : decl.isCandidate = true := by
    simpa [isCandidate, satisfies, hdecl] using hi
  have hisMark : decl.kind.isMark = false := by
    simpa [isMark, satisfies, hdecl] using hmark
  have hlevel : ¬decl.level < minLevel := by
    simpa [Filter.rejects, satisfies, hdecl, not_isOverview_of_isCandidate hcandidate, hisMark]
      using hrejects
  exact AccessLevel.not_lt_iff_le.1 hlevel

theorem admitted_of_reachable
    (hi : i ∈ (forest.visible minLevel).reachable) : forest.Admitted minLevel i := by
  cases (forest.visible_followsCode minLevel).mem_reachable_iff.1 hi with
  | start hi =>
    refine admitted_of_not_rejects ?_ (Filter.not_rejects_of_mem_keptOf hi)
    exact (mem_roots_candidateLayout.1 ((Filter.keptOf_sublist _ _ _ _).subset hi)).1
  | child _ hi =>
    refine admitted_of_not_rejects ?_ (Layout.not_rejects_of_mem_childrenOf hi)
    exact (mem_childrenOf_candidateLayout.1
      ((Layout.childrenOf_filtered_sublist _ _ _).subset hi)).2.2

end Forest
end DocForest
