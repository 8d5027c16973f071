import DocForest.Proofs.Hiding

/-!
# What the least level spares

The least level hides a node that is below it and everything in that node.  What is left is all that it
spares, and **it is completed and filtered as it was among the others**: none of the hidden nodes shows in
a module, a section or a level, and the access filter would have left them out anyway.

## What is here

* `Forest.hides`, `Forest.spares_of_numbers` — whether a node is hidden; the places that are left are all
  that the least level spares.
* `Relabels.completed` — modules, sections and levels are those of before.
* `Layout.Renumbers`, `Relabels.visible` — so is what the access filter leaves.
-/

set_option autoImplicit false

namespace DocForest

open Relation

variable {e : Nat → Nat} {minLevel : AccessLevel} {config : Config} {records : List Record}
  {hidden : Nat → Bool} {i j p c : Nat}

namespace Forest

variable {forest part whole : Forest} {loaded loaded' : Loaded}

/-! ## Hidden nodes -/

/-- Whether a node or one of its containers is below the least level. -/
def hides (forest : Forest) (minLevel : AccessLevel) (i : Nat) : Bool :=
  (forest.namespacePath i).any (Filter.rejects ⟨forest, minLevel⟩)

theorem Nested.hides_iff (h : forest.Nested) (hi : i < forest.size) :
    forest.hides minLevel i = true ↔ ∃ j, ReflTransGen (Up forest.codeParent?) i j ∧
      Filter.rejects ⟨forest, minLevel⟩ j = true := by
  simp only [hides, List.any_eq_true, h.mem_namespacePath hi]

theorem Nested.hides_of_top (h : forest.Nested) (hi : i < forest.size)
    (hparent : forest.codeParent? i = none) :
    forest.hides minLevel i = Filter.rejects ⟨forest, minLevel⟩ i := by
  rw [Bool.eq_iff_iff, h.hides_iff hi]
  constructor
  · rintro ⟨j, hj, hrejects⟩
    rcases hj.cases_head with rfl | ⟨p, hp, -⟩
    · exact hrejects
    · exact absurd (hp.symm.trans hparent) (Option.some_ne_none p)
  · exact fun hrejects => ⟨i, .refl, hrejects⟩

/-- A node in a container is hidden if it is rejected or the container is hidden. -/
theorem Nested.hides_of_member (h : forest.Nested) (hparent : forest.codeParent? i = some p) :
    forest.hides minLevel i =
      (Filter.rejects ⟨forest, minLevel⟩ i || forest.hides minLevel p) := by
  rw [Bool.eq_iff_iff, Bool.or_eq_true, h.hides_iff (lt_of_codeParent? hparent),
    h.hides_iff (h.container_lt hparent)]
  constructor
  · rintro ⟨j, hj, hrejects⟩
    rcases hj.cases_head with rfl | ⟨q, hq, hqj⟩
    · exact .inl hrejects
    · obtain rfl : p = q := Option.some.inj (hparent.symm.trans hq)
      exact .inr ⟨j, hqj, hrejects⟩
  · rintro (hrejects | ⟨j, hj, hrejects⟩)
    · exact ⟨i, .refl, hrejects⟩
    · exact ⟨j, .head hparent hj, hrejects⟩

theorem not_rejects_of_le (h : forest.size ≤ i) : Filter.rejects ⟨forest, minLevel⟩ i = false := by
  rw [Filter.rejects, satisfies, decl?_of_le h, Option.any_none]

/-- **The places that are left are all that the least level spares.** -/
theorem spares_of_numbers (hnumbers : Record.Numbers e records hidden) (h : forest.Nested)
    (hsize : forest.size = records.length)
    (hhidden : ∀ j < forest.size, hidden j = forest.hides minLevel j) :
    Spares e minLevel forest := by
  have hleft : ∀ j < forest.size, forest.hides minLevel j = false ↔ ∃ k, e k = j :=
    fun j hj => by rw [← hhidden j hj, hnumbers.left_iff j (hsize ▸ hj)]
  refine ⟨fun i => ?_, fun {c} hc hparent hrejects => ?_, fun {p c} hparent hrejects => ?_⟩
  · by_cases hi : e i < forest.size
    · have hshown := (hleft _ hi).2 ⟨i, rfl⟩
      cases hparent : forest.codeParent? (e i) with
      | none => rwa [h.hides_of_top hi hparent] at hshown
      | some p =>
        rw [h.hides_of_member hparent, Bool.or_eq_false_iff] at hshown
        exact hshown.1
    · exact not_rejects_of_le (Nat.not_lt.1 hi)
  · exact (hleft c hc).1 ((h.hides_of_top hc hparent).trans hrejects)
  · have hshown := (hleft _ (h.container_lt hparent)).2 ⟨p, rfl⟩
    refine (hleft c (lt_of_codeParent? hparent)).1 ?_
    rw [h.hides_of_member hparent, hrejects, hshown, Bool.or_false]

/-! ## Modules, sections and levels -/

/-- **Modules, sections and levels are those of before**, if what is left is all that the least level
spares. -/
theorem Relabels.completed (h : Relabels e loaded'.forest loaded.forest)
    (hpart : loaded'.forest.Nested) (hwhole : loaded.forest.Nested)
    (hnodup : loaded'.implicit.Nodup) (hnodup' : loaded.implicit.Nodup)
    (hmem : ∀ i, e i ∈ loaded.implicit ↔ i ∈ loaded'.implicit)
    (hopen : loaded.forest.OpenApart loaded.implicit)
    (hext : ∀ i ∈ loaded.implicit, loaded.forest.isExtension i = true)
    (hspares : Spares e minLevel (Forest.completed config loaded)) :
    Relabels e (Forest.completed config loaded') (Forest.completed config loaded) := by
  have hmodules := h.fillModules hpart hwhole config
  have hpart' : (loaded'.forest.fillModules config).Nested :=
    hpart.congr (codeParent?_fillModules _ _) (Nat.le_of_eq (size_fillModules _ _).symm)
  have hwhole' : (loaded.forest.fillModules config).Nested :=
    hwhole.congr (codeParent?_fillModules _ _) (Nat.le_of_eq (size_fillModules _ _).symm)
  have hparent : (Forest.completed config loaded).codeParent? = loaded.forest.codeParent? := by
    rw [Forest.completed, codeParent?_deriveLevels, codeParent?_assignMarks, codeParent?_fillModules]
  have hsections := hmodules.assignMarks hpart' hwhole' fun {c p} hc hmark => by
    have hmark' : (Forest.completed config loaded).isMark c = true :=
      (satisfies_congr ((view_completed (fun _ _ _ _ => rfl) _ _).trans
        (view_fillModules (fun _ _ _ _ => rfl) _).symm)).trans hmark
    rw [codeParent?_fillModules, ← hparent] at hc
    exact hspares.member hc (not_rejects_of_isMark hmark')
  refine hsections.deriveLevels hnodup hnodup' hmem ?_ (fun i hi => ?_) hspares
  · rw [OpenApart, codeParent?_assignMarks, codeParent?_fillModules]
    exact hopen
  · exact (satisfies_congr ((view_putMarks (fun _ _ _ _ => rfl) _).trans
      (view_fillModules (fun _ _ _ _ => rfl) _))).trans (hext i hi)

/-! ## What the access filter leaves -/

/-- The members of a node that the filter looks at and does not reject. -/
def sparedMembers (forest : Forest) (minLevel : AccessLevel) (p : Nat) : List Nat :=
  (forest.candidateChildren p).filter fun i => !Filter.rejects ⟨forest, minLevel⟩ i

/-- The nodes in no container that the filter does not reject. -/
def sparedTops (forest : Forest) (minLevel : AccessLevel) : List Nat :=
  forest.candidateLayout.roots.filter fun i => !Filter.rejects ⟨forest, minLevel⟩ i

theorem mem_sparedMembers :
    c ∈ forest.sparedMembers minLevel p ↔
      (forest.codeParent? c = some p ∧ forest.isCandidate c = true) ∧
        Filter.rejects ⟨forest, minLevel⟩ c = false := by
  rw [sparedMembers, List.mem_filter, mem_candidateChildren, Bool.not_eq_true']

theorem mem_sparedTops :
    c ∈ forest.sparedTops minLevel ↔
      (forest.isCandidate c = true ∧ forest.codeParent? c = none ∧ forest.isMark c = false) ∧
        Filter.rejects ⟨forest, minLevel⟩ c = false := by
  rw [sparedTops, List.mem_filter, mem_roots_candidateLayout, Bool.not_eq_true']

/-- A candidate is no group, so that nothing but its level makes it go away. -/
theorem keeps_of_isCandidate (hi : forest.isCandidate i = true) (children : Nat → List Nat)
    (depth : Nat) :
    Filter.keeps ⟨forest, minLevel⟩ children (depth + 1) i = !Filter.rejects ⟨forest, minLevel⟩ i := by
  have hgroup : forest.isGroup i = false := by
    obtain ⟨decl, hdecl, hcandidate⟩ := (Option.any_eq_true _ _).1 hi
    rw [isGroup, satisfies, hdecl, Option.any_some, not_isOverview_of_isCandidate hcandidate]
  rw [Filter.keeps, hgroup, Bool.false_and, Bool.not_false, Bool.and_true]

theorem keptOf_candidates {siblings : List Nat} (h : ∀ i ∈ siblings, forest.isCandidate i = true)
    (children : Nat → List Nat) (depth : Nat) :
    Filter.keptOf ⟨forest, minLevel⟩ children (depth + 1) siblings =
      dropEmptySections forest.isMark (siblings.filter fun i =>
        !Filter.rejects ⟨forest, minLevel⟩ i) := by
  rw [Filter.keptOf]
  exact congrArg _ (List.filter_congr fun i hi => keeps_of_isCandidate (h i hi) children depth)

/-- Marks outside all containers are left out from the start, so that no section is empty there. -/
theorem roots_visible (forest : Forest) (minLevel : AccessLevel) :
    (forest.visible minLevel).roots = forest.sparedTops minLevel := by
  refine (keptOf_candidates (fun i hi => (mem_roots_candidateLayout.1 hi).1) _ _).trans ?_
  exact dropEmptySections_of_no_mark fun i hi => (mem_sparedTops.1 hi).1.2.2

theorem spared_of_below (h : Below (forest.sparedMembers minLevel) (forest.sparedTops minLevel) i) :
    forest.isCandidate i = true ∧ Filter.rejects ⟨forest, minLevel⟩ i = false := by
  cases h with
  | start hi => exact ⟨(mem_sparedTops.1 hi).1.1, (mem_sparedTops.1 hi).2⟩
  | child _ hi => exact ⟨(mem_sparedMembers.1 hi).1.2, (mem_sparedMembers.1 hi).2⟩

/-- **The filter looks at a node and does not reject it** if that is so for all its containers. -/
theorem mem_visited_iff :
    i ∈ Filter.visited ⟨forest, minLevel⟩ forest.candidateLayout.childrenOf
        forest.candidateLayout.depth forest.candidateLayout.roots ∧
        Filter.rejects ⟨forest, minLevel⟩ i = false ↔
      Below (forest.sparedMembers minLevel) (forest.sparedTops minLevel) i := by
  rw [Filter.mem_visited_iff_below forest.candidateLayout_followsCode.onePlace.acyclic]
  constructor
  · rintro ⟨hi, hrejects⟩
    induction hi with
    | start hi => exact .start (mem_sparedTops.2 ⟨mem_roots_candidateLayout.1 hi, hrejects⟩)
    | @child p i _ hi ih =>
      split at hi
      · exact (List.not_mem_nil hi).elim
      · next hp =>
        refine .child (ih (by simpa using hp)) (mem_sparedMembers.2 ⟨?_, hrejects⟩)
        exact (mem_childrenOf_candidateLayout.1 hi).2
  · intro hi
    refine ⟨?_, (spared_of_below hi).2⟩
    induction hi with
    | start hi => exact .start (mem_roots_candidateLayout.2 (mem_sparedTops.1 hi).1)
    | @child p i hp hi ih =>
      obtain ⟨hcandidate, hrejects⟩ := spared_of_below hp
      refine .child ih ?_
      rw [hrejects, if_neg Bool.false_ne_true]
      exact mem_childrenOf_candidateLayout.2 ⟨hcandidate, (mem_sparedMembers.1 hi).1⟩

/-- **What the filter leaves of the members of a node**, if it leaves the node. -/
theorem childrenOf_visible_of_below
    (h : Below (forest.sparedMembers minLevel) (forest.sparedTops minLevel) i) :
    (forest.visible minLevel).childrenOf i =
      dropEmptySections forest.isMark (forest.sparedMembers minLevel i) := by
  obtain ⟨hcandidate, hrejects⟩ := spared_of_below h
  have hkeeps : Filter.keeps ⟨forest, minLevel⟩ forest.candidateLayout.childrenOf
      forest.candidateLayout.depth i = true := by
    rw [Layout.depth, keeps_of_isCandidate hcandidate, hrejects, Bool.not_false]
  rw [visible, Layout.childrenOf_filtered, hkeeps, List.contains_iff_mem.2 (mem_visited_iff.2 h).1,
    Bool.and_self, if_pos rfl, childrenOf_candidateLayout, if_pos hcandidate]
  exact keptOf_candidates (fun i hi => (mem_candidateChildren.1 hi).2) _ _

/-- Otherwise it leaves nothing. -/
theorem childrenOf_visible_of_not_below
    (h : ¬Below (forest.sparedMembers minLevel) (forest.sparedTops minLevel) i) :
    (forest.visible minLevel).childrenOf i = [] := by
  rw [visible, Layout.childrenOf_filtered]
  refine if_neg fun hkept => h ?_
  rw [Bool.and_eq_true, List.contains_iff_mem] at hkept
  exact mem_visited_iff.1 ⟨hkept.1, Filter.not_rejects_of_keeps hkept.2⟩

end Forest

/-! ## Layouts under new numbers -/

/-- `whole` has the nodes of `part` under new numbers in the same places, and no others. -/
structure Layout.Renumbers (e : Nat → Nat) (part whole : Layout) : Prop where
  roots : whole.roots = part.roots.map e
  childrenOf : ∀ i, whole.childrenOf (e i) = (part.childrenOf i).map e
  hidden : ∀ j, (∀ i, e i ≠ j) → whole.childrenOf j = []

theorem Layout.Renumbers.below_iff {part whole : Layout} (h : Layout.Renumbers e part whole) :
    Below whole.childrenOf whole.roots j ↔ ∃ i, Below part.childrenOf part.roots i ∧ e i = j := by
  rw [h.roots]
  exact below_map fun i _ => h.childrenOf i

namespace Forest

variable {part whole : Forest}

theorem Relabels.rejects (h : Relabels e part whole) (i : Nat) :
    Filter.rejects ⟨whole, minLevel⟩ (e i) = Filter.rejects ⟨part, minLevel⟩ i :=
  h.satisfies i _

/-- The nodes in no container that are not rejected are the same, if none of them is left out. -/
theorem Relabels.sparedTops (h : Relabels e part whole)
    (htop : ∀ c ∈ whole.sparedTops minLevel, ∃ i, e i = c) :
    whole.sparedTops minLevel = (part.sparedTops minLevel).map e := by
  have hascending : ∀ forest : Forest, (forest.sparedTops minLevel).Pairwise (· < ·) :=
    fun forest => ((List.pairwise_lt_range.filter _).filter _).filter _
  refine eq_map_of_mem_iff (fun i hi j hj => h.sibling_lt ?_) (hascending whole) (hascending part) htop
    fun i => ?_
  · exact (mem_sparedTops.1 hi).1.2.1.trans (mem_sparedTops.1 hj).1.2.1.symm
  · have hmark : whole.isMark (e i) = part.isMark i := congrFun h.isMark i
    rw [mem_sparedTops, mem_sparedTops, h.isCandidate, h.container_none_iff, hmark, h.rejects]

/-- So are the members of a node that are not rejected. -/
theorem Relabels.sparedMembers (h : Relabels e part whole)
    (hmember : ∀ c ∈ whole.sparedMembers minLevel (e p), ∃ i, e i = c) :
    whole.sparedMembers minLevel (e p) = (part.sparedMembers minLevel p).map e := by
  have hascending : ∀ (forest : Forest) p, (forest.sparedMembers minLevel p).Pairwise (· < ·) :=
    fun forest p => ((List.pairwise_lt_range.filter _).filter _).filter _
  refine eq_map_of_mem_iff (fun i hi j hj => h.sibling_lt ?_) (hascending whole _) (hascending part _) hmember
    fun i => ?_
  · exact (mem_sparedMembers.1 hi).1.1.trans (mem_sparedMembers.1 hj).1.1.symm
  · rw [mem_sparedMembers, mem_sparedMembers, h.container_iff, h.isCandidate, h.rejects]

theorem Spares.exists_top (h : Spares e minLevel whole) (hc : c ∈ whole.sparedTops minLevel) :
    ∃ i, e i = c := by
  obtain ⟨⟨hcandidate, hparent, -⟩, hrejects⟩ := mem_sparedTops.1 hc
  exact h.top (lt_of_satisfies hcandidate) hparent hrejects

theorem Spares.exists_member (h : Spares e minLevel whole) (hc : c ∈ whole.sparedMembers minLevel (e p)) :
    ∃ i, e i = c := by
  obtain ⟨⟨hparent, -⟩, hrejects⟩ := mem_sparedMembers.1 hc
  exact h.member hparent hrejects

/-- **The filter leaves the same**, if it rejects all nodes that are left out. -/
theorem Relabels.visible (h : Relabels e part whole)
    (htop : ∀ c ∈ whole.sparedTops minLevel, ∃ i, e i = c)
    (hmember : ∀ p, ∀ c ∈ whole.sparedMembers minLevel (e p), ∃ i, e i = c) :
    Layout.Renumbers e (part.visible minLevel) (whole.visible minLevel) := by
  have hbelow : ∀ {j}, Below (whole.sparedMembers minLevel) (whole.sparedTops minLevel) j ↔
      ∃ i, Below (part.sparedMembers minLevel) (part.sparedTops minLevel) i ∧ e i = j := by
    rw [h.sparedTops htop]
    exact below_map fun i _ => h.sparedMembers (hmember i)
  refine ⟨?_, fun i => ?_, fun j hj => ?_⟩
  · rw [roots_visible, roots_visible, h.sparedTops htop]
  · by_cases hi : Below (part.sparedMembers minLevel) (part.sparedTops minLevel) i
    · rw [childrenOf_visible_of_below hi, childrenOf_visible_of_below (hbelow.2 ⟨i, hi, rfl⟩),
        h.sparedMembers (hmember i), dropEmptySections_map, h.isMark]
    · have hi' : ¬Below (whole.sparedMembers minLevel) (whole.sparedTops minLevel) (e i) :=
        mt (iff_of_forall_iff_exists h.injective (fun _ => hbelow) i).1 hi
      rw [childrenOf_visible_of_not_below hi, childrenOf_visible_of_not_below hi', List.map_nil]
  · refine childrenOf_visible_of_not_below fun hbelow' => ?_
    obtain ⟨i, -, hi⟩ := hbelow.1 hbelow'
    exact hj i hi

end Forest
end DocForest
