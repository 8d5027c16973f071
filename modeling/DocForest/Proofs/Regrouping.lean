import DocForest.Proofs.Freezing
import DocForest.Proofs.Transfer

/-!
# Grouping and freezing under new numbers

Sections are computed from the nodes that they list, and their groups are numbered behind all others.
So **the same plan is grouped in the same way**, and what is frozen in the end has the same nodes in the same
places.

## What is here

* `ModuleSection.renumbered`, `Relabels.moduleSections` — the same sections under new numbers.
* `Relabels.grouped` — the same groups with the same entries.
* `Forest.SameLinks`, `Forest.SamePlaces` — forests with the same nodes in the same places;
  `Relabels.frozen` says that freezing makes them so.
* `Forest.SameDocumentation`, `Forest.SameTree` — forests that are merged in the same way as well.
-/

set_option autoImplicit false

namespace DocForest

variable {e : Nat → Nat} {i j p : Nat}

/-- A category under new numbers. -/
def Category.renumbered (e : Nat → Nat) (category : Category) : Category :=
  { category with items := category.items.map e }

/-- A section under new numbers. -/
def ModuleSection.renumbered (e : Nat → Nat) (part : ModuleSection) : ModuleSection :=
  { part with categories := part.categories.map (Category.renumbered e) }

/-- The groups of a section have nothing to do with numbers. -/
theorem ModuleSection.groups_renumbered (inflect : String → String) (e : Nat → Nat)
    (part : ModuleSection) : (part.renumbered e).groups inflect = part.groups inflect := by
  rw [groups, groups, renumbered, List.map_map]
  rfl

/-! ## New entries -/

namespace Layout

variable {layout layout' : Layout} {entries : List (Nat × List Nat)}

/-- An entry under new numbers. -/
def entryRenumbered (e : Nat → Nat) (entry : Nat × List Nat) : Nat × List Nat :=
  entry.map e (List.map e)

theorem childList?_append (roots starts : List Nat) (entries more : List (Nat × List Nat)) (i : Nat) :
    Layout.childList? ⟨starts, entries ++ more⟩ i =
      (Layout.childList? ⟨roots, entries⟩ i).or (Layout.childList? ⟨roots, more⟩ i) := by
  rw [childList?, childList?, childList?, List.find?_append]
  cases entries.find? fun entry => entry.1 = i <;> rfl

theorem copies_of_entries (he : Function.Injective e) (roots : List Nat)
    (entries : List (Nat × List Nat)) :
    Copies e ⟨roots, entries⟩ ⟨roots.map e, entries.map (entryRenumbered e)⟩ where
  roots := rfl
  childList? i := by
    rw [childList?, childList?, List.find?_map]
    simp only [Function.comp_def, entryRenumbered, Prod.map_fst, he.eq_iff]
    cases entries.find? fun entry => entry.1 = i <;> rfl
  others j hj := by
    rw [childList?, Option.map_eq_none_iff, List.find?_eq_none]
    intro entry hentry heq
    obtain ⟨old, -, rfl⟩ := List.mem_map.1 hentry
    exact hj old.1 (of_decide_eq_true heq)

/-- **The same entries more** leave layouts with the same entries. -/
theorem Copies.append (h : Copies e layout layout') (he : Function.Injective e) (more : List Nat)
    (entries : List (Nat × List Nat)) :
    Copies e ⟨layout.roots ++ more, layout.children ++ entries⟩
      ⟨layout'.roots ++ more.map e, layout'.children ++ entries.map (entryRenumbered e)⟩ where
  roots := by rw [h.roots, List.map_append]
  childList? i := by
    have hold : Layout.childList? ⟨[], layout'.children⟩ (e i) =
        (Layout.childList? ⟨[], layout.children⟩ i).map (List.map e) := h.childList? i
    have hnew := (copies_of_entries he [] entries).childList? i
    rw [List.map_nil] at hnew
    rw [childList?_append [], childList?_append [], hold, hnew]
    cases Layout.childList? ⟨[], layout.children⟩ i <;> rfl
  others j hj := by
    have hold : Layout.childList? ⟨[], layout'.children⟩ j = none := h.others j hj
    have hnew := (copies_of_entries he [] entries).others j hj
    rw [List.map_nil] at hnew
    rw [childList?_append [], hold, hnew, Option.or_none]

end Layout

namespace Forest

variable {part whole : Forest} {layout layout' : Layout} {config : Config} {inflect : String → String}

/-! ## New nodes -/

theorem decl?_add (forest : Forest) (decl : Declaration) (i : Nat) :
    (forest.add decl).decl? i = if i = forest.size then some decl else forest.decl? i := by
  rw [decl?, node?_add, decl?]
  split <;> rfl

theorem codeParent?_add (forest : Forest) (decl : Declaration) (i : Nat) :
    (forest.add decl).codeParent? i = forest.codeParent? i :=
  bind_node?_add forest rfl i

namespace Relabels

theorem eq_size_iff (h : Relabels e part whole) : e i = whole.size ↔ i = part.size := by
  rw [← h.map_size, h.injective.eq_iff]

theorem add (h : Relabels e part whole) (decl : Declaration) :
    Relabels e (part.add decl) (whole.add decl) where
  injective := h.injective
  size_le := by
    rw [size_add, size_add]
    exact Nat.succ_le_succ h.size_le
  lt_iff := by
    intro i
    rw [size_add, size_add, Nat.lt_succ_iff_lt_or_eq, Nat.lt_succ_iff_lt_or_eq, h.lt_iff, h.eq_size_iff]
  beyond k := by
    rw [size_add, size_add, Nat.add_assoc, Nat.add_assoc]
    exact h.beyond (1 + k)
  decl? i := by rw [decl?_add, decl?_add, h.decl?, if_congr h.eq_size_iff rfl rfl]
  codeParent? i := by rw [codeParent?_add, codeParent?_add, h.codeParent?]
  sibling_lt hp hlt := by
    rw [codeParent?_add, codeParent?_add] at hp
    exact h.sibling_lt hp hlt
  fragment_lt {i j} hi hj hlt := by
    have hj' := lt_of_satisfies hj
    rw [size_add, Nat.lt_succ_iff_lt_or_eq] at hj'
    rcases hj' with hsize | rfl
    · rw [Forest.satisfies, decl?_add, if_neg (Nat.ne_of_lt (Nat.lt_trans hlt hsize))] at hi
      rw [Forest.satisfies, decl?_add, if_neg (Nat.ne_of_lt hsize)] at hj
      exact h.fragment_lt hi hj hlt
    · -- the new node is behind all others
      rw [h.map_size]
      exact h.lt_iff.2 hlt

theorem addAll (h : Relabels e part whole) (decls : List Declaration) :
    Relabels e (part.addAll decls) (whole.addAll decls) := by
  unfold Forest.addAll
  induction decls generalizing part whole with
  | nil => exact h
  | cons decl rest ih => exact ih (h.add decl)

/-! ## Sections -/

section Sections

variable (h : Relabels e part whole)

include h

theorem categoriesOf (items : List Nat) :
    whole.categoriesOf (items.map e) = (part.categoriesOf items).map (Category.renumbered e) := by
  have hlabels : (items.map e).filterMap whole.categoryLabel? = items.filterMap part.categoryLabel? := by
    rw [List.filterMap_map]
    exact List.filterMap_congr fun i _ => h.categoryLabel? i
  have hlisted : ∀ label, ((items.map e).filter fun i => whole.categoryLabel? i = some label) =
      (items.filter fun i => part.categoryLabel? i = some label).map e := by
    intro label
    rw [List.filter_map]
    simp only [Function.comp_def, h.categoryLabel?]
  rw [Forest.categoriesOf, Forest.categoriesOf, hlabels, List.map_filterMap]
  refine List.filterMap_congr fun label _ => ?_
  dsimp only
  rw [hlisted, List.head?_map, Option.map_map]
  cases (items.filter fun i => part.categoryLabel? i = some label).head? with
  | none => rfl
  | some i =>
    rw [Option.map_some, Option.bind_some, Option.bind_some, h.categoryOf?]
    rfl

theorem map_moduleOf (items : List Nat) : (items.map e).map whole.moduleOf = items.map part.moduleOf := by
  rw [List.map_map]
  exact List.map_congr_left fun i _ => h.moduleOf i

theorem itemsOf (items : List Nat) (name : Json) :
    whole.itemsOf (items.map e) name = (part.itemsOf items name).map e := by
  rw [Forest.itemsOf, Forest.itemsOf, List.filter_map]
  simp only [Function.comp_def, h.moduleOf]

/-- **The same nodes are listed in the same sections.** -/
theorem moduleSections (config : Config) (items : List Nat) :
    whole.moduleSections config (items.map e) =
      (part.moduleSections config items).map (ModuleSection.renumbered e) := by
  have hnames : whole.moduleNames config (items.map e) = part.moduleNames config items := by
    rw [Forest.moduleNames, h.map_moduleOf, Forest.moduleNames]
  rw [Forest.moduleSections, Forest.moduleSections, hnames, List.filter_map, List.filter_map, List.map_map]
  have hsame : ((fun name => (⟨name, whole.categoriesOf (whole.itemsOf (items.map e) name)⟩ :
      ModuleSection))) = ModuleSection.renumbered e ∘ fun name =>
        ⟨name, part.categoriesOf (part.itemsOf items name)⟩ := by
    funext name
    rw [Function.comp_apply, ModuleSection.renumbered, h.itemsOf, h.categoriesOf]
  rw [hsame]
  refine congrArg _ (List.filter_congr fun name _ => ?_)
  simp only [Function.comp_apply, ModuleSection.renumbered, List.isEmpty_map]

theorem checkModules (items : List Nat) :
    whole.checkModules (items.map e) = part.checkModules items := by
  rw [Forest.checkModules, Forest.checkModules, List.all_map]
  simp only [Function.comp_def, h.moduleOf]

theorem guideRoots (hlayout : Layout.Copies e layout layout') :
    whole.guideRoots layout' = (part.guideRoots layout).map e := by
  rw [Forest.guideRoots, Forest.guideRoots, hlayout.roots, List.filter_map, ← h.isGuide]
  rfl

theorem itemRoots (hlayout : Layout.Copies e layout layout') :
    whole.itemRoots layout' = (part.itemRoots layout).map e := by
  rw [Forest.itemRoots, Forest.itemRoots, hlayout.roots, List.filter_map, ← h.isGuide]
  rfl

/-- **The same section gets the same groups**, with the same entries. -/
theorem addSection (hlayout : Layout.Copies e layout layout') (inflect : String → String)
    (block : ModuleSection) :
    Relabels e (Forest.addSection inflect (part, layout) block).1
        (Forest.addSection inflect (whole, layout') (block.renumbered e)).1 ∧
      Layout.Copies e (Forest.addSection inflect (part, layout) block).2
        (Forest.addSection inflect (whole, layout') (block.renumbered e)).2 := by
  let lists := block.categories.map fun category => part.inOrder category.items
  let indices := (List.range lists.length).map (part.size + ·)
  have hlists : (block.renumbered e).categories.map (fun category => whole.inOrder category.items) =
      lists.map (List.map e) := by
    rw [ModuleSection.renumbered, List.map_map, List.map_map]
    exact List.map_congr_left fun category _ => h.inOrder category.items
  have hindices : ∀ n, (List.range n).map (whole.size + ·) =
      ((List.range n).map (part.size + ·)).map e := by
    intro n
    rw [List.map_map]
    exact List.map_congr_left fun k _ => (h.beyond k).symm
  have hentries : (((List.range lists.length).map (whole.size + ·)).zip (lists.map (List.map e)) ++
      [(whole.size + lists.length, (List.range lists.length).map (whole.size + ·))]) =
        (indices.zip lists ++ [(part.size + lists.length, indices)]).map (Layout.entryRenumbered e) := by
    rw [hindices, List.zip_map, List.map_append, List.map_singleton, ← h.beyond]
    rfl
  constructor
  · rw [Forest.addSection, Forest.addSection, ModuleSection.groups_renumbered]
    exact h.addAll _
  · have hcopies := hlayout.append h.injective [part.size + lists.length]
      (indices.zip lists ++ [(part.size + lists.length, indices)])
    have hlength : (lists.map (List.map e)).length = lists.length := List.length_map _
    rw [← hentries, List.map_singleton, h.beyond] at hcopies
    rw [Forest.addSection, Forest.addSection]
    dsimp only
    rw [hlists, hlength, List.append_assoc, List.append_assoc]
    exact hcopies

theorem foldl_addSection (hlayout : Layout.Copies e layout layout') (inflect : String → String)
    (blocks : List ModuleSection) :
    Relabels e (blocks.foldl (Forest.addSection inflect) (part, layout)).1
        ((blocks.map (ModuleSection.renumbered e)).foldl (Forest.addSection inflect) (whole, layout')).1 ∧
      Layout.Copies e (blocks.foldl (Forest.addSection inflect) (part, layout)).2
        ((blocks.map (ModuleSection.renumbered e)).foldl (Forest.addSection inflect)
          (whole, layout')).2 := by
  induction blocks generalizing part whole layout layout' with
  | nil => exact ⟨h, hlayout⟩
  | cons block rest ih =>
    obtain ⟨hnext, hcopies⟩ := h.addSection hlayout inflect block
    exact ih hnext hcopies

/-- **The same plan is grouped in the same way.** -/
theorem grouped (hlayout : Layout.Copies e layout layout') (inflect : String → String)
    (config : Config) :
    Relabels e (grouped inflect config part layout).1 (Forest.grouped inflect config whole layout').1 ∧
      Layout.Copies e (Forest.grouped inflect config part layout).2
        (Forest.grouped inflect config whole layout').2 := by
  have hstart : Layout.Copies e { layout with roots := part.guideRoots layout }
      { layout' with roots := whole.guideRoots layout' } :=
    ⟨h.guideRoots hlayout, hlayout.childList?, hlayout.others⟩
  have hsections := h.moduleSections config (part.itemRoots layout)
  rw [← h.itemRoots hlayout] at hsections
  rw [Forest.grouped, Forest.grouped, hsections]
  exact h.foldl_addSection hstart inflect _

end Sections

end Relabels

/-! ## Freezing -/

/-- The nodes of `part` have the same places in `whole` as in `part`, and all others have none. -/
structure SameLinks (e : Nat → Nat) (part whole : Forest) : Prop extends Renumbers e part whole where
  rootList : whole.rootList = part.rootList.map e
  childrenOf : ∀ i, whole.childrenOf (e i) = (part.childrenOf i).map e
  docsParent? : ∀ i, whole.docsParent? (e i) = (part.docsParent? i).map e
  childrenOf_others : ∀ j, (∀ i, e i ≠ j) → whole.childrenOf j = []
  docsParent?_others : ∀ j, (∀ i, e i ≠ j) → whole.docsParent? j = none

/-- The nodes of `part` have the same places in `whole` as in `part`, and all others have none, whatever
the order of the numbers. -/
structure SamePlaces (e : Nat → Nat) (part whole : Forest) : Prop extends Relabels e part whole where
  rootList : whole.rootList = part.rootList.map e
  childrenOf : ∀ i, whole.childrenOf (e i) = (part.childrenOf i).map e
  docsParent? : ∀ i, whole.docsParent? (e i) = (part.docsParent? i).map e
  childrenOf_others : ∀ j, (∀ i, e i ≠ j) → whole.childrenOf j = []
  docsParent?_others : ∀ j, (∀ i, e i ≠ j) → whole.docsParent? j = none

theorem SameLinks.samePlaces (h : SameLinks e part whole) : SamePlaces e part whole :=
  { h.toRenumbers.relabels with
    rootList := h.rootList
    childrenOf := h.childrenOf
    docsParent? := h.docsParent?
    childrenOf_others := h.childrenOf_others
    docsParent?_others := h.docsParent?_others }

section Frozen

variable {finished finished' : Forest} (h : Relabels e part whole)
  (hlayout : Layout.Renumbers e layout layout') (hfrozen : Frozen layout part finished)
  (hfrozen' : Frozen layout' whole finished')

include h hfrozen hfrozen'

theorem Relabels.of_frozen : Relabels e finished finished' := by
  have hdecl : ∀ {layout forest finished}, Frozen layout forest finished → ∀ i,
      finished.decl? i = forest.decl? i := fun hfrozen i => hfrozen.view (fun _ _ _ => rfl) i
  have hparent : ∀ {layout forest finished}, Frozen layout forest finished →
      finished.codeParent? = forest.codeParent? := fun hfrozen =>
    codeParent?_congr (hfrozen.view fun _ _ _ => rfl)
  refine h.congr hfrozen.size hfrozen'.size (hparent hfrozen) (hparent hfrozen')
    (fun i => satisfies_congr (hfrozen.view (fun _ _ _ => rfl) i)) fun i => ?_
  rw [hdecl hfrozen, hdecl hfrozen', h.decl?]

include hlayout

omit h in
/-- The links upwards are the same, and there are no others. -/
theorem docsParent?_frozen_iff
    (hreachable : ∀ j, j ∈ layout'.reachable ↔ ∃ i ∈ layout.reachable, e i = j) :
    finished'.docsParent? j = some p ↔ ∃ i q, finished.docsParent? i = some q ∧ e i = j ∧ e q = p := by
  rw [hfrozen'.docsParent]
  constructor
  · rintro ⟨hp, hj⟩
    obtain ⟨q, hq, rfl⟩ := (hreachable p).1 hp
    rw [hlayout.childrenOf] at hj
    obtain ⟨i, hi, rfl⟩ := List.mem_map.1 hj
    exact ⟨i, q, hfrozen.docsParent.2 ⟨hq, hi⟩, rfl, rfl⟩
  · rintro ⟨i, q, hq, rfl, rfl⟩
    obtain ⟨hq, hi⟩ := hfrozen.docsParent.1 hq
    rw [hlayout.childrenOf]
    exact ⟨(hreachable _).2 ⟨q, hq, rfl⟩, List.mem_map_of_mem hi⟩

/-- **Layouts with the same places are frozen to forests with the same places.** -/
theorem Relabels.frozen (htidy : layout.Tidy part.size) (htidy' : layout'.Tidy whole.size) :
    SamePlaces e finished finished' := by
  have hreachable : ∀ j, j ∈ layout'.reachable ↔ ∃ i ∈ layout.reachable, e i = j := by
    intro j
    simp only [Layout.mem_reachable_iff htidy'.onePlace, Layout.mem_reachable_iff htidy.onePlace]
    exact hlayout.below_iff
  have hself := iff_of_forall_iff_exists h.injective hreachable
  have hlinks : ∀ j p, finished'.docsParent? j = some p ↔
      ∃ i q, finished.docsParent? i = some q ∧ e i = j ∧ e q = p := fun _ _ =>
    docsParent?_frozen_iff hlayout hfrozen hfrozen' hreachable
  refine ⟨h.of_frozen hfrozen hfrozen', ?_, fun i => ?_, fun i => ?_, fun j hj => ?_, fun j hj => ?_⟩
  · rw [hfrozen.rootList, hfrozen'.rootList, hlayout.roots]
  · rw [hfrozen.childrenOf, hfrozen'.childrenOf, hlayout.childrenOf, if_congr (hself i) rfl rfl]
    split <;> rfl
  · refine Option.ext fun p => ?_
    rw [hlinks, Option.map_eq_some_iff]
    constructor
    · rintro ⟨k, q, hq, hk, hp⟩
      exact ⟨q, h.injective hk ▸ hq, hp⟩
    · rintro ⟨q, hq, hp⟩
      exact ⟨i, q, hq, rfl, hp⟩
  · rw [hfrozen'.childrenOf, hlayout.hidden j hj, ite_self]
  · rw [Option.eq_none_iff_forall_ne_some]
    intro p hp
    obtain ⟨i, -, -, hi, -⟩ := (hlinks j p).1 hp
    exact hj i hi

end Frozen

/-- **Forests with the same documentation**: `whole` shows the nodes of `part` under new numbers, merged
in the same way and in the same places, and nothing of its other nodes. -/
structure SameDocumentation (e : Nat → Nat) (part whole : Forest) : Prop
    extends Corresponds e part whole, SameLinks e part whole

/-- **Forests with the same documentation**, under numbers that keep the order of siblings and fragments. -/
structure SameTree (e : Nat → Nat) (part whole : Forest) : Prop
    extends SameMerging e part whole, SamePlaces e part whole

theorem SameTree.sameDocumentation (h : SameTree e part whole) (hmono : StrictMono e) :
    SameDocumentation e part whole :=
  { h.toRelabels.renumbers hmono with
    mergedInto? := h.mergedInto?
    isUndocumentedBase := h.isUndocumentedBase
    mergedInto?_others := h.mergedInto?_others
    isUndocumentedBase_others := h.isUndocumentedBase_others
    rootList := h.rootList
    childrenOf := h.childrenOf
    docsParent? := h.docsParent?
    childrenOf_others := h.childrenOf_others
    docsParent?_others := h.docsParent?_others }

end Forest
end DocForest
