import DocForest.Proofs.Assembling

/-!
# The groups of the finished documentation

The roots of the documentation are guides, and behind them the groups over the modules.  The children
of the group over a module are the groups of its categories.

## What is here

* `mem_moduleSections`, `mem_moduleNames`, `of_mem_categoriesOf`, `pairwise_categoriesOf` — what a section is
  made of.
* `node?_addAll` — the nodes of several new declarations.
* `Arranges` — a node over a section, with the groups of its categories; `arranges_addSection`,
  `exists_arranges_foldl` — every section gets one.  `Heads` says less of it.
* `exists_arranges`, `exists_heads` — **the roots are guides and the nodes over the sections, in this
  order**.
* `exists_group`, `childrenOf_ne_nil_of_le` — every node behind the records is a group of a section, and lists
  something.
-/

set_option autoImplicit false

namespace DocForest
namespace Forest

variable {config : Config} {inflect : String → String} {records : List Record} {loaded : Loaded}
  {forest frozen : Forest} {layout : Layout} {part : ModuleSection} {sections : List ModuleSection}
  {items : List Nat} {i r : Nat}

/-! ## Sections -/

theorem mem_moduleSections (h : part ∈ forest.moduleSections config items) :
    part.moduleName ∈ forest.moduleNames config items ∧
      part.categories = forest.categoriesOf (forest.itemsOf items part.moduleName) := by
  obtain ⟨name, hname, rfl⟩ := List.mem_map.1 (List.mem_filter.1 h).1
  exact ⟨hname, rfl⟩

theorem mem_moduleNames {name : Json} (h : name ∈ forest.moduleNames config items) :
    name ∈ config.modules.map Json.str ++ items.map forest.moduleOf := by
  obtain ⟨⟨key, group⟩, hgroup, hhead⟩ := List.mem_filterMap.1 h
  rw [gatherBy_eq] at hgroup
  obtain ⟨key', -, heq⟩ := List.mem_map.1 hgroup
  obtain ⟨rfl, rfl⟩ := Prod.mk.inj heq
  exact (List.mem_filter.1 (List.mem_of_mem_head? hhead)).1

/-- The category with a label is named after a kind that has it, and lists something. -/
theorem label_of_category {label : String} {category : Category}
    (h : ((items.filter fun i => forest.categoryLabel? i = some label).head?.bind
        forest.categoryOf?).map (fun kind => (⟨kind, items.filter fun i =>
          forest.categoryLabel? i = some label⟩ : Category)) = some category) :
    category.kind.label = some label ∧ category.items ≠ [] := by
  obtain ⟨kind, hkind, rfl⟩ := Option.map_eq_some_iff.1 h
  obtain ⟨i, hi, hkind⟩ := Option.bind_eq_some_iff.1 hkind
  have hmem := List.mem_of_mem_head? hi
  have hlabel := of_decide_eq_true (List.mem_filter.1 hmem).2
  rw [categoryLabel?, hkind, Option.bind_some] at hlabel
  exact ⟨hlabel, List.ne_nil_of_mem hmem⟩

/-- **Every category is named after a kind that has a label, and lists something.** -/
theorem of_mem_categoriesOf {category : Category} (h : category ∈ forest.categoriesOf items) :
    category.kind.label.isSome = true ∧ category.items ≠ [] := by
  obtain ⟨label, -, hcategory⟩ := List.mem_filterMap.1 h
  obtain ⟨hlabel, hitems⟩ := label_of_category hcategory
  exact ⟨Option.isSome_of_eq_some hlabel, hitems⟩

/-- **No two categories have one label.** -/
theorem pairwise_categoriesOf (forest : Forest) (items : List Nat) :
    (forest.categoriesOf items).Pairwise fun category other => category.kind.label ≠ other.kind.label := by
  rw [categoriesOf, List.pairwise_filterMap]
  have hnodup : (stableSort (fun a b => decide (labelRank a ≤ labelRank b))
      (items.filterMap forest.categoryLabel?).eraseDups).Nodup :=
    (stableSort_perm _ _).nodup_iff.2 (nodup_eraseDups _)
  refine hnodup.imp fun {label label'} hne category hcategory other hother => ?_
  rw [(label_of_category hcategory).1, (label_of_category hother).1]
  exact fun heq => hne (Option.some.inj heq)

/-! ## New nodes -/

theorem toList_nodes_addAll (forest : Forest) (decls : List Declaration) :
    (forest.addAll decls).nodes.toList = forest.nodes.toList ++ decls.map fun decl => ({ decl } : Node) := by
  unfold addAll
  induction decls generalizing forest with
  | nil => simp
  | cons decl rest ih => rw [List.foldl_cons, ih]; simp [add]

theorem node?_addAll (forest : Forest) (decls : List Declaration) (k : Nat) :
    (forest.addAll decls).node? (forest.size + k) = decls[k]?.map fun decl => ({ decl } : Node) := by
  rw [node?, ← Array.getElem?_toList, toList_nodes_addAll, size, ← Array.length_toList,
    List.getElem?_append_right (Nat.le_add_right _ _), Nat.add_sub_cancel_left, List.getElem?_map]

/-- A node over the categories of a section, each of which lists something, where `children` gives every
node its children. -/
structure Heads (inflect : String → String) (part : ModuleSection) (forest : Forest)
    (children : Nat → List Nat) (r : Nat) : Prop where
  root : forest.decl? r = some part.rootOf
  categories : (children r).map forest.decl? =
    part.categories.map fun category => some (part.groupOf inflect category)
  nonempty : ∀ c ∈ children r, children c ≠ []

/-- A node over a section, whose children are the groups of its categories in their order, each with what
its category lists. -/
structure Arranges (inflect : String → String) (part : ModuleSection) (forest : Forest)
    (children : Nat → List Nat) (r : Nat) : Prop where
  root : forest.decl? r = some part.rootOf
  categories : List.Forall₂ (fun c (category : Category) =>
    forest.decl? c = some (part.groupOf inflect category) ∧
      children c = forest.inOrder category.items) (children r) part.categories

theorem Heads.exists_category {children : Nat → List Nat} {c : Nat}
    (h : Heads inflect part forest children r) (hc : c ∈ children r) :
    ∃ category ∈ part.categories, forest.decl? c = some (part.groupOf inflect category) := by
  have hmem := List.mem_map_of_mem hc (f := forest.decl?)
  rw [h.categories] at hmem
  obtain ⟨category, hcategory, heq⟩ := List.mem_map.1 hmem
  exact ⟨category, hcategory, heq.symm⟩

/-- All entries of a layout are for nodes that exist. -/
def KeysWithin (layout : Layout) (size : Nat) : Prop :=
  ∀ entry ∈ layout.children, entry.1 < size

theorem size_addSection (inflect : String → String) (part : ModuleSection) :
    (addSection inflect (forest, layout) part).1.size =
      forest.size + part.categories.length + 1 := by
  rw [addSection, size_addAll, length_groups, Nat.add_assoc]

theorem roots_addSection (inflect : String → String) (part : ModuleSection) :
    (addSection inflect (forest, layout) part).2.roots =
      layout.roots ++ [forest.size + part.categories.length] := by
  simp [addSection]

theorem keysWithin_addSection (h : KeysWithin layout forest.size) (inflect : String → String)
    (part : ModuleSection) : KeysWithin (addSection inflect (forest, layout) part).2
      (addSection inflect (forest, layout) part).1.size := by
  intro entry hentry
  rw [size_addSection]
  simp only [addSection, List.length_map, List.append_assoc, List.mem_append, List.mem_singleton] at hentry
  rcases hentry with hentry | hentry | rfl
  · have := h entry hentry
    omega
  · obtain ⟨k, hk, heq⟩ := List.mem_map.1 (List.of_mem_zip hentry).1
    rw [List.mem_range] at hk
    omega
  · exact Nat.lt_succ_self _

theorem fst_lt_of_mem_entries (h : KeysWithin layout forest.size) {lists : List (List Nat)}
    {entry : Nat × List Nat}
    (hentry : entry ∈ layout.children ++ ((List.range lists.length).map (forest.size + ·)).zip lists) :
    entry.1 < forest.size ∨ entry.2 ∈ lists ∧ entry.1 < forest.size + lists.length := by
  rcases List.mem_append.1 hentry with hentry | hentry
  · exact .inl (h entry hentry)
  · obtain ⟨hkey, hlist⟩ := List.of_mem_zip hentry
    obtain ⟨k, hk, heq⟩ := List.mem_map.1 hkey
    rw [List.mem_range] at hk
    exact .inr ⟨hlist, by omega⟩

/-- What a section lists of each of its categories. -/
theorem childrenOf_entries (h : KeysWithin layout forest.size) {lists : List (List Nat)} {k : Nat}
    (hk : k < lists.length) :
    Layout.childrenOf ⟨[], layout.children ++
      ((List.range lists.length).map (forest.size + ·)).zip lists⟩ (forest.size + k) = lists[k] := by
  rw [Layout.childrenOf, Layout.childList?]
  cases hfind : (layout.children ++ ((List.range lists.length).map (forest.size + ·)).zip lists).find?
      fun entry => entry.1 = forest.size + k with
  | none =>
    have hmem : (forest.size + k, lists[k]) ∈
        ((List.range lists.length).map (forest.size + ·)).zip lists :=
      List.mem_iff_getElem.2 ⟨k, by simpa using hk, by simp⟩
    simpa using List.find?_eq_none.1 hfind _ (List.mem_append_right _ hmem)
  | some entry =>
    have hkey : entry.1 = forest.size + k := by simpa using List.find?_some hfind
    rcases List.mem_append.1 (List.mem_of_find?_eq_some hfind) with hold | hnew
    · exact absurd (h entry hold) (by omega)
    · obtain ⟨j, hj, rfl⟩ := List.mem_iff_getElem.1 hnew
      obtain rfl : j = k := by simpa using hkey
      simp

theorem decl?_addSection (inflect : String → String) (layout : Layout) (part : ModuleSection) (k : Nat) :
    (addSection inflect (forest, layout) part).1.decl? (forest.size + k) = (part.groups inflect)[k]? := by
  rw [decl?, addSection, node?_addAll, Option.map_map]
  exact Option.map_id'

theorem inOrder_ne_nil {items : List Nat} (hitems : items ≠ []) : forest.inOrder items ≠ [] := by
  intro hempty
  obtain ⟨i, hi⟩ := List.exists_mem_of_ne_nil _ hitems
  have hordered := (ordered_perm forest.isMark forest.hintOf items).mem_iff.2 hi
  rw [inOrder] at hempty
  rw [hempty] at hordered
  exact List.not_mem_nil hordered

theorem enlarged_addSection (inflect : String → String) (layout : Layout) (part : ModuleSection) :
    forest.Enlarged (addSection inflect (forest, layout) part).1 :=
  enlarged_addAll _ fun _ => groupsOthers_of_mem_groups

theorem enlarged_foldl_addSection (inflect : String → String) (sections : List ModuleSection)
    (forest : Forest) (layout : Layout) :
    forest.Enlarged (sections.foldl (addSection inflect) (forest, layout)).1 := by
  induction sections generalizing forest layout with
  | nil => exact .refl forest
  | cons part rest ih =>
    exact (enlarged_addSection inflect layout part).trans (ih _ _)

theorem Enlarged.decl? {bigger : Forest} (h : forest.Enlarged bigger) (hi : i < forest.size) :
    bigger.decl? i = forest.decl? i := by
  rw [Forest.decl?, h.kept i hi, Forest.decl?]

/-- What every node lists behind a section: its root the groups, and all others what the entries in front of
that of the root say. -/
theorem childrenOf_addSection_eq (h : KeysWithin layout forest.size) (inflect : String → String)
    (part : ModuleSection) {lists : List (List Nat)}
    (hlists : lists = part.categories.map fun category => forest.inOrder category.items) (p : Nat) :
    (addSection inflect (forest, layout) part).2.childrenOf p =
      if forest.size + lists.length = p then (List.range lists.length).map (forest.size + ·)
      else Layout.childrenOf ⟨[], layout.children ++
        ((List.range lists.length).map (forest.size + ·)).zip lists⟩ p := by
  subst hlists
  refine Layout.childrenOf_concat [] _ _ (fun entry hentry => ?_) p
  rcases fst_lt_of_mem_entries h hentry with hlt | ⟨-, hlt⟩
  · exact Nat.lt_of_lt_of_le hlt (Nat.le_add_right _ _)
  · exact hlt

/-- **A section is put below a root of its own.** -/
theorem arranges_addSection (h : KeysWithin layout forest.size) (inflect : String → String)
    (part : ModuleSection) :
    Arranges inflect part (addSection inflect (forest, layout) part).1
      (addSection inflect (forest, layout) part).2.childrenOf
      (forest.size + part.categories.length) := by
  let lists := part.categories.map fun category => forest.inOrder category.items
  have hlength : lists.length = part.categories.length := List.length_map _
  have hchildren := childrenOf_addSection_eq h inflect part (rfl : lists = _)
  have hroot : (addSection inflect (forest, layout) part).2.childrenOf
      (forest.size + part.categories.length) = (List.range lists.length).map (forest.size + ·) := by
    rw [hchildren, if_pos (by rw [hlength])]
  refine ⟨?_, ?_⟩
  · rw [decl?_addSection, ModuleSection.groups, List.getElem?_append_right (by simp)]
    simp
  · rw [hroot, (enlarged_addSection inflect layout part).inOrder, List.forall₂_iff_get]
    refine ⟨by simp [hlength], fun k hk hk' => ?_⟩
    simp only [List.get_eq_getElem, List.getElem_map, List.getElem_range]
    refine ⟨?_, ?_⟩
    · simp [decl?_addSection, ModuleSection.groups, List.getElem?_append_left, hk']
    · rw [hchildren, if_neg (by omega), childrenOf_entries h (by omega), List.getElem_map]

/-- All groups of a section list something, if there are categories and each of them does. -/
theorem childrenOf_addSection_ne_nil (h : KeysWithin layout forest.size) (inflect : String → String)
    (hcategories : part.categories ≠ []) (hitems : ∀ category ∈ part.categories, category.items ≠ [])
    (hle : forest.size ≤ i) (hlt : i < (addSection inflect (forest, layout) part).1.size) :
    (addSection inflect (forest, layout) part).2.childrenOf i ≠ [] := by
  obtain ⟨k, rfl⟩ := Nat.exists_eq_add_of_le hle
  rw [size_addSection] at hlt
  rw [childrenOf_addSection_eq h inflect part rfl]
  split
  · simpa using hcategories
  · next hroot =>
    rw [List.length_map] at hroot
    have hk : k < part.categories.length := by omega
    rw [childrenOf_entries h (by simpa using hk), List.getElem_map]
    exact inOrder_ne_nil (hitems _ (List.getElem_mem hk))

namespace Arranges

variable {children children' : Nat → List Nat}

/-- A node goes on arranging a section while it and its categories keep what they are and list. -/
theorem congr {other : Forest} (h : Arranges inflect part forest children r)
    (hdecl : ∀ {i decl}, forest.decl? i = some decl → other.decl? i = some decl)
    (horder : other.inOrder = forest.inOrder)
    (hchildren : ∀ {p decl}, p = r ∨ p ∈ children r → forest.decl? p = some decl →
      children' p = children p) : Arranges inflect part other children' r := by
  refine ⟨hdecl h.root, ?_⟩
  rw [hchildren (.inl rfl) h.root, horder]
  refine ((List.forall₂_and_left _ _).2 ⟨fun c hc => hc, h.categories⟩).imp ?_
  rintro c category ⟨hc, hgroup, hlist⟩
  exact ⟨hdecl hgroup, (hchildren (.inr hc) hgroup).trans hlist⟩

theorem heads (h : Arranges inflect part forest children r)
    (hitems : ∀ category ∈ part.categories, category.items ≠ []) :
    Heads inflect part forest children r where
  root := h.root
  categories := by
    rw [← List.forall₂_eq_eq_eq, List.forall₂_map_left_iff, List.forall₂_map_right_iff]
    exact h.categories.imp fun _ _ hgroup => hgroup.1
  nonempty c hc := by
    obtain ⟨category, hcategory, -, hlist⟩ := exists_of_forall₂ h.categories hc
    rw [hlist]
    exact inOrder_ne_nil (hitems category hcategory)

end Arranges

/-- **The new roots are those over the sections, one for each**, and stand behind the old ones. -/
theorem exists_arranges_foldl (inflect : String → String) (sections : List ModuleSection)
    (forest : Forest) (layout : Layout) (hkeys : KeysWithin layout forest.size) :
    ∃ heads, (sections.foldl (addSection inflect) (forest, layout)).2.roots = layout.roots ++ heads ∧
      List.Forall₂ (fun r part =>
        Arranges inflect part (sections.foldl (addSection inflect) (forest, layout)).1
          (sections.foldl (addSection inflect) (forest, layout)).2.childrenOf r) heads sections := by
  induction sections generalizing forest layout with
  | nil => exact ⟨[], (List.append_nil _).symm, .nil⟩
  | cons part rest ih =>
    obtain ⟨heads, hroots, hheads⟩ := ih _ _ (keysWithin_addSection hkeys inflect part)
    refine ⟨(forest.size + part.categories.length) :: heads, ?_, .cons ?_ hheads⟩
    · rw [List.foldl_cons, hroots, roots_addSection, ← List.append_cons]
    · have hrest := enlarged_foldl_addSection inflect rest
        (addSection inflect (forest, layout) part).1 (addSection inflect (forest, layout) part).2
      exact (arranges_addSection hkeys inflect part).congr
        (fun hdecl => (hrest.decl? (lt_of_decl? hdecl)).trans hdecl) hrest.inOrder
        fun _ hdecl => childrenOf_foldl_addSection inflect rest _ _ (lt_of_decl? hdecl)

/-- **Every new node is a group of a section.** -/
theorem exists_group_foldl (inflect : String → String) (sections : List ModuleSection)
    (forest : Forest) (layout : Layout) (hle : forest.size ≤ i)
    (hlt : i < (sections.foldl (addSection inflect) (forest, layout)).1.size) :
    ∃ part ∈ sections, ∃ decl ∈ part.groups inflect,
      (sections.foldl (addSection inflect) (forest, layout)).1.decl? i = some decl := by
  induction sections generalizing forest layout with
  | nil => exact absurd hlt (Nat.not_lt.2 hle)
  | cons part rest ih =>
    by_cases hi : i < (addSection inflect (forest, layout) part).1.size
    · obtain ⟨k, rfl⟩ := Nat.exists_eq_add_of_le hle
      have hk : k < (part.groups inflect).length := by
        rw [size_addSection] at hi
        rw [length_groups]
        omega
      refine ⟨part, List.mem_cons_self, (part.groups inflect)[k], List.getElem_mem hk, ?_⟩
      rw [List.foldl_cons, (enlarged_foldl_addSection inflect rest _ _).decl? hi, decl?_addSection,
        List.getElem?_eq_getElem hk]
    · obtain ⟨other, hother, hdecl⟩ := ih _ _ (Nat.not_lt.1 hi) hlt
      exact ⟨other, List.mem_cons_of_mem _ hother, hdecl⟩

/-- **Every new node lists something.** -/
theorem childrenOf_foldl_ne_nil (inflect : String → String) (sections : List ModuleSection)
    (forest : Forest) (layout : Layout) (hkeys : KeysWithin layout forest.size)
    (hfull : ∀ part ∈ sections, part.categories ≠ [] ∧ ∀ category ∈ part.categories, category.items ≠ [])
    (hle : forest.size ≤ i) (hlt : i < (sections.foldl (addSection inflect) (forest, layout)).1.size) :
    (sections.foldl (addSection inflect) (forest, layout)).2.childrenOf i ≠ [] := by
  induction sections generalizing forest layout with
  | nil => exact absurd hlt (Nat.not_lt.2 hle)
  | cons part rest ih =>
    obtain ⟨hcategories, hitems⟩ := hfull part List.mem_cons_self
    by_cases hi : i < (addSection inflect (forest, layout) part).1.size
    · rw [List.foldl_cons, childrenOf_foldl_addSection inflect rest _ _ hi]
      exact childrenOf_addSection_ne_nil hkeys inflect hcategories hitems hle hi
    · exact ih _ _ (keysWithin_addSection hkeys inflect part)
        (fun part hpart => hfull part (List.mem_cons_of_mem _ hpart)) (Nat.not_lt.1 hi) hlt

/-! ## The finished documentation -/

/-- The sections of a build. -/
def sectionsOf (config : Config) (loaded : Loaded) : List ModuleSection :=
  (consolidated config loaded).moduleSections config
    ((consolidated config loaded).itemRoots (planned config loaded))

section Finished

variable (hfrozen : Frozen (arranged config inflect loaded).2 (arranged config inflect loaded).1 frozen)

include hfrozen

theorem decl?_frozen_eq (i : Nat) : frozen.decl? i = (arranged config inflect loaded).1.decl? i := by
  rw [decl?_eq_view, hfrozen.view fun _ _ _ => rfl, ← decl?_eq_view]

/-- **The roots are those of the plan that are guides, and the nodes over the sections, one for each.** -/
theorem exists_arranges (h : (completed config loaded).Prepared) : ∃ heads,
    frozen.rootList = (consolidated config loaded).guideRoots (planned config loaded) ++ heads ∧
      List.Forall₂ (fun r part => Arranges inflect part frozen frozen.childrenOf r) heads
        (sectionsOf config loaded) := by
  obtain ⟨heads, hroots, hheads⟩ := exists_arranges_foldl inflect (sectionsOf config loaded)
    (consolidated config loaded)
    { planned config loaded with
      roots := (consolidated config loaded).guideRoots (planned config loaded) }
    (planned_tidy h).within.keys
  refine ⟨heads, hfrozen.rootList.trans hroots, ?_⟩
  have hreachable : ∀ {p}, p ∈ (arranged config inflect loaded).2.reachable ↔
      Below (arranged config inflect loaded).2.childrenOf (arranged config inflect loaded).2.roots p :=
    Layout.mem_reachable_iff (arranged_grown h inflect).tidy.onePlace
  have horder : frozen.inOrder = (arranged config inflect loaded).1.inOrder :=
    (inOrder_frozen hfrozen).trans (arranged_enlarged config inflect loaded).inOrder.symm
  refine ((List.forall₂_and_left _ _).2 ⟨fun r hr => hr, hheads⟩).imp fun r part ⟨hr, hhead⟩ => ?_
  have hroot : Below (arranged config inflect loaded).2.childrenOf
      (arranged config inflect loaded).2.roots r :=
    .start (hroots.symm ▸ List.mem_append_right _ hr)
  refine hhead.congr (fun hdecl => (decl?_frozen_eq hfrozen _).trans hdecl) horder
    fun hp _ => (hfrozen.childrenOf _).trans (if_pos (hreachable.2 ?_))
  rcases hp with rfl | hp
  · exact hroot
  · exact .child hroot hp

/-- **The roots are guides and the nodes over the sections, in this order.** -/
theorem exists_heads (h : (completed config loaded).Prepared) : ∃ guides heads,
    frozen.rootList = guides ++ heads ∧ (∀ g ∈ guides, frozen.isGuide g = true) ∧
      ∀ r ∈ heads, ∃ part ∈ sectionsOf config loaded,
        Heads inflect part frozen frozen.childrenOf r := by
  obtain ⟨heads, hroots, hheads⟩ := exists_arranges hfrozen h
  refine ⟨_, heads, hroots, fun g hg => ?_, fun r hr => ?_⟩
  · obtain ⟨hroot, hguide⟩ := List.mem_filter.1 hg
    have hlt := (planned_tidy h).within.roots g hroot
    rw [isGuide, satisfies, decl?_frozen_eq hfrozen,
      (arranged_enlarged config inflect loaded).decl? hlt]
    exact hguide
  · obtain ⟨part, hpart, hhead⟩ := exists_of_forall₂ hheads hr
    refine ⟨part, hpart, hhead.heads fun category hcategory => ?_⟩
    rw [(mem_moduleSections hpart).2] at hcategory
    exact (of_mem_categoriesOf hcategory).2

/-- **Every node behind the records is a group of a section.** -/
theorem exists_group (hle : loaded.forest.size ≤ i) (hlt : i < frozen.size) :
    ∃ part ∈ sectionsOf config loaded, ∃ decl ∈ part.groups inflect, frozen.decl? i = some decl := by
  rw [← size_consolidated config] at hle
  rw [size_frozen hfrozen] at hlt
  obtain ⟨part, hpart, decl, hdecl, heq⟩ := exists_group_foldl inflect _ _ _ hle hlt
  exact ⟨part, hpart, decl, hdecl, (decl?_frozen_eq hfrozen i).trans heq⟩

/-- **Every node behind the records lists something.** -/
theorem childrenOf_ne_nil_of_le (h : (completed config loaded).Prepared) (hle : loaded.forest.size ≤ i)
    (hlt : i < frozen.size) : frozen.childrenOf i ≠ [] := by
  rw [← size_consolidated config] at hle
  rw [size_frozen hfrozen] at hlt
  have hgrown := arranged_grown h inflect
  have hreachable : i ∈ (arranged config inflect loaded).2.reachable :=
    (Layout.mem_reachable_iff hgrown.tidy.onePlace).2 ((hgrown.below_iff i).2 (.inr ⟨hle, hlt⟩))
  rw [hfrozen.childrenOf, if_pos hreachable]
  refine childrenOf_foldl_ne_nil inflect _ _ _ (planned_tidy h).within.keys (fun part hpart => ?_) hle hlt
  refine ⟨by simpa using (List.mem_filter.1 hpart).2, fun category hcategory => ?_⟩
  rw [(mem_moduleSections hpart).2] at hcategory
  exact (of_mem_categoriesOf hcategory).2

end Finished
end Forest
end DocForest
