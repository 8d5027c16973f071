import DocForest.Proofs.Headings
import Mathlib.Data.List.Sort

/-!
# How the roots are grouped

What stands outside all containers is told apart by module, and then by category.  The modules come in the
order in which they are configured or first met, the categories in that of the index of categories.  Both
orders are given here without the build: **the first occurrences in a list, as far as something belongs to
them.**

## What is here

* `Forest.topGuides`, `Forest.topItems` — what stands outside all containers, in input order.
* `Forest.moduleKeys`, `Forest.categoryNames` — the modules that own some nodes, and the categories that
  these belong to, in order.
* `Forest.forall₂_categoriesOf`, `Forest.map_key?_moduleSections` — these are the categories and modules of
  the sections.
* `Forest.GroupsModule`, `Forest.GroupsCategory` — a node over a module, and one over a category.
* `Forest.build_groups_top_level` — **the roots of every documentation that is built.**
-/

set_option autoImplicit false

namespace DocForest
namespace Forest

variable {config : Config} {inflect : String → String} {records : List Record} {loaded : Loaded}
  {forest other frozen : Forest} {items kept : List Nat} {i r : Nat} {name : String} {part : ModuleSection}

/-! ## What is grouped -/

/-- The kept guides in no container, in input order. -/
def topGuides (forest : Forest) (kept : List Nat) : List Nat :=
  (List.range forest.size).filter fun i =>
    kept.contains i && (forest.codeParent? i).isNone && forest.isGuide i

/-- The kept nodes in no container that are no guides and have not been merged, in input order. -/
def topItems (forest : Forest) (kept : List Nat) : List Nat :=
  (List.range forest.size).filter fun i =>
    kept.contains i && (forest.codeParent? i).isNone && !forest.isGuide i && !forest.isMerged i

theorem mem_topGuides :
    i ∈ forest.topGuides kept ↔
      i < forest.size ∧ i ∈ kept ∧ forest.codeParent? i = none ∧ forest.isGuide i = true := by
  simp [topGuides, and_assoc]

theorem mem_topItems :
    i ∈ forest.topItems kept ↔
      i < forest.size ∧ i ∈ kept ∧ forest.codeParent? i = none ∧ forest.isGuide i = false ∧
        forest.isMerged i = false := by
  simp [topItems, and_assoc]

/-- The name of the category of a node: all extensions have one category, the other nodes that of their
kind. -/
def categoryName? (forest : Forest) (i : Nat) : Option String :=
  if forest.isExtension i then some "Extension" else (forest.kindOf i).label

/-- The names of all categories, each where the index of categories first has it. -/
def indexedNames : List String :=
  (Kind.documentable.filterMap Kind.label).eraseDups

/-- The names of the categories that some nodes belong to, in the order of the index of categories. -/
def categoryNames (forest : Forest) (items : List Nat) : List String :=
  indexedNames.filter fun name => items.any fun i => forest.categoryName? i = some name

/-- The modules that own some of the nodes: configured ones first, then the others, each where it is first
met. -/
def moduleKeys (forest : Forest) (config : Config) (items : List Nat) : List (Option Json.Key) :=
  ((config.modules.map Json.str ++ items.map forest.moduleOf).map Json.key?).eraseDups.filter fun key =>
    items.any fun i => (forest.moduleOf i).key? = key

/-! ## Categories -/

theorem categoryLabel?_eq (forest : Forest) (i : Nat) : forest.categoryLabel? i = forest.categoryName? i := by
  rw [categoryLabel?, categoryOf?, categoryName?, isExtension, satisfies, kindOf]
  cases forest.decl? i with
  | none => rfl
  | some decl =>
    simp only [Option.any_some, Option.elim_some]
    split
    · rfl
    · cases hlabel : decl.kind.label with
      | none => rfl
      | some label => exact hlabel

theorem mem_indexedNames {kind : Kind} (h : kind.label = some name) : name ∈ indexedNames := by
  rw [indexedNames, List.mem_eraseDups, List.mem_filterMap]
  exact ⟨kind, Kind.mem_documentable (Option.isSome_of_eq_some h), h⟩

theorem mem_indexedNames_of_categoryName? (h : forest.categoryName? i = some name) :
    name ∈ indexedNames := by
  rw [categoryName?] at h
  split at h
  · exact mem_indexedNames (h ▸ rfl : Kind.label .swiftExtension = some name)
  · exact mem_indexedNames h

theorem pairwise_indexedNames : indexedNames.Pairwise fun a b => labelRank a < labelRank b := by
  decide +kernel

theorem stableSort_names {names : List String} (hnodup : names.Nodup)
    (hnames : ∀ name ∈ names, name ∈ indexedNames) :
    stableSort (fun a b => decide (labelRank a ≤ labelRank b)) names =
      indexedNames.filter fun name => names.contains name := by
  -- both lists are ascending, and no two names in the index have one place, so that equal members suffice
  have hirrefl : Std.Irrefl fun a b : String => labelRank a < labelRank b :=
    ⟨fun _ => Nat.lt_irrefl _⟩
  have hantisymm : Std.Antisymm fun a b : String => labelRank a < labelRank b :=
    ⟨fun _ _ h h' => absurd h (Nat.lt_asymm h')⟩
  have hinjective : ∀ name ∈ indexedNames, ∀ name' ∈ indexedNames,
      labelRank name = labelRank name' → name = name' := fun name hname name' hname' =>
    List.inj_on_of_nodup_map (List.pairwise_map.2 (pairwise_indexedNames.imp Nat.ne_of_lt)) hname hname'
  have hle : (stableSort (fun a b => decide (labelRank a ≤ labelRank b)) names).Pairwise
      fun a b => decide (labelRank a ≤ labelRank b) = true :=
    pairwise_stableSort names
      (fun a b c hab hbc => decide_eq_true (Nat.le_trans (of_decide_eq_true hab) (of_decide_eq_true hbc)))
      fun a b => by simpa using Nat.le_total (labelRank a) (labelRank b)
  have hne := (stableSort_perm (fun a b => decide (labelRank a ≤ labelRank b)) names).nodup_iff.2 hnodup
  refine ((hle.and hne).imp_of_mem fun {a b} ha hb h => ?_).eq_of_mem_iff
    (pairwise_indexedNames.filter _) fun name => ?_
  · rw [mem_stableSort] at ha hb
    exact Nat.lt_of_le_of_ne (of_decide_eq_true h.1)
      fun heq => h.2 (hinjective a (hnames a ha) b (hnames b hb) heq)
  · rw [mem_stableSort, List.mem_filter, List.contains_iff_mem]
    exact ⟨fun hname => ⟨hnames name hname, hname⟩, fun h => h.2⟩

theorem mem_categoryNames :
    name ∈ forest.categoryNames items ↔ ∃ i ∈ items, forest.categoryName? i = some name := by
  rw [categoryNames, List.mem_filter, List.any_eq_true]
  simp only [decide_eq_true_eq]
  exact ⟨fun h => h.2, fun ⟨i, hi, hname⟩ => ⟨mem_indexedNames_of_categoryName? hname, i, hi, hname⟩⟩

/-- **The categories of some nodes are those that they belong to, in the order of the index.** -/
theorem forall₂_categoriesOf (forest : Forest) (items : List Nat) :
    List.Forall₂ (fun category name => category.kind.label = some name ∧
      category.items = items.filter (fun i => forest.categoryName? i = some name) ∧ category.items ≠ [])
      (forest.categoriesOf items) (forest.categoryNames items) := by
  have hnames : stableSort (fun a b => decide (labelRank a ≤ labelRank b))
      (items.filterMap forest.categoryLabel?).eraseDups = forest.categoryNames items := by
    rw [stableSort_names (nodup_eraseDups _) fun name hname => ?_, categoryNames]
    · refine List.filter_congr fun name _ => ?_
      rw [Bool.eq_iff_iff, List.contains_iff_mem, List.mem_eraseDups, List.mem_filterMap, List.any_eq_true]
      simp only [categoryLabel?_eq, decide_eq_true_eq]
    · obtain ⟨i, -, hlabel⟩ := List.mem_filterMap.1 (List.mem_eraseDups.1 hname)
      exact mem_indexedNames_of_categoryName? ((forest.categoryLabel?_eq i).symm.trans hlabel)
  rw [categoriesOf]
  dsimp only
  rw [hnames]
  refine forall₂_filterMap fun name hname => ?_
  obtain ⟨i, hi, hlabel⟩ := mem_categoryNames.1 hname
  rw [← categoryLabel?_eq] at hlabel
  have hlisted : i ∈ items.filter fun i => forest.categoryLabel? i = some name :=
    List.mem_filter.2 ⟨hi, decide_eq_true hlabel⟩
  obtain ⟨j, hj⟩ := Option.isSome_iff_exists.1 (List.isSome_head?.2 (List.ne_nil_of_mem hlisted))
  obtain ⟨kind, hkind, hname⟩ :=
    Option.bind_eq_some_iff.1 (of_decide_eq_true (List.mem_filter.1 (List.mem_of_mem_head? hj)).2)
  refine ⟨⟨kind, items.filter fun i => forest.categoryLabel? i = some name⟩, ?_, hname, ?_, ?_⟩
  · rw [hj, Option.bind_some, hkind, Option.map_some]
  · simp only [categoryLabel?_eq]
  · exact List.ne_nil_of_mem hlisted

theorem categoriesOf_eq_nil_iff (hnames : ∀ i ∈ items, (forest.categoryName? i).isSome = true) :
    forest.categoriesOf items = [] ↔ items = [] := by
  have hcategories := forest.forall₂_categoriesOf items
  constructor
  · intro hnil
    rw [hnil, List.forall₂_nil_left_iff] at hcategories
    rw [List.eq_nil_iff_forall_not_mem]
    intro i hi
    obtain ⟨name, hname⟩ := Option.isSome_iff_exists.1 (hnames i hi)
    have hmem := mem_categoryNames.2 ⟨i, hi, hname⟩
    rw [hcategories] at hmem
    exact List.not_mem_nil hmem
  · rintro rfl
    rfl

/-! ## Modules -/

/-- **The sections are those of the modules that own something**, if every node belongs to a category. -/
theorem map_key?_moduleSections (config : Config)
    (hnames : ∀ i ∈ items, (forest.categoryName? i).isSome = true) :
    (forest.moduleSections config items).map (fun part => part.moduleName.key?) =
      forest.moduleKeys config items := by
  have hown : ∀ name ∈ forest.moduleNames config items,
      (!(forest.categoriesOf (forest.itemsOf items name)).isEmpty) =
        items.any fun i => (forest.moduleOf i).key? = name.key? := by
    intro name _
    have hown : ∀ i ∈ forest.itemsOf items name, (forest.categoryName? i).isSome = true :=
      fun i hi => hnames i (List.mem_filter.1 hi).1
    rw [Bool.eq_iff_iff, Bool.not_eq_true', List.isEmpty_eq_false_iff, ne_eq,
      categoriesOf_eq_nil_iff hown, itemsOf, List.filter_eq_nil_iff, List.any_eq_true]
    simp
  rw [moduleSections, List.filter_map, List.map_map, moduleKeys, ← map_key?_moduleNames, List.filter_map]
  exact congrArg (List.map Json.key?) (List.filter_congr hown)

theorem eq_empty_of_not_truthy {value : Json}
    (hname : value ∈ config.modules.map Json.str ++ items.map forest.moduleOf)
    (hvalue : value.truthy = false) : value = .str "" := by
  rcases List.mem_append.1 hname with hname | hname
  · obtain ⟨text, -, rfl⟩ := List.mem_map.1 hname
    rw [Json.truthy, Bool.not_eq_false', String.isEmpty_iff] at hvalue
    rw [hvalue]
  · obtain ⟨i, -, rfl⟩ := List.mem_map.1 hname
    rw [moduleOf] at hvalue ⊢
    split
    · next h =>
      rw [if_pos h] at hvalue
      exact absurd (h.symm.trans hvalue) (by decide)
    · rfl

theorem Arranges.moduleOf {children : Nat → List Nat} (h : Arranges inflect part forest children r)
    (hname : part.moduleName ∈ config.modules.map Json.str ++ items.map other.moduleOf) :
    forest.moduleOf r = part.moduleName := by
  have hmodule : forest.docModuleOf r = part.moduleName.given := by
    rw [docModuleOf, h.root]
    rfl
  rw [Forest.moduleOf, hmodule, Json.given]
  cases htruthy : part.moduleName.truthy with
  | true => simp [htruthy]
  | false => simp [Json.truthy, eq_empty_of_not_truthy hname htruthy]

/-! ## What the finished forest has outside all containers -/

section Congr

variable (h : ∀ i ∈ items, other.decl? i = forest.decl? i)

include h

theorem moduleOf_congr (hi : i ∈ items) : other.moduleOf i = forest.moduleOf i := by
  rw [moduleOf, moduleOf, docModuleOf, docModuleOf, h i hi]

theorem categoryOf?_congr (hi : i ∈ items) : other.categoryOf? i = forest.categoryOf? i := by
  rw [categoryOf?, categoryOf?, h i hi]

theorem categoriesOf_congr : other.categoriesOf items = forest.categoriesOf items := by
  have hlabel : ∀ i ∈ items, other.categoryLabel? i = forest.categoryLabel? i := fun i hi => by
    rw [categoryLabel?, categoryLabel?, categoryOf?_congr h hi]
  rw [categoriesOf, categoriesOf, List.filterMap_congr hlabel]
  refine List.filterMap_congr fun label _ => ?_
  have hlisted : (items.filter fun i => other.categoryLabel? i = some label) =
      items.filter fun i => forest.categoryLabel? i = some label :=
    List.filter_congr fun i hi => by rw [hlabel i hi]
  dsimp only
  rw [hlisted]
  cases hhead : (items.filter fun i => forest.categoryLabel? i = some label).head? with
  | none => rfl
  | some i =>
    have hi := (List.mem_filter.1 (List.mem_of_mem_head? hhead)).1
    rw [Option.bind_some, Option.bind_some, categoryOf?_congr h hi]

theorem moduleSections_congr (config : Config) :
    other.moduleSections config items = forest.moduleSections config items := by
  have hmodules : items.map other.moduleOf = items.map forest.moduleOf :=
    List.map_congr_left fun i hi => moduleOf_congr h hi
  have hitems : ∀ name, other.itemsOf items name = forest.itemsOf items name := fun name =>
    List.filter_congr fun i hi => by rw [moduleOf_congr h hi]
  have hcategories : ∀ name, other.categoriesOf (forest.itemsOf items name) =
      forest.categoriesOf (forest.itemsOf items name) := fun name =>
    categoriesOf_congr fun i hi => h i (List.mem_filter.1 hi).1
  simp only [moduleSections, moduleNames, hmodules, hitems, hcategories]

end Congr

section Finished

variable (hfrozen : Frozen (arranged config inflect loaded).2 (arranged config inflect loaded).1 frozen)
  (h : (completed config loaded).Prepared)

include hfrozen

theorem decl?_frozen_of_reachable (hi : i ∈ (filtered config loaded).reachable) :
    frozen.decl? i = (consolidated config loaded).decl? i := by
  have hlt := (visible_followsCode _ _).lt_size hi
  rw [size_completed] at hlt
  rw [decl?_frozen hfrozen hlt, decl?_consolidated]

include h

theorem mem_roots_planned :
    i ∈ (planned config loaded).roots ↔ i < frozen.size ∧ i ∈ (filtered config loaded).reachable ∧
      frozen.codeParent? i = none ∧ frozen.isMerged i = false := by
  rw [planned, (consolidated_consolidated h).mem_roots_plan, owner?_eq_none, isMerged_eq_false,
    codeParent?_frozen hfrozen, codeParent?_consolidated, mergedInto?_frozen hfrozen]
  constructor
  · rintro ⟨⟨hreachable, hunmerged⟩, hparent⟩
    have hlt := (visible_followsCode _ _).lt_size hreachable
    exact ⟨Nat.lt_of_lt_of_le hlt (size_le_frozen hfrozen), hreachable, hparent, hunmerged⟩
  · rintro ⟨-, hreachable, hparent, hunmerged⟩
    exact ⟨⟨hreachable, hunmerged⟩, hparent⟩

omit hfrozen h in
theorem pairwise_roots_planned (config : Config) (loaded : Loaded) :
    (planned config loaded).roots.Pairwise (· < ·) :=
  ((((List.pairwise_lt_range.filter _).filter _).sublist (Filter.keptOf_sublist _ _ _ _)).filter _ :)

/-- **The guides among the planned roots are all kept ones in no container.** -/
theorem guideRoots_planned :
    (consolidated config loaded).guideRoots (planned config loaded) =
      frozen.topGuides (filtered config loaded).reachable := by
  refine ((pairwise_roots_planned config loaded).filter _).eq_of_mem_iff
    (List.pairwise_lt_range.filter _) fun i => ?_
  rw [List.mem_filter, mem_roots_planned hfrozen h]
  refine Iff.trans ?_ mem_topGuides.symm
  constructor
  · rintro ⟨⟨hlt, hreachable, hparent, -⟩, hguide⟩
    refine ⟨hlt, hreachable, hparent, ?_⟩
    rwa [isGuide, satisfies, decl?_frozen_of_reachable hfrozen hreachable]
  · rintro ⟨hlt, hreachable, hparent, hguide⟩
    rw [isGuide, satisfies, decl?_frozen_of_reachable hfrozen hreachable] at hguide
    refine ⟨⟨hlt, hreachable, hparent, ?_⟩, hguide⟩
    rw [decl?_consolidated] at hguide
    rw [isMerged_eq_false, mergedInto?_frozen hfrozen]
    exact mergedInto?_of_isGuide h.mergedInto hguide

/-- **The other planned roots are all kept nodes in no container that are not merged.** -/
theorem itemRoots_planned :
    (consolidated config loaded).itemRoots (planned config loaded) =
      frozen.topItems (filtered config loaded).reachable := by
  refine ((pairwise_roots_planned config loaded).filter _).eq_of_mem_iff
    (List.pairwise_lt_range.filter _) fun i => ?_
  rw [List.mem_filter, mem_roots_planned hfrozen h, Bool.not_eq_true']
  refine Iff.trans ?_ mem_topItems.symm
  have hguide : i ∈ (filtered config loaded).reachable →
      frozen.isGuide i = (consolidated config loaded).isGuide i := fun hreachable => by
    rw [isGuide, satisfies, decl?_frozen_of_reachable hfrozen hreachable, isGuide, satisfies]
  constructor
  · rintro ⟨⟨hlt, hreachable, hparent, hunmerged⟩, hitem⟩
    exact ⟨hlt, hreachable, hparent, (hguide hreachable).trans hitem, hunmerged⟩
  · rintro ⟨hlt, hreachable, hparent, hitem, hunmerged⟩
    exact ⟨⟨hlt, hreachable, hparent, hunmerged⟩, (hguide hreachable).symm.trans hitem⟩

end Finished

/-! ## The groups -/

/-- A node over those of some nodes that belong to a category, and over nothing else. -/
structure GroupsCategory (forest : Forest) (inflect : String → String) (items : List Nat) (c : Nat)
    (name : String) : Prop where
  group : forest.isGroup c = true
  title : forest.nameOf c = .str ((nonEmpty? (inflect name)).getD name)
  childrenOf : forest.childrenOf c =
    forest.inOrder (items.filter fun i => forest.categoryName? i = some name)
  nonempty : forest.childrenOf c ≠ []

/-- A node over a module, with one node for each of the categories that its declarations belong to. -/
structure GroupsModule (forest : Forest) (inflect : String → String) (items : List Nat) (r : Nat) :
    Prop where
  group : forest.isGroup r = true
  title : forest.nameOf r =
    if (forest.moduleOf r).truthy then forest.moduleOf r else .str defaultRootName
  categories : List.Forall₂ (forest.GroupsCategory inflect (forest.itemsOf items (forest.moduleOf r)))
    (forest.childrenOf r) (forest.categoryNames (forest.itemsOf items (forest.moduleOf r)))

/-- The roots are the guides in no container and, behind them, `heads`, which group all other nodes in no
container. -/
structure GroupsTopLevel (forest : Forest) (config : Config) (inflect : String → String)
    (kept heads : List Nat) : Prop where
  rootList : forest.rootList = forest.topGuides kept ++ heads
  modules : heads.map (fun r => (forest.moduleOf r).key?) =
    forest.moduleKeys config (forest.topItems kept)
  head : ∀ r ∈ heads, forest.GroupsModule inflect (forest.topItems kept) r
  /-- Everything is in one category, that of its own name under its own module. -/
  item : ∀ i ∈ forest.topItems kept, ∃ r ∈ heads, ∃ c ∈ forest.childrenOf r, ∃ name,
    (forest.moduleOf r).key? = (forest.moduleOf i).key? ∧ forest.categoryName? i = some name ∧
      forest.GroupsCategory inflect (forest.itemsOf (forest.topItems kept) (forest.moduleOf r)) c name ∧
        ∀ p, i ∈ forest.childrenOf p ↔ p = c

theorem name_groupOf (inflect : String → String) (part : ModuleSection) {category : Category}
    (h : category.kind.label = some name) :
    (part.groupOf inflect category).name = .str ((nonEmpty? (inflect name)).getD name) := by
  have hname : name ≠ "" := by
    rintro rfl
    exact absurd (mem_indexedNames h) (by decide +kernel)
  have hplural : category.kind.pluralLabel inflect = some (inflect name) := by
    have hempty : name.isEmpty = false := by simpa using hname
    rw [Kind.pluralLabel, h, Kind.pluralOf, Option.filter, hempty]
    rfl
  rw [ModuleSection.groupOf, hplural, h, Option.bind_some, Option.getD_some]
  rfl

/-- **A node over a section is one over a module**, if the section is that of the module. -/
theorem Arranges.groupsModule (h : Arranges inflect part forest forest.childrenOf r)
    (hmodule : forest.moduleOf r = part.moduleName)
    (hcategories : part.categories = forest.categoriesOf (forest.itemsOf items part.moduleName)) :
    forest.GroupsModule inflect items r where
  group := by
    rw [isGroup, satisfies, h.root]
    rfl
  title := by
    rw [hmodule, nameOf, h.root]
    rfl
  categories := by
    have hlists := h.categories
    rw [hcategories, ← hmodule] at hlists
    refine forall₂_trans hlists (forest.forall₂_categoriesOf _) ?_
    rintro c category name ⟨hdecl, hlist⟩ ⟨hlabel, hitems, hnonempty⟩
    refine ⟨?_, ?_, hlist.trans (congrArg _ hitems), ?_⟩
    · rw [isGroup, satisfies, hdecl]
      rfl
    · rw [nameOf, hdecl, Option.elim_some, name_groupOf inflect part hlabel]
    · rw [hlist]
      exact inOrder_ne_nil hnonempty

/-- Every declaration of the module that belongs to a category is listed there. -/
theorem GroupsModule.exists_category (h : forest.GroupsModule inflect items r)
    (hi : i ∈ forest.itemsOf items (forest.moduleOf r)) (hname : forest.categoryName? i = some name) :
    ∃ c ∈ forest.childrenOf r,
      forest.GroupsCategory inflect (forest.itemsOf items (forest.moduleOf r)) c name ∧
        i ∈ forest.childrenOf c := by
  obtain ⟨c, hc, hgroup⟩ := exists_of_forall₂ h.categories.flip (mem_categoryNames.2 ⟨i, hi, hname⟩)
  refine ⟨c, hc, hgroup, ?_⟩
  rw [hgroup.childrenOf, mem_inOrder, List.mem_filter]
  exact ⟨hi, decide_eq_true hname⟩

/-! ## All groups of the finished forest -/

section Finished

variable (hfrozen : Frozen (arranged config inflect loaded).2 (arranged config inflect loaded).1 frozen)
  (h : (completed config loaded).Prepared)

include hfrozen

theorem decl?_of_mem_topItems (hi : i ∈ frozen.topItems (filtered config loaded).reachable) :
    frozen.decl? i = (consolidated config loaded).decl? i :=
  decl?_frozen_of_reachable hfrozen (mem_topItems.1 hi).2.1

include h

theorem isSome_categoryName? (hi : i ∈ frozen.topItems (filtered config loaded).reachable) :
    (frozen.categoryName? i).isSome = true := by
  have hroot := hi
  rw [← itemRoots_planned hfrozen h, itemRoots, List.mem_filter, Bool.not_eq_true'] at hroot
  rw [← categoryLabel?_eq, categoryLabel?,
    categoryOf?_congr (fun i hi => decl?_of_mem_topItems hfrozen hi) hi]
  exact categoryLabel?_of_root h hroot.1 hroot.2

/-- **Behind the guides there is one root for every section**, and it groups the module of the section. -/
theorem exists_groupsModule : ∃ heads,
    frozen.rootList = frozen.topGuides (filtered config loaded).reachable ++ heads ∧
      List.Forall₂ (fun r (part : ModuleSection) => frozen.moduleOf r = part.moduleName ∧
        frozen.GroupsModule inflect (frozen.topItems (filtered config loaded).reachable) r) heads
        (frozen.moduleSections config (frozen.topItems (filtered config loaded).reachable)) := by
  obtain ⟨heads, hroots, hheads⟩ := exists_arranges hfrozen h
  rw [guideRoots_planned hfrozen h] at hroots
  rw [sectionsOf, itemRoots_planned hfrozen h,
    ← moduleSections_congr (fun i hi => decl?_of_mem_topItems hfrozen hi) config] at hheads
  refine ⟨heads, hroots, ?_⟩
  -- that a section is one of those listed is needed for its name
  refine (((List.forall₂_and_left _ _).2 ⟨fun part hpart => hpart, hheads.flip⟩).imp ?_).flip
  rintro part r ⟨hpart, hhead⟩
  obtain ⟨hname, hcategories⟩ := mem_moduleSections hpart
  have hmodule := hhead.moduleOf (mem_moduleNames hname)
  exact ⟨hmodule, hhead.groupsModule hmodule hcategories⟩

theorem groupsTopLevel_frozen :
    ∃ heads, frozen.GroupsTopLevel config inflect (filtered config loaded).reachable heads := by
  obtain ⟨heads, hroots, hheads⟩ := exists_groupsModule hfrozen h
  have hmodules : heads.map (fun r => (frozen.moduleOf r).key?) =
      frozen.moduleKeys config (frozen.topItems (filtered config loaded).reachable) := by
    rw [← map_key?_moduleSections config fun i hi => isSome_categoryName? hfrozen h hi,
      ← List.forall₂_eq_eq_eq, List.forall₂_map_left_iff, List.forall₂_map_right_iff]
    exact hheads.imp fun _ _ hhead => congrArg Json.key? hhead.1
  have hhead : ∀ r ∈ heads,
      frozen.GroupsModule inflect (frozen.topItems (filtered config loaded).reachable) r := by
    intro r hr
    obtain ⟨part, -, -, hgroups⟩ := exists_of_forall₂ hheads hr
    exact hgroups
  refine ⟨heads, hroots, hmodules, hhead, fun i hi => ?_⟩
  have hkey : (frozen.moduleOf i).key? ∈ heads.map fun r => (frozen.moduleOf r).key? := by
    rw [hmodules, moduleKeys, ← map_key?_moduleNames, List.mem_filter]
    exact ⟨mem_keys_moduleNames config hi, List.any_eq_true.2 ⟨i, hi, decide_eq_true rfl⟩⟩
  obtain ⟨r, hr, hkey⟩ := List.mem_map.1 hkey
  obtain ⟨name, hname⟩ := Option.isSome_iff_exists.1 (isSome_categoryName? hfrozen h hi)
  obtain ⟨c, hc, hgroup, hchild⟩ := (hhead r hr).exists_category
    (List.mem_filter.2 ⟨hi, decide_eq_true hkey.symm⟩) hname
  have hdocuments := documents_of_frozen hfrozen h
  have hparent := hdocuments.mem_childrenOf.1 hchild
  refine ⟨r, hr, c, hc, name, hkey, hname, hgroup, fun p => ?_⟩
  rw [hdocuments.mem_childrenOf, hparent, Option.some_inj, eq_comm]

end Finished

/-- **The roots are the guides and one group for every module that owns something, in order.**  Under it
stands one group for every category, and everything that is not in a container in exactly one of these. -/
theorem build_groups_top_level (h : (build config inflect records).outcome = .ok forest) :
    ∃ heads, forest.GroupsTopLevel config inflect (keptNodes config records) heads := by
  obtain ⟨loaded, hbuilt⟩ := built_of_build h
  rw [hbuilt.keptNodes_eq]
  exact groupsTopLevel_frozen hbuilt.frozen hbuilt.prepared

/-- A public Swift declaration of a module as a record. -/
def moduleRecord (kind name moduleName : String) : Record :=
  .obj [("kind", .str ("source.lang.swift.decl." ++ kind)), ("name", .str name),
    ("module_name", .str moduleName), ("accessibility", .str "source.lang.swift.accessibility.public")]

/-- Declarations of two modules, and a guide. -/
def moduleRecords : List Record :=
  [moduleRecord "class" "Button" "UI", moduleRecord "struct" "Store" "Core",
   moduleRecord "function.free" "load()" "Core",
   .obj [("kind", .str "document.markdown"), ("name", .str "Getting Started")]]

/-- The guide comes first, then the module that is configured first; functions stand in front of
structures. -/
theorem build_groups_top_level_modules : ∃ forest heads,
    (build { modules := ["Core", "UI"] } id moduleRecords).outcome = .ok forest ∧
      forest.rootList = [3, 6, 8] ∧ forest.childrenOf 6 = [4, 5] ∧ forest.childrenOf 4 = [2] ∧
        forest.GroupsTopLevel { modules := ["Core", "UI"] } id
          (keptNodes { modules := ["Core", "UI"] } moduleRecords) heads := by
  obtain ⟨forest, hforest, hrun⟩ := Outcome.exists_ok_of_map
    (f := fun forest => (forest.rootList, forest.childrenOf 6, forest.childrenOf 4))
    (b := ([3, 6, 8], [4, 5], [2]))
    (o := (build { modules := ["Core", "UI"] } id moduleRecords).outcome) (by decide +kernel)
  obtain ⟨heads, hheads⟩ := build_groups_top_level hforest
  simp only [Prod.mk.injEq] at hrun
  exact ⟨forest, heads, hforest, hrun.1, hrun.2.1, hrun.2.2, hheads⟩

end Forest
end DocForest
