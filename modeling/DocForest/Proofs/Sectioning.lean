import DocForest.Build.Candidates
import DocForest.Build.Groups
import DocForest.Proofs.Gathering
import Mathlib.Data.List.Perm.Basic
import Mathlib.Data.Option.Basic

/-!
# What the sections list

The nodes to be grouped are told apart by module, and those of one module by category.  Only a node
without category is left out, and no candidate outside all containers is one, guides apart.  So
**the sections list every node once**.

## What is here

* `Forest.perm_items_categoriesOf` — the categories rearrange the nodes that have one.
* `Forest.map_key?_moduleNames` — the modules, each by one name.
* `Forest.perm_items_moduleSections` — the sections rearrange the nodes that have a category.
* `Forest.isSome_categoryLabel?` — which nodes these are.
-/

set_option autoImplicit false

namespace DocForest

/-- What a section lists. -/
def ModuleSection.items (part : ModuleSection) : List Nat :=
  part.categories.flatMap Category.items

theorem Kind.mem_documentable {kind : Kind} (h : kind.label.isSome = true) : kind ∈ documentable := by
  cases kind <;> first | decide | cases h

namespace Forest

variable {forest : Forest} {items : List Nat} {i : Nat}

/-! ## Categories -/

/-- The nodes with one label are listed in one category, if there are any. -/
theorem items_category (forest : Forest) (items : List Nat) (label : String) :
    ((((items.filter fun i => forest.categoryLabel? i = some label).head?.bind
        forest.categoryOf?).map fun kind => (⟨kind, items.filter fun i =>
          forest.categoryLabel? i = some label⟩ : Category)).elim [] Category.items) =
      items.filter fun i => forest.categoryLabel? i == some label := by
  have hsame : (fun i => decide (forest.categoryLabel? i = some label)) =
      fun i => forest.categoryLabel? i == some label :=
    funext fun i => (Bool.beq_eq_decide_eq _ _).symm
  rw [hsame]
  cases hlisted : items.filter fun i => forest.categoryLabel? i == some label with
  | nil => rfl
  | cons i rest =>
    have hlabel : forest.categoryLabel? i = some label := by
      have hi : i ∈ items.filter fun i => forest.categoryLabel? i == some label :=
        hlisted ▸ List.mem_cons_self
      exact eq_of_beq (List.mem_filter.1 hi).2
    obtain ⟨kind, hkind, -⟩ := Option.bind_eq_some_iff.1 hlabel
    rw [List.head?_cons, Option.bind_some, hkind]
    rfl

/-- **The categories list every node that has a label, once.** -/
theorem perm_items_categoriesOf (forest : Forest) (hitems : items.Nodup) :
    ((forest.categoriesOf items).flatMap Category.items).Perm
      (items.filter fun i => (forest.categoryLabel? i).isSome) := by
  have hparts : (forest.categoriesOf items).flatMap Category.items =
      ((stableSort (fun a b => decide (labelRank a ≤ labelRank b))
        (items.filterMap forest.categoryLabel?).eraseDups).map some).flatMap fun k =>
          items.filter fun i => forest.categoryLabel? i == k := by
    rw [categoriesOf, flatMap_filterMap, List.flatMap_map]
    exact List.flatMap_congr fun label _ => forest.items_category items label
  have hlabels := (stableSort_perm (fun a b => decide (labelRank a ≤ labelRank b))
    (items.filterMap forest.categoryLabel?).eraseDups).map some
  have hnodup := hlabels.nodup_iff.2
    ((nodup_eraseDups (items.filterMap forest.categoryLabel?)).map (Option.some_injective String))
  rw [hparts]
  refine (perm_parts hnodup hitems).trans (List.Perm.of_eq (List.filter_congr fun i hi => ?_))
  cases hlabel : forest.categoryLabel? i with
  | none => simp
  | some label =>
    simp [mem_stableSort]
    exact ⟨i, hi, hlabel⟩

/-! ## Modules -/

/-- **The modules have the keys of the configured names and of the modules of the nodes, each once.** -/
theorem map_key?_moduleNames (forest : Forest) (config : Config) (items : List Nat) :
    (forest.moduleNames config items).map Json.key? =
      ((config.modules.map Json.str ++ items.map forest.moduleOf).map Json.key?).eraseDups :=
  map_heads_gatherBy _ _

theorem mem_keys_moduleNames (config : Config) (hi : i ∈ items) :
    (forest.moduleOf i).key? ∈ (forest.moduleNames config items).map Json.key? := by
  rw [map_key?_moduleNames, List.mem_eraseDups]
  exact List.mem_map_of_mem (List.mem_append_right _ (List.mem_map_of_mem hi))

theorem flatMap_items_moduleSections (forest : Forest) (config : Config) (items : List Nat) :
    (forest.moduleSections config items).flatMap ModuleSection.items =
      (forest.moduleNames config items).flatMap fun name =>
        (forest.categoriesOf (forest.itemsOf items name)).flatMap Category.items := by
  rw [moduleSections]
  induction forest.moduleNames config items with
  | nil => rfl
  | cons name rest ih =>
    rw [List.map_cons, List.filter_cons, List.flatMap_cons, ← ih]
    cases hcategories : forest.categoriesOf (forest.itemsOf items name) with
    | nil => rfl
    | cons category more => simp [ModuleSection.items]

/-- **The sections list every node that has a category, once.** -/
theorem perm_items_moduleSections (forest : Forest) (config : Config) (hitems : items.Nodup) :
    ((forest.moduleSections config items).flatMap ModuleSection.items).Perm
      (items.filter fun i => (forest.categoryLabel? i).isSome) := by
  rw [flatMap_items_moduleSections]
  have hmodules : ∀ name, ((forest.categoriesOf (forest.itemsOf items name)).flatMap
      Category.items).Perm ((items.filter fun i => (forest.categoryLabel? i).isSome).filter
        fun i => (forest.moduleOf i).key? == name.key?) := by
    intro name
    refine (forest.perm_items_categoriesOf (hitems.filter _)).trans (List.Perm.of_eq ?_)
    rw [List.filter_filter, List.filter_filter]
    refine List.filter_congr fun i _ => ?_
    rw [Bool.and_comm, Bool.beq_eq_decide_eq]
  refine (List.Perm.flatMap_left _ fun name _ => hmodules name).trans ?_
  rw [← List.flatMap_map (f := Json.key?) (g := fun k =>
    (items.filter fun i => (forest.categoryLabel? i).isSome).filter
      fun i => (forest.moduleOf i).key? == k), map_key?_moduleNames]
  refine (perm_parts (nodup_eraseDups _) (hitems.filter _)).trans (List.Perm.of_eq ?_)
  refine List.filter_eq_self.2 fun i hi => List.contains_iff_mem.2 ?_
  rw [← map_key?_moduleNames]
  exact mem_keys_moduleNames config (List.mem_filter.1 hi).1

/-! ## What has a category -/

/-- **A candidate has a category, unless it is a mark or a guide.** -/
theorem isSome_categoryLabel? (hi : forest.isCandidate i = true) (hmark : forest.isMark i = false)
    (hguide : forest.isGuide i = false) : (forest.categoryLabel? i).isSome = true := by
  cases hdecl : forest.decl? i with
  | none => simp [isCandidate, satisfies, hdecl] at hi
  | some decl =>
    have hmark : decl.kind.isMark = false := by simpa [isMark, satisfies, hdecl] using hmark
    have hguide : decl.kind.isMarkdown = false := by simpa [isGuide, satisfies, hdecl] using hguide
    have hdocumented : decl.kind.isDocumented = true := by
      simpa [isCandidate, satisfies, hdecl, Declaration.isCandidate, hmark, hguide] using hi
    have hlabel : decl.kind.label.isSome = true := by
      simp only [Kind.isDocumented, Bool.and_eq_true] at hdocumented
      exact hdocumented.1.1.1
    simp only [categoryLabel?, categoryOf?, hdecl, hlabel]
    split
    · rfl
    · exact hlabel

end Forest
end DocForest
