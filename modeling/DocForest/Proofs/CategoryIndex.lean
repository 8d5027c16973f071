import DocForest.Pages.Location
import DocForest.Proofs.CategoryFiles
import DocForest.Proofs.TopLevel

/-!
# Categories in the index

The index lists categories by their plural labels, and every module has groups for some of them.  The labels
of the index are made different after the pluralizer has been applied, the categories of a module before, so
that the two could disagree.  They do not if the pluralizer tells labels apart: every label then belongs to one
name and one address, and **the groups of a module are those entries of the index that it has something for.**

## What is here

* `Kind.addressOf` — the name in addresses that all kinds with one label have.
* `TellsApart` — a pluralizer that gives different labels different plurals, and none an empty one;
  `tellsApart_pluralize`, that the plurals of English are such.
* `categoryIndex_eq` — the index of such a pluralizer; `nodup_labels_categoryIndex`, that of any one.
* `Forest.entryOf` — what a node shows in the index.
* `Forest.build_categories_indexed` — **the groups below a root are part of the index, in its order.**
-/

set_option autoImplicit false

namespace DocForest

open Pages

variable {inflect : String → String} {name : String} {kind : Kind}

/-! ## Labels and addresses -/

theorem eraseDups_map_of_injective_on {α β : Type} [BEq α] [LawfulBEq α] [BEq β] [LawfulBEq β] {f : α → β}
    (items : List α) (h : ∀ a ∈ items, ∀ b ∈ items, f a = f b → a = b) :
    (items.map f).eraseDups = items.eraseDups.map f := by
  match items with
  | [] => rfl
  | a :: rest =>
    have hfilter : ((rest.map f).filter fun b => !b == f a) = (rest.filter fun b => !b == a).map f := by
      rw [List.filter_map]
      refine congrArg (List.map f) (List.filter_congr fun b hb => ?_)
      have hiff : (f b == f a) = (b == a) := by
        rw [Bool.eq_iff_iff, beq_iff_eq, beq_iff_eq]
        exact ⟨h b (List.mem_cons_of_mem _ hb) a List.mem_cons_self, congrArg f⟩
      rw [Function.comp_apply, hiff]
    rw [List.map_cons, List.eraseDups_cons, List.eraseDups_cons, hfilter, List.map_cons]
    refine congrArg (f a :: ·) (eraseDups_map_of_injective_on _ fun b hb c hc => ?_)
    exact h b (List.mem_cons_of_mem _ (List.mem_filter.1 hb).1) c
      (List.mem_cons_of_mem _ (List.mem_filter.1 hc).1)
termination_by items.length
decreasing_by exact Nat.lt_succ_of_le (List.length_filter_le _ _)

namespace Kind

/-- The name in addresses of the first kind with a label. -/
def addressOf (label : String) : String :=
  ((documentable.find? fun kind => kind.label = some label).bind addressName).getD ""

theorem addressName_table : ∀ kind ∈ documentable,
    kind.label.any (fun label => !label.isEmpty && kind.addressName = some (addressOf label)) &&
      kind.addressName.any fun address => !address.isEmpty := by
  decide +kernel

/-- **All kinds with one label have one address.** -/
theorem addressName_of_label (h : kind.label = some name) : kind.addressName = some (addressOf name) := by
  have htable := addressName_table kind (mem_documentable (Option.isSome_of_eq_some h))
  simp only [h, Option.any_some, Bool.and_eq_true, decide_eq_true_eq] at htable
  exact htable.1.2

theorem ne_empty_of_label (h : kind.label = some name) : name ≠ "" ∧ addressOf name ≠ "" := by
  have htable := addressName_table kind (mem_documentable (Option.isSome_of_eq_some h))
  simp only [h, addressName_of_label h, Option.any_some, Bool.and_eq_true, Bool.not_eq_true',
    decide_eq_true_eq, String.isEmpty_eq_false_iff] at htable
  exact ⟨htable.1.1, htable.2⟩

theorem pluralOf_some {text : String} (h : text ≠ "") : pluralOf inflect (some text) = some (inflect text) := by
  have hfull : (!text.isEmpty) = true := by simpa using h
  rw [pluralOf, Option.filter_some, if_pos hfull, Option.map_some]

theorem pluralLabel_of_label (h : kind.label = some name) :
    kind.pluralLabel inflect = some (inflect name) := by
  rw [pluralLabel, h, pluralOf_some (ne_empty_of_label h).1]

theorem pluralAddress_of_label (h : kind.label = some name) :
    kind.pluralAddress inflect = some (inflect (addressOf name)) := by
  rw [pluralAddress, addressName_of_label h, pluralOf_some (ne_empty_of_label h).2]

end Kind

/-- A pluralizer that gives different labels different plurals, and none an empty one. -/
structure TellsApart (inflect : String → String) : Prop where
  injective : ∀ (kind other : Kind) (name name' : String), kind.label = some name →
    other.label = some name' → inflect name = inflect name' → name = name'
  nonempty : ∀ (kind : Kind) (name : String), kind.label = some name → inflect name ≠ ""

theorem nodup_pluralChars : (Forest.indexedNames.map fun name => Text.pluralChars name.toList).Nodup := by
  decide +kernel

/-- **The plurals of English tell labels apart.** -/
theorem tellsApart_pluralize : TellsApart Text.pluralize where
  injective kind other name name' hkind hother heq := by
    have hchars := congrArg String.toList heq
    rw [Text.toList_pluralize, Text.toList_pluralize] at hchars
    exact List.inj_on_of_nodup_map nodup_pluralChars (Forest.mem_indexedNames hkind)
      (Forest.mem_indexedNames hother) hchars
  nonempty _ _ hkind := Text.pluralize_ne_empty (Kind.ne_empty_of_label hkind).1

/-! ## The index -/

/-- What the index would list if labels could occur twice. -/
def indexEntries (inflect : String → String) : List (String × String) :=
  (Kind.documentable.filterMap Kind.label).map fun name => (inflect name, inflect (Kind.addressOf name))

theorem filterMap_documentable (inflect : String → String) :
    (Kind.documentable.filterMap fun kind => do
      let label ← kind.pluralLabel inflect
      let address ← kind.pluralAddress inflect
      return (label, address)) = indexEntries inflect := by
  rw [indexEntries, List.map_filterMap]
  refine List.filterMap_congr fun kind _ => ?_
  cases hlabel : kind.label with
  | none =>
    rw [Kind.pluralLabel, hlabel]
    rfl
  | some name =>
    rw [Kind.pluralLabel_of_label hlabel, Kind.pluralAddress_of_label hlabel]
    rfl

theorem categoryIndex_eq_entries (inflect : String → String) :
    categoryIndex inflect = ((indexEntries inflect).map (·.1)).eraseDups.filterMap fun label =>
      (indexEntries inflect).find? fun entry => entry.1 = label := by
  rw [categoryIndex, filterMap_documentable]

theorem exists_find?_label {entries : List (String × String)} {label : String}
    (h : label ∈ entries.map (·.1)) : ∃ address, (label, address) ∈ entries ∧
      (entries.find? fun entry => entry.1 = label) = some (label, address) := by
  obtain ⟨entry, hentry, rfl⟩ := List.mem_map.1 h
  cases hfind : entries.find? fun other => other.1 = entry.1 with
  | none => exact absurd (decide_eq_true rfl) (List.find?_eq_none.1 hfind entry hentry)
  | some other =>
    have hlabel : other.1 = entry.1 := by simpa using List.find?_some hfind
    exact ⟨other.2, hlabel ▸ List.mem_of_find?_eq_some hfind, hlabel ▸ rfl⟩

/-- **No label is in the index twice**, whatever the pluralizer. -/
theorem nodup_labels_categoryIndex (inflect : String → String) :
    ((categoryIndex inflect).map (·.1)).Nodup := by
  rw [categoryIndex_eq_entries, List.map_filterMap]
  have hlabels : (((indexEntries inflect).map (·.1)).eraseDups.filterMap fun label =>
      ((indexEntries inflect).find? fun entry => entry.1 = label).map (·.1)) =
        ((indexEntries inflect).map (·.1)).eraseDups.filterMap some :=
    List.filterMap_congr fun label hlabel => by
      obtain ⟨address, -, hfind⟩ := exists_find?_label (List.mem_eraseDups.1 hlabel)
      rw [hfind, Option.map_some]
  rw [hlabels, List.filterMap_some]
  exact nodup_eraseDups _

theorem exists_kind_of_mem (h : name ∈ Kind.documentable.filterMap Kind.label) :
    ∃ kind : Kind, kind.label = some name :=
  (List.mem_filterMap.1 h).imp fun _ hkind => hkind.2

theorem TellsApart.eq_of_mem (h : TellsApart inflect) {name' : String}
    (hname : name ∈ Kind.documentable.filterMap Kind.label)
    (hname' : name' ∈ Kind.documentable.filterMap Kind.label) (heq : inflect name = inflect name') :
    name = name' := by
  obtain ⟨kind, hkind⟩ := exists_kind_of_mem hname
  obtain ⟨other, hother⟩ := exists_kind_of_mem hname'
  exact h.injective kind other name name' hkind hother heq

/-- **The index of a pluralizer that tells labels apart** has one entry for each label, with its address. -/
theorem categoryIndex_eq (h : TellsApart inflect) :
    categoryIndex inflect =
      Forest.indexedNames.map fun name => (inflect name, inflect (Kind.addressOf name)) := by
  have hlabels : ((indexEntries inflect).map (·.1)).eraseDups = Forest.indexedNames.map inflect := by
    rw [indexEntries, List.map_map, Forest.indexedNames,
      ← eraseDups_map_of_injective_on _ fun a ha b hb => h.eq_of_mem ha hb]
    rfl
  rw [categoryIndex_eq_entries, hlabels, List.filterMap_map, ← List.filterMap_eq_map]
  refine List.filterMap_congr fun name hindexed => ?_
  have hname := List.mem_eraseDups.1 hindexed
  have hlabel : inflect name ∈ (indexEntries inflect).map (·.1) := by
    rw [indexEntries, List.map_map]
    exact List.mem_map_of_mem hname
  obtain ⟨address, haddress, hfind⟩ := exists_find?_label hlabel
  obtain ⟨name', hname', heq⟩ := List.mem_map.1 haddress
  obtain ⟨hlabel, rfl⟩ := Prod.mk.inj heq
  rw [Function.comp_apply, Function.comp_apply, hfind, h.eq_of_mem hname' hname hlabel]

/-! ## The groups of a module -/

namespace Forest

variable {forest other : Forest} {part : ModuleSection} {items : List Nat} {r : Nat}

/-- What a node shows in an index: its name and its name in addresses. -/
def entryOf (forest : Forest) (i : Nat) : Json × Json :=
  (forest.nameOf i, ((forest.decl? i).map (·.addressName)).getD .null)

theorem entry_groupOf (part : ModuleSection) {category : Category} (h : TellsApart inflect)
    (hlabel : category.kind.label = some name) :
    ((part.groupOf inflect category).name, (part.groupOf inflect category).addressName) =
      (Json.str (inflect name), Json.str (inflect (Kind.addressOf name))) := by
  have hplural : nonEmpty? (inflect name) = some (inflect name) := by
    rw [nonEmpty?, if_neg]
    simpa using h.nonempty _ name hlabel
  refine Prod.ext ?_ ?_
  · rw [name_groupOf inflect part hlabel, hplural, Option.getD_some]
  · rw [ModuleSection.groupOf, Kind.pluralAddress_of_label hlabel]
    rfl

/-- The groups below a node over a section show the entries of its categories. -/
theorem Heads.entries (h : Heads inflect part forest forest.childrenOf r) (hinflect : TellsApart inflect)
    (hcategories : part.categories = other.categoriesOf items) :
    (forest.childrenOf r).map forest.entryOf =
      (other.categoryNames items).map fun name =>
        (Json.str (inflect name), Json.str (inflect (Kind.addressOf name))) := by
  have hnames := other.forall₂_categoriesOf items
  have hdecls := h.categories
  rw [← hcategories] at hnames
  rw [← List.forall₂_eq_eq_eq, List.forall₂_map_left_iff, List.forall₂_map_right_iff] at hdecls
  rw [← List.forall₂_eq_eq_eq, List.forall₂_map_left_iff, List.forall₂_map_right_iff]
  refine forall₂_trans hdecls hnames ?_
  rintro c category name hdecl ⟨hlabel, -, -⟩
  rw [← entry_groupOf part hinflect hlabel, entryOf, nameOf, hdecl]
  rfl

/-- **The groups below a node over a section are part of the index**, in its order. -/
theorem Heads.entries_sublist (h : Heads inflect part forest forest.childrenOf r)
    (hinflect : TellsApart inflect) (hcategories : part.categories = other.categoriesOf items) :
    ((forest.childrenOf r).map forest.entryOf).Sublist
      ((categoryIndex inflect).map fun entry => (Json.str entry.1, Json.str entry.2)) := by
  rw [h.entries hinflect hcategories, categoryIndex_eq hinflect, List.map_map]
  exact List.Sublist.map _ List.filter_sublist

/-- **The groups below a root over a module are part of the index, in its order**, for every pluralizer that
tells labels apart; and no label is in the index twice, for any pluralizer. -/
theorem build_categories_indexed :
    (∀ {config : Config} {inflect : String → String} {records : List Record} {forest : Forest},
      TellsApart inflect → (build config inflect records).outcome = .ok forest →
        ∀ r ∈ forest.rootList, forest.isGroup r = true →
          ((forest.childrenOf r).map forest.entryOf).Sublist
            ((categoryIndex inflect).map fun entry => (Json.str entry.1, Json.str entry.2))) ∧
      ∀ inflect : String → String, ((categoryIndex inflect).map (·.1)).Nodup := by
  refine ⟨fun {config inflect records forest} hinflect h r hr hgroup => ?_, nodup_labels_categoryIndex⟩
  obtain ⟨loaded, hbuilt⟩ := built_of_build h
  obtain ⟨guides, heads, hroots, hguide, hheads⟩ := exists_heads hbuilt.frozen hbuilt.prepared
  rw [hroots, List.mem_append] at hr
  rcases hr with hr | hr
  · rw [not_isGroup_of_isGuide (hguide r hr)] at hgroup
    cases hgroup
  · obtain ⟨part, hpart, hhead⟩ := hheads r hr
    exact hhead.entries_sublist hinflect (mem_moduleSections hpart).2

/-- The functions and structures of a module stand in the index, in this order. -/
theorem build_categories_indexed_modules : ∃ forest : Forest,
    (build { modules := ["Core", "UI"] } Text.pluralize moduleRecords).outcome = .ok forest ∧
      (forest.childrenOf 6).map forest.entryOf =
        [(.str "Functions", .str "Functions"), (.str "Structures", .str "Structs")] ∧
        ((forest.childrenOf 6).map forest.entryOf).Sublist
          ((categoryIndex Text.pluralize).map fun entry => (Json.str entry.1, Json.str entry.2)) := by
  obtain ⟨forest, hforest, hrun⟩ := Outcome.exists_ok_of_map
    (f := fun forest => (forest.rootList.contains 6, forest.isGroup 6, (forest.childrenOf 6).map forest.entryOf))
    (b := (true, true, [(.str "Functions", .str "Functions"), (.str "Structures", .str "Structs")]))
    (o := (build { modules := ["Core", "UI"] } Text.pluralize moduleRecords).outcome) (by decide +kernel)
  simp only [Prod.mk.injEq, List.contains_iff_mem] at hrun
  obtain ⟨hroot, hgroup, hentries⟩ := hrun
  exact ⟨forest, hforest, hentries,
    build_categories_indexed.1 tellsApart_pluralize hforest 6 hroot hgroup⟩

end Forest
end DocForest
