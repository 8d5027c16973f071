import DocForest.Proofs.Headings
import DocForest.Proofs.Placing
import DocForest.Proofs.Typing

/-!
# Where every node is shown

A node is shown on a page of its own or on that of its parent.  Addresses are put together on the way down
from the roots: a scope holds the address of the parent and the directory of the siblings, and what stands
in front of all addresses is added to each of them at the end.  The two never drift apart.

A name or an identifier of which no text can be made leaves all nodes without a location.  So **every node
is located if what records give as texts are texts**, and the locations, if there are any, are those of a
chart of the documentation.

## What is here

* `Site.DirectoryOf` — the directory of the children of a page, as its address says it.
* `Site.Charts` — what is known of the locations of all nodes; `Site.charts_located`.
* `Record.Addressable`, `Declaration.Addressable` — names and identifiers are texts.
* `build_charts` — **every forest that is built is charted by its locations**.
-/

set_option autoImplicit false

namespace DocForest

open Forest

namespace Pages.Site

variable {site : Site} {scope inner : Scope} {used siblings' : List String} {siblings : List Nat}
  {placement above : Placement} {i p depth : Nat} {location : Location}

/-! ## Charts -/

/-- The directory of the files below a page: that of the page itself if it is the index page over a
module, and otherwise the one that has the name of the page. -/
def DirectoryOf (site : Site) (i : Nat) (address directory : String) : Prop :=
  if i ∈ site.forest.rootList ∧ site.forest.isGroup i = true then address = directory ++ "index.html"
  else ∃ stem, address = stem ++ ".html" ∧ directory = stem ++ "/"

/-- The locations are those of the nodes of the walk.  All roots, all nodes with children and all guides
are pages, and so are global declarations if they get pages of their own.  The file of a page lies in the
directory of its parent, and what is no page has an anchor on the page of its parent. -/
structure Charts (site : Site) (located : List (Nat × Location)) : Prop where
  mem_walk_iff : ∀ i, i ∈ site.forest.walk ↔ ∃ location, (i, location) ∈ located
  unique : ∀ i location location', (i, location) ∈ located → (i, location') ∈ located →
    location = location'
  isPage_iff : ∀ i location, (i, location) ∈ located → (location.isPage = true ↔
    i ∈ site.forest.rootList ∨ site.forest.childrenOf i ≠ [] ∨ site.forest.isGuide i = true ∨
      (site.config.separateGlobals = true ∧ (site.forest.kindOf i).isGlobal = true))
  onPage : ∀ i location, (i, location) ∈ located → location.isPage = false →
    ∃ p page decl, site.forest.docsParent? i = some p ∧ (p, page) ∈ located ∧ page.isPage = true ∧
      site.forest.decl? i = some decl ∧ location.address = page.address ++ "#" ++ anchor decl
  asPage : ∀ i location file, (i, location) ∈ located → location.file = some file →
    i ∉ site.forest.rootList → ∃ p page directory, site.forest.docsParent? i = some p ∧
      (p, page) ∈ located ∧ page.isPage = true ∧ site.DirectoryOf p page.address directory ∧
        location.address = directory ++ file ++ ".html"

/-- The scope below a page, whose address it holds. -/
structure Opens (site : Site) (above : Placement) (inner : Scope) : Prop where
  isPage : above.location.isPage = true
  address : ∃ address, inner.parent = some address ∧ above.location.address = site.rooted address
  directory : site.DirectoryOf above.index above.location.address (site.rooted inner.directory)

theorem Row.parent_eq_none_iff (h : Row site depth scope siblings) (hrooted : site.forest.Rooted)
    (hi : i ∈ siblings) : scope.parent = none ↔ i ∈ site.forest.rootList := by
  cases h with
  | roots => exact iff_of_true rfl hi
  | @children depth scope' inner siblings' above hrow habove hbelow =>
    exact iff_of_false (parent_ne_none_of_below habove hbelow)
      fun hroot => hrooted.onePlace.root_free hroot hi

theorem opens_of_row (hrooted : site.forest.Rooted) (hrow : Row site depth scope siblings)
    (habove : above ∈ site.placeAll scope [] siblings) (hbelow : above.below = some inner) :
    Opens site above inner := by
  have hroot := hrow.parent_eq_none_iff hrooted (index_of_mem_placeAll habove).1
  obtain ⟨used, next, hplaced⟩ := placedAs_of_mem_placeAll habove
  generalize hindex : above.index = j at hplaced hroot
  cases hplaced with
  | @overModule decl hdecl hparent hgroup =>
    obtain rfl := Option.some.inj hbelow
    refine ⟨rfl, ⟨_, rfl, rfl⟩, ?_⟩
    have hmodule : j ∈ site.forest.rootList ∧ site.forest.isGroup j = true := by
      refine ⟨hroot.1 hparent, ?_⟩
      rw [isGroup, satisfies, hdecl]
      exact hgroup
    rw [DirectoryOf, hindex, if_pos hmodule]
    dsimp only [placeModule]
    rw [String.append_assoc, rooted_append]
    rfl
  | @asPage decl hdecl hother =>
    obtain rfl := Option.some.inj hbelow
    refine ⟨rfl, ⟨_, rfl, rfl⟩, ?_⟩
    have hpage : ¬(j ∈ site.forest.rootList ∧ site.forest.isGroup j = true) := by
      rintro ⟨hj, hgroup⟩
      rw [isGroup, satisfies, hdecl] at hgroup
      rw [hroot.2 hj] at hother
      exact absurd hgroup (by simpa using hother)
    rw [DirectoryOf, hindex, if_neg hpage]
    exact ⟨_, rooted_append _ _ _, rooted_append _ _ _⟩
  | onPage => cases hbelow

/-- What gets a page instead of a place on its parent's. -/
theorem rendersAsPage_iff {forest : Forest} {config : Config} :
    forest.rendersAsPage config i = true ↔ forest.childrenOf i ≠ [] ∨
      (config.separateGlobals = true ∧ (forest.kindOf i).isGlobal = true) := by
  have hglobal : (forest.satisfies i fun decl => decl.kind.isGlobal) = (forest.kindOf i).isGlobal := by
    rw [satisfies, kindOf]
    cases forest.decl? i <;> rfl
  rw [rendersAsPage, hglobal, Bool.or_eq_true, Bool.and_eq_true, Bool.not_eq_true', List.isEmpty_eq_false_iff]

/-- **Which nodes are pages.** -/
theorem isPage_iff_of_row (hrooted : site.forest.Rooted) (hrow : Row site depth scope siblings)
    (h : placement ∈ site.placeAll scope [] siblings) : placement.location.isPage = true ↔
      placement.index ∈ site.forest.rootList ∨ site.forest.childrenOf placement.index ≠ [] ∨
        site.forest.isGuide placement.index = true ∨ (site.config.separateGlobals = true ∧
          (site.forest.kindOf placement.index).isGlobal = true) := by
  have hroot := hrow.parent_eq_none_iff hrooted (index_of_mem_placeAll h).1
  have hpages : site.isPage scope placement.index = true ↔
      placement.index ∈ site.forest.rootList ∨ site.forest.childrenOf placement.index ≠ [] ∨
        site.forest.isGuide placement.index = true ∨ (site.config.separateGlobals = true ∧
          (site.forest.kindOf placement.index).isGlobal = true) := by
    rw [isPage, Bool.or_eq_true, Bool.or_eq_true, rendersAsPage_iff, Option.isNone_iff_eq_none, hroot]
    tauto
  obtain ⟨used, next, hplaced⟩ := placedAs_of_mem_placeAll h
  rw [← hpages]
  clear hpages hroot
  generalize placement.index = j at hplaced
  cases hplaced with
  | overModule _ hparent => exact iff_of_true rfl (by simp [isPage, hparent])
  | asPage _ _ hpage => exact iff_of_true rfl hpage
  | onPage _ hpage => exact iff_of_false Bool.false_ne_true (by simp [hpage])

/-- The page above a node that is no root. -/
theorem exists_above (hrooted : site.forest.Rooted) (hrow : Row site depth scope siblings)
    (h : placement ∈ site.placeAll scope [] siblings)
    (hroot : placement.index ∉ site.forest.rootList) : ∃ above ∈ site.placements,
      site.forest.docsParent? placement.index = some above.index ∧ Opens site above scope := by
  have hi := (index_of_mem_placeAll h).1
  cases hrow with
  | roots => exact absurd hi hroot
  | @children depth scope' inner siblings' above hrow habove hbelow =>
    exact ⟨above, (mem_placements_iff hrooted).2 ⟨_, _, _, hrow, habove⟩,
      hrooted.mem_childrenOf_iff.1 hi, opens_of_row hrooted hrow habove hbelow⟩

/-- **The locations of all nodes are those of a chart.** -/
theorem charts_located (hrooted : site.forest.Rooted) : Charts site site.located where
  mem_walk_iff i := by
    rw [← map_index_placements hrooted, List.mem_map]
    simp only [mem_located_iff hrooted]
    exact ⟨fun ⟨placement, hmem, heq⟩ => ⟨_, placement, hmem, heq, rfl⟩,
      fun ⟨_, placement, hmem, heq, _⟩ => ⟨placement, hmem, heq⟩⟩
  unique i location location' h h' := by
    obtain ⟨placement, hmem, hindex, rfl⟩ := (mem_located_iff hrooted).1 h
    obtain ⟨other, hother, hindex', rfl⟩ := (mem_located_iff hrooted).1 h'
    rw [eq_of_index_eq hrooted hmem hother (hindex.trans hindex'.symm)]
  isPage_iff i location h := by
    obtain ⟨placement, hmem, rfl, rfl⟩ := (mem_located_iff hrooted).1 h
    obtain ⟨depth, scope, siblings, hrow, hplaced⟩ := (mem_placements_iff hrooted).1 hmem
    exact isPage_iff_of_row hrooted hrow hplaced
  onPage i location h hpage := by
    obtain ⟨placement, hmem, rfl, rfl⟩ := (mem_located_iff hrooted).1 h
    obtain ⟨depth, scope, siblings, hrow, hplaced⟩ := (mem_placements_iff hrooted).1 hmem
    have hroot : placement.index ∉ site.forest.rootList := fun hroot => by
      rw [(isPage_iff_of_row hrooted hrow hplaced).2 (.inl hroot)] at hpage
      cases hpage
    obtain ⟨above, habove, hparent, hopens⟩ := exists_above hrooted hrow hplaced hroot
    obtain ⟨address, hscope, haddress⟩ := hopens.address
    obtain ⟨used, next, hplacedAs⟩ := placedAs_of_mem_placeAll hplaced
    generalize hindex : placement.index = j at hplacedAs hparent
    cases hplacedAs with
    | overModule => cases hpage
    | asPage => cases hpage
    | @onPage decl hdecl =>
      refine ⟨above.index, above.location, decl, hparent,
        (mem_located_iff hrooted).2 ⟨above, habove, rfl, rfl⟩, hopens.isPage, hdecl, ?_⟩
      dsimp only [placeMember]
      rw [hscope, Option.getD_some, rooted_append, rooted_append, haddress]
  asPage i location file h hfile hroot := by
    obtain ⟨placement, hmem, rfl, rfl⟩ := (mem_located_iff hrooted).1 h
    obtain ⟨depth, scope, siblings, hrow, hplaced⟩ := (mem_placements_iff hrooted).1 hmem
    obtain ⟨above, habove, hparent, hopens⟩ := exists_above hrooted hrow hplaced hroot
    have hscope := hrow.parent_eq_none_iff hrooted (index_of_mem_placeAll hplaced).1
    refine ⟨above.index, above.location, site.rooted scope.directory, hparent,
      (mem_located_iff hrooted).2 ⟨above, habove, rfl, rfl⟩, hopens.isPage, hopens.directory, ?_⟩
    obtain ⟨used, next, hplacedAs⟩ := placedAs_of_mem_placeAll hplaced
    generalize placement.index = j at hplacedAs hroot hscope
    cases hplacedAs with
    | overModule _ hnone => exact absurd (hscope.1 hnone) hroot
    | asPage =>
      obtain rfl := Option.some.inj hfile
      dsimp only [placePage]
      rw [rooted_append, rooted_append]
    | onPage => cases hfile

end Pages.Site

/-! ## When every node is located -/

/-- The name is a text, and so are the identifier, the name in addresses and the modules, or they are
null. -/
structure Declaration.Addressable (decl : Declaration) : Prop where
  name : decl.name.isText = true
  usr : decl.usr.TextOrNull
  addressName : decl.addressName.TextOrNull
  moduleName : decl.moduleName.TextOrNull
  docModule : decl.docModule.TextOrNull

/-- What a record gives as identifier, as name in addresses and as modules are texts or null. -/
structure Record.Addressable (record : Record) : Prop where
  usr : (record.field "usr").TextOrNull
  addressName : (record.field "url_name").TextOrNull
  moduleName : (record.field "module_name").TextOrNull
  docModule : (record.field "doc_module_name").TextOrNull

theorem Record.Addressable.declaration {record : Record} {decl : Declaration}
    (h : Record.Addressable record) (hdecl : Declaration.ofRecord record = .ok decl) :
    decl.Addressable := by
  cases record with
  | obj fields =>
    simp only [Declaration.ofRecord, Declaration.ofFields, Outcome.bind_eq_ok,
      Outcome.pure_eq_ok] at hdecl
    obtain ⟨level, -, inherited, -, parameters, -, hint, -, rfl⟩ := hdecl
    exact ⟨rfl, h.usr, h.addressName, h.moduleName, h.docModule⟩
  | _ => cases hdecl

namespace Declaration.Addressable

variable {decl : Declaration}

theorem isText_fileTitle (h : decl.Addressable) : decl.fileTitle.isText = true := by
  rw [fileTitle]
  split
  · rfl
  · split
    · next htruthy => exact h.addressName.isText_of_truthy htruthy
    · exact h.name

theorem anchorFault?_eq_none (h : decl.Addressable) : Pages.anchorFault? decl = none := by
  rw [Pages.anchorFault?]
  split
  · next husr => rw [if_pos (h.usr.isText_of_truthy husr)]
  · rw [if_pos h.name]

end Declaration.Addressable

namespace Forest

variable {config : Config} {inflect : String → String} {records : List Record} {loaded : Loaded}
  {forest : Forest}

theorem fillsIn_addressable : FillsIn Declaration.Addressable where
  moduleName h := h.moduleName
  docModule h := h.docModule
  withDocModule h hmodule := ⟨h.name, h.usr, h.addressName, h.moduleName, hmodule⟩
  withMark _ h := ⟨h.name, h.usr, h.addressName, h.moduleName, h.docModule⟩
  withLevel _ h := ⟨h.name, h.usr, h.addressName, h.moduleName, h.docModule⟩

/-- The modules that sections are named after are texts, if those of all declarations are. -/
theorem textOrNull_of_mem_moduleSections (h : forest.All Declaration.Addressable) {items : List Nat}
    {part : ModuleSection} (hpart : part ∈ forest.moduleSections config items) :
    part.moduleName.TextOrNull := by
  rcases List.mem_append.1 (mem_moduleNames (mem_moduleSections hpart).1) with hname | hname
  · obtain ⟨name, -, hname⟩ := List.mem_map.1 hname
    exact .inr ⟨name, hname.symm⟩
  · obtain ⟨i, -, hname⟩ := List.mem_map.1 hname
    rw [← hname, moduleOf]
    split
    · exact fillsIn_addressable.docModuleOf h i
    · exact .inr ⟨_, rfl⟩

theorem addressable_of_mem_groups {part : ModuleSection} (h : part.moduleName.TextOrNull)
    {decl : Declaration} (hdecl : decl ∈ part.groups inflect) : decl.Addressable := by
  rcases List.mem_append.1 hdecl with hdecl | hdecl
  · obtain ⟨category, -, rfl⟩ := List.mem_map.1 hdecl
    refine ⟨rfl, .inl rfl, ?_, .inl rfl, h.given⟩
    change (((category.kind.pluralAddress inflect).map Json.str).getD .null).TextOrNull
    cases category.kind.pluralAddress inflect with
    | none => exact .inl rfl
    | some address => exact .inr ⟨address, rfl⟩
  · obtain rfl := List.mem_singleton.1 hdecl
    refine ⟨?_, .inl rfl, .inl rfl, .inl rfl, h.given⟩
    change (if part.moduleName.truthy then part.moduleName else .str defaultRootName).isText = true
    split
    · next htruthy => exact h.isText_of_truthy htruthy
    · rfl

/-- **All declarations of the documentation have names**, if those of the records have. -/
theorem Built.addressable (h : Built config inflect records loaded forest)
    (hrecords : ∀ record ∈ records, Record.Addressable record) :
    forest.All Declaration.Addressable := by
  have hcompleted := fillsIn_addressable.completed
    (h.loads.all fun record hrecord _ => (hrecords record hrecord).declaration) config
  have hconsolidated : (consolidated config loaded).All Declaration.Addressable := by
    intro i decl hdecl
    rw [decl?_consolidated] at hdecl
    exact hcompleted i decl hdecl
  intro i decl hdecl
  by_cases hi : i < loaded.forest.size
  · rw [decl?_frozen h.frozen hi] at hdecl
    exact hcompleted i decl hdecl
  · obtain ⟨part, hpart, group, hgroup, heq⟩ :=
      exists_group h.frozen (Nat.not_lt.1 hi) (lt_of_decl? hdecl)
    obtain rfl := Option.some.inj (hdecl.symm.trans heq)
    exact addressable_of_mem_groups (textOrNull_of_mem_moduleSections hconsolidated hpart) hgroup

theorem All.isText_nameOf (h : forest.All Declaration.Addressable) (i : Nat) :
    (forest.nameOf i).isText = true := by
  rw [nameOf]
  cases hdecl : forest.decl? i with
  | none => rfl
  | some decl => exact (h i decl hdecl).name

end Forest

namespace Pages.Site

variable {site : Site} {scope : Scope} {used next : List String} {placement : Placement} {i : Nat}

theorem fault_of_addressable (h : site.forest.All Declaration.Addressable)
    (hplaced : PlacedAs site scope used i placement next) : placement.fault = none := by
  cases hplaced with
  | overModule =>
    dsimp only [placeModule]
    split
    · rw [textFault?, if_pos (h.isText_nameOf i)]
    · rfl
  | asPage hdecl =>
    dsimp only [placePage]
    rw [textFault?, if_pos (h i _ hdecl).isText_fileTitle]
  | onPage hdecl => exact (h i _ hdecl).anchorFault?_eq_none

/-- **All nodes are located if their declarations have names.** -/
theorem locations_of_addressable (h : site.forest.All Declaration.Addressable)
    (hnested : site.forest.Nested) : site.locations.outcome = .ok site.located := by
  have hevents : site.placements.forM (fun placement =>
      (site.renameEvents placement).map fun _ => ()) = .ok () := by
    refine (Outcome.forM_eq_ok _ _).2 fun placement hplacement => ?_
    obtain ⟨depth, scope, siblings, -, hplaced⟩ := exists_row_of_mem_locate .roots hplacement
    obtain ⟨used, next, hplacedAs⟩ := placedAs_of_mem_placeAll hplaced
    have hname : ∃ name, site.forest.checkedName placement.index = .ok name := by
      rw [hnested.checkedName_eq (index_of_mem_placeAll hplaced).2, if_pos]
      · exact ⟨_, rfl⟩
      · exact List.all_eq_true.2 fun j _ => h.isText_nameOf j
    obtain ⟨name, hname⟩ := hname
    rw [renameEvents, fault_of_addressable h hplacedAs]
    cases placement.renamed with
    | none => rfl
    | some renamed =>
      dsimp only
      rw [hname]
      rfl
  rw [outcome_locations, hevents]
  rfl

end Pages.Site

namespace Forest

open Pages

variable {config : Config} {inflect : String → String} {records : List Record}

/-- **Every documentation that is built is charted by the locations of its nodes**, which are given as
long as what the records give as names and identifiers are texts. -/
theorem build_charts (site : Site) (h : (build config inflect records).outcome = .ok site.forest) :
    ((∀ record ∈ records, Record.Addressable record) →
        ∃ located, site.locations.outcome = .ok located) ∧
      ∀ located, site.locations.outcome = .ok located → site.Charts located := by
  obtain ⟨loaded, hbuilt⟩ := built_of_build h
  refine ⟨fun hrecords => ?_, fun located hlocated => ?_⟩
  · exact ⟨_, Site.locations_of_addressable (hbuilt.addressable hrecords)
      (documents_of_build h).toNested⟩
  · rw [Site.eq_located hlocated]
    exact Site.charts_located hbuilt.rooted

/-- A guide as a record, with its name in addresses. -/
def guideRecord (name : String) (addressName : Json) : Record :=
  .obj [("kind", .str "document.markdown"), ("name", .str name), ("url_name", addressName)]

/-- A guide, a structure with a method, and a function. -/
def chartedRecords : List Record :=
  [guideRecord "Read me" .null,
   swiftRecord "a" "struct" "A" "s:A" .null,
   swiftRecord "f" "function.method.instance" "f()" "s:A.f" (.str "a"),
   swiftRecord "g" "function.free" "g()" "s:g" .null]

/-- All of them are located, and all but the method are pages. -/
theorem build_charts_methods : ∃ (site : Site) (located : List (Nat × Location)),
    (build { modules := ["M"], separateGlobals := true, addressRoot := "docs" } Text.pluralize
        chartedRecords).outcome = .ok site.forest ∧
      (∀ record ∈ chartedRecords, Record.Addressable record) ∧
        site.locations.outcome = .ok located ∧
          located.map (fun entry => (entry.1, entry.2.address)) =
            [(0, "docs/Read%20me.html"), (1, "docs/Structs/A.html"), (2, "docs/Structs/A.html#/s:A.f"),
             (3, "docs/Functions/g()_.html"), (4, "docs/Functions.html"), (5, "docs/Structs.html"),
             (6, "docs/index.html")] ∧
            site.Charts located := by
  let config : Config := { modules := ["M"], separateGlobals := true, addressRoot := "docs" }
  have hrecords : ∀ record ∈ chartedRecords, Record.Addressable record := by
    intro record hrecord
    simp only [chartedRecords, List.mem_cons, List.not_mem_nil, or_false] at hrecord
    rcases hrecord with rfl | rfl | rfl | rfl
    · exact ⟨.inl rfl, .inl rfl, .inl rfl, .inl rfl⟩
    all_goals exact ⟨.inr ⟨_, rfl⟩, .inl rfl, .inl rfl, .inl rfl⟩
  obtain ⟨⟨forest, located⟩, hrun, haddresses⟩ := Outcome.exists_ok_of_map
    (o := (do
      let forest ← build config Text.pluralize chartedRecords
      let located ← Site.locations ⟨forest, config, Text.pluralize⟩
      return (forest, located) : Logged (Forest × List (Nat × Location))).outcome)
    (f := fun result => result.2.map fun entry => (entry.1, entry.2.address))
    (b := [(0, "docs/Read%20me.html"), (1, "docs/Structs/A.html"), (2, "docs/Structs/A.html#/s:A.f"),
      (3, "docs/Functions/g()_.html"), (4, "docs/Functions.html"), (5, "docs/Structs.html"),
      (6, "docs/index.html")]) (by decide +kernel)
  simp only [Logged.outcome_bind, Outcome.bind_eq_ok] at hrun
  obtain ⟨forest', hforest, located', hlocated, heq⟩ := hrun
  obtain ⟨rfl, rfl⟩ := Prod.mk.inj (Except.ok.inj heq)
  exact ⟨⟨forest', config, Text.pluralize⟩, located', hforest, hrecords, hlocated, haddresses,
    (build_charts _ hforest).2 _ hlocated⟩

/-- A guide whose name in addresses is a number. -/
def numberedGuides : List Record :=
  [guideRecord "News" (.int 2024)]

/-- **A guide whose name in addresses is no text has no location**, although it is documented. -/
theorem build_leaves_number_unlocated : ∃ forest,
    (build { modules := ["M"] } Text.pluralize numberedGuides).outcome = .ok forest ∧
      forest.walk = [0] ∧ ¬∃ located,
        (Site.locations ⟨forest, { modules := ["M"] }, Text.pluralize⟩).outcome = .ok located := by
  obtain ⟨forest, hforest, hrun⟩ := Outcome.exists_ok_of_map
    (f := fun forest => (forest.walk,
      (Site.locations ⟨forest, { modules := ["M"] }, Text.pluralize⟩).outcome.toOption.isSome))
    (b := ([0], false))
    (o := (build { modules := ["M"] } Text.pluralize numberedGuides).outcome) (by decide +kernel)
  obtain ⟨hwalk, hnone⟩ := Prod.mk.inj hrun
  refine ⟨forest, hforest, hwalk, ?_⟩
  rintro ⟨located, hlocated⟩
  rw [hlocated] at hnone
  cases hnone

end Forest
end DocForest
