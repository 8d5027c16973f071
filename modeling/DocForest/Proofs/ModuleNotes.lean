import DocForest.Describe.Notes
import DocForest.Proofs.Coverage
import DocForest.Proofs.Ties
import DocForest.Proofs.Inheriting

/-!
# Notes on the module of a declaration

With several modules a note tells from which of them a declaration comes, unless its page says so.  Whether
it is needed is a question of names that differ; that there is a module at all is not asked.  Guides have
none, and neither has what states none if the first configured module has no name.

So **a note may tell of a module that there is not**.  It does for guides that state none: in no container if
they hold nothing, and in a container if that states a module.

## What is here

* `Record.Moduleless` — records that are left without a module; `Loads.docModuleOf_eq_null_iff`,
  `Forest.Built.docModuleOf_eq_null_iff`, no others are, in what is loaded and in what is built.
* `Forest.Built.nameOf_ne_null` — every node has a name, so that names always differ from no module.
* `Forest.Built.needsModuleNote_iff_of_null` — what is noted without a module.
* `Forest.build_notes_modules_iff` — **when every note tells of a module**; `Forest.build_notes_no_module`, a
  guide that is noted to come from none.
-/

set_option autoImplicit false

namespace DocForest

variable {config : Config} {inflect : String → String} {records : List Record} {loaded : Loaded}
  {forest : Forest} {decl : Declaration} {above : Json} {i : Nat}

/-! ## No module -/

/-- A record that is left without a module: a guide that states none, or what states no module of either
sort in a container without a module or in none, where the first configured module has no name. -/
inductive Record.Moduleless (config : Config) (records : List Record) : Nat → Prop
  | guide {i : Nat} {record : Record} {decl : Declaration} (hrecord : records[i]? = some record)
      (hdecl : Declaration.ofRecord record = .ok decl) (hguide : decl.kind.isMarkdown = true)
      (hstated : decl.docModule = .null) : Moduleless config records i
  | unnamed {i : Nat} {record : Record} {decl : Declaration} (hrecord : records[i]? = some record)
      (hdecl : Declaration.ofRecord record = .ok decl) (hguide : decl.kind.isMarkdown = false)
      (hstated : decl.docModule = .null) (hmodule : decl.moduleName = .null)
      (hfirst : ∀ first ∈ config.modules.head?, first = "")
      (habove : ∀ p, Record.containerOf? records i = some p → Moduleless config records p) :
      Moduleless config records i

theorem Record.Moduleless.lt_length (h : Record.Moduleless config records i) : i < records.length := by
  cases h with
  | guide hrecord => exact (List.getElem?_eq_some_iff.1 hrecord).1
  | unnamed hrecord => exact (List.getElem?_eq_some_iff.1 hrecord).1

theorem Declaration.moduleBelow_eq_null_iff : decl.moduleBelow config above = .null ↔
    decl.docModule = .null ∧ (decl.kind.isMarkdown = true ∨ decl.kind.isMarkdown = false ∧
      decl.moduleName = .null ∧ (∀ first ∈ config.modules.head?, first = "") ∧ above = .null) := by
  rw [Declaration.moduleBelow]
  split
  · next hkeeps =>
    exact ⟨fun hnull => ⟨hnull, .inl (hkeeps.resolve_right fun hne => hne hnull)⟩, fun h => h.1⟩
  · next hkeeps =>
    obtain ⟨hguide, hstated⟩ := not_or.1 hkeeps
    simp only [Bool.not_eq_true, not_not] at hguide hstated
    split
    · next habove => simp [hguide, habove]
    · next habove =>
      split
      · next hname =>
        obtain ⟨name, -, -, hname⟩ := hname
        simp [hguide, hname]
      · rw [not_not] at habove
        cases config.modules with
        | nil => simp [hguide, hstated, habove]
        | cons first rest => by_cases hfirst : first = "" <;> simp [hguide, hstated, habove, hfirst]

/-- **The pass leaves those records without a module, and no others.** -/
theorem Loads.docModuleOf_eq_null_iff (h : Loads records loaded) (hnested : loaded.forest.Nested)
    (hi : i < records.length) : (loaded.forest.fillModules config).docModuleOf i = .null ↔
      Record.Moduleless config records i := by
  have hstep : ∀ i, i < records.length → (∀ p, Record.containerOf? records i = some p →
      ((loaded.forest.fillModules config).docModuleOf p = .null ↔ Record.Moduleless config records p)) →
        ((loaded.forest.fillModules config).docModuleOf i = .null ↔ Record.Moduleless config records i) := by
    intro i hi hcontainer
    have hrecord := List.getElem?_eq_getElem hi
    obtain ⟨decl, hdecl, -⟩ := h.node i _ hrecord
    have hloaded : loaded.forest.decl? i = some decl := by
      rw [h.decl?, hrecord, Option.bind_some, hdecl]
      rfl
    rw [Forest.docModuleOf_fillModules hnested config hloaded, Declaration.moduleBelow_eq_null_iff,
      h.codeParent?]
    constructor
    · rintro ⟨hstated, hguide | ⟨hguide, hmodule, hfirst, habove⟩⟩
      · exact .guide hrecord hdecl hguide hstated
      · refine .unnamed hrecord hdecl hguide hstated hmodule hfirst fun p hp => (hcontainer p hp).1 ?_
        rwa [hp] at habove
    · rintro (⟨hsame, hread, hguide, hstated⟩ |
        ⟨hsame, hread, hguide, hstated, hmodule, hfirst, habove⟩) <;>
        obtain rfl := Option.some.inj (hrecord.symm.trans hsame) <;>
        obtain rfl := Except.ok.inj (hdecl.symm.trans hread)
      · exact ⟨hstated, .inl hguide⟩
      · refine ⟨hstated, .inr ⟨hguide, hmodule, hfirst, ?_⟩⟩
        cases hp : Record.containerOf? records i with
        | none => rfl
        | some p => exact (hcontainer p hp).2 (habove p hp)
  -- the induction follows the containers, whose modules a record may take over
  have hends := hnested.ends i
  rw [funext h.codeParent?] at hends
  induction hends with
  | top hnone => exact hstep _ hi fun p hp => absurd (hnone.symm.trans hp) (by simp)
  | step hp _ ih =>
    refine hstep _ hi fun p hp' => ?_
    obtain rfl := Option.some.inj (hp.symm.trans hp')
    exact ih (Record.containerOf?_lt hp)

namespace Forest

/-! ## What is built -/

theorem docModuleOf_eq_view (forest : Forest) (i : Nat) :
    forest.docModuleOf i = (forest.view (fun node => node.decl.docModule) i).getD .null := by
  rw [docModuleOf, decl?, view, Option.map_map]
  rfl

theorem docModuleOf_completed (h : loaded.forest.Nested) :
    (completed config loaded).docModuleOf i = (loaded.forest.fillModules config).docModuleOf i := by
  have hmodules : (loaded.forest.fillModules config).Nested :=
    h.congr (codeParent?_fillModules _ _) (Nat.le_of_eq (size_fillModules _ _).symm)
  rw [docModuleOf_eq_view, completed, view_deriveLevels_of fun _ _ => rfl, ← docModuleOf_eq_view,
    docModuleOf, decl?_assignMarks hmodules, docModuleOf, Option.map_map]
  rfl

theorem name_ne_null_of_ofRecord {record : Record} (h : Declaration.ofRecord record = .ok decl) :
    decl.name ≠ .null := by
  cases record with
  | obj fields =>
    simp only [Declaration.ofRecord, Declaration.ofFields, Outcome.bind_eq_ok, Outcome.pure_eq_ok] at h
    obtain ⟨level, -, inherited, -, parameters, -, hint, -, rfl⟩ := h
    simp
  | _ => cases h

theorem name_ne_null_of_mem_groups {part : ModuleSection} (h : decl ∈ part.groups inflect) :
    decl.name ≠ .null := by
  rcases List.mem_append.1 h with h | h
  · obtain ⟨category, -, rfl⟩ := List.mem_map.1 h
    exact Json.noConfusion
  · obtain rfl := List.mem_singleton.1 h
    change (if part.moduleName.truthy then part.moduleName else .str defaultRootName) ≠ .null
    split
    · next htruthy =>
      intro hnull
      rw [hnull] at htruthy
      cases htruthy
    · simp

namespace Built

theorem docModuleOf_eq_null_iff (h : Built config inflect records loaded forest) (hi : i < records.length) :
    forest.docModuleOf i = .null ↔ Record.Moduleless config records i := by
  have hnested := h.loads.nested h.nesting
  rw [docModuleOf, decl?_frozen h.frozen (h.loads.size ▸ hi), ← docModuleOf, docModuleOf_completed hnested]
  exact h.loads.docModuleOf_eq_null_iff hnested hi

/-- Every node has a name: that of a record is a text, and that of a group a text or a module that counts as
given. -/
theorem nameOf_ne_null (h : Built config inflect records loaded forest) (i : Nat) :
    forest.nameOf i ≠ .null := by
  rw [nameOf]
  cases hdecl : forest.decl? i with
  | none => simp
  | some decl =>
    rw [Option.elim_some]
    have hnames : loaded.forest.All fun decl => decl.name ≠ .null :=
      h.loads.all fun _ _ _ => name_ne_null_of_ofRecord
    by_cases hi : i < loaded.forest.size
    · have hview : (completed config loaded).view (fun node => node.decl.name) i =
          loaded.forest.view (fun node => node.decl.name) i := view_completed (fun _ _ _ _ => rfl) _ _
      have hname : (loaded.forest.decl? i).map (·.name) = some decl.name := by
        rw [decl?_frozen h.frozen hi] at hdecl
        rw [decl?, Option.map_map, ← Option.map_some, ← hdecl, decl?, Option.map_map]
        exact hview.symm
      obtain ⟨given, hgiven, hsame⟩ := Option.map_eq_some_iff.1 hname
      exact hsame ▸ hnames i given hgiven
    · obtain ⟨part, -, group, hgroup, hsame⟩ :=
        exists_group h.frozen (Nat.not_lt.1 hi) (lt_of_decl? hdecl)
      obtain rfl := Option.some.inj (hdecl.symm.trans hsame)
      exact name_ne_null_of_mem_groups hgroup

theorem tied (h : Built config inflect records loaded forest) : forest.Tied where
  mem_childrenOf_iff := h.rooted.mem_childrenOf_iff
  not_own_child p hp :=
    ((documents_of_frozen h.frozen h.prepared).ends_docsParent p).no_loop
      (.single (h.rooted.mem_childrenOf_iff.1 hp))
  root_free := (documents_of_frozen h.frozen h.prepared).docsParent_root
  root_lt hr := h.rooted.lt_size (.start hr)

end Built

/-- Of a node without a module something is noted if it is in no container and has no page, or if its
container states a module. -/
theorem Built.needsModuleNote_iff_of_null (h : Built config inflect records loaded forest)
    (hmany : config.multipleModules = true) (hnull : forest.docModuleOf i = .null) :
    forest.needsModuleNote config i = false ↔
      (Record.containerOf? records i = none → forest.rendersAsPage config i = true) ∧
        ∀ p, Record.containerOf? records i = some p → forest.moduleNameOf p = .null := by
  have hsame : ∀ value : Json, value.same .null = true ↔ value = .null := fun value => by
    cases value <;> simp [Json.same, Json.isNull, Json.number?]
  have hroot : (forest.nameOf (((forest.docsPath i).head?).getD i)).same .null = false := by
    rw [← Bool.not_eq_true, hsame]
    exact h.nameOf_ne_null _
  rw [needsModuleNote, hnull, hmany, hroot, h.codeParent?]
  cases Record.containerOf? records i with
  | none => simp
  | some p => simp [hsame]

theorem mem_notes_of_needsModuleNote (hdecl : forest.decl? i = some decl)
    (hneeds : forest.needsModuleNote config i = true) :
    "from " ++ (forest.docModuleOf i).plainText ∈ forest.notes config i := by
  rw [notes, docModuleOf, hdecl]
  simp [hneeds]

/-- **Every note tells of a module**, and of another one than the root above it, exactly if what has no module
has a page of its own or a container that states none. -/
theorem build_notes_modules_iff (h : (build config inflect records).outcome = .ok forest)
    (hmany : config.multipleModules = true) :
    (∀ i ∈ forest.walk, forest.needsModuleNote config i = true →
      "from " ++ (forest.docModuleOf i).plainText ∈ forest.notes config i ∧ forest.docModuleOf i ≠ .null ∧
        ∃ r ∈ forest.rootList, (forest.docsPath i).head? = some r ∧
          (forest.nameOf r).same (forest.docModuleOf i) = false) ↔
      ∀ i ∈ forest.walk, Record.Moduleless config records i →
        (Record.containerOf? records i = none → forest.rendersAsPage config i = true) ∧
          ∀ p, Record.containerOf? records i = some p → forest.moduleNameOf p = .null := by
  obtain ⟨loaded, hbuilt⟩ := built_of_build h
  refine forall₂_congr fun i hi => ⟨fun hnotes hless => ?_, fun hquiet hneeds => ?_⟩
  · -- a note would tell of a module that there is not
    have hnull := (hbuilt.docModuleOf_eq_null_iff hless.lt_length).2 hless
    rw [← hbuilt.needsModuleNote_iff_of_null hmany hnull, ← Bool.not_eq_true]
    exact fun hneeds => (hnotes hneeds).2.1 hnull
  · have hbelow := hbuilt.rooted.mem_walk_iff.1 hi
    obtain ⟨decl, hdecl⟩ := hbuilt.rooted.exists_decl hbelow
    obtain ⟨r, hr, hhead⟩ := hbuilt.tied.below.walkEnds.root i hi
    refine ⟨mem_notes_of_needsModuleNote hdecl hneeds, fun hnull => ?_, r, hr, hhead, ?_⟩
    · rw [← Bool.not_eq_false, hbuilt.needsModuleNote_iff_of_null hmany hnull] at hneeds
      by_cases hlt : i < records.length
      · exact hneeds (hquiet ((hbuilt.docModuleOf_eq_null_iff hlt).1 hnull))
      · -- what stands behind the records is a group, and lists something
        have hlist := childrenOf_ne_nil_of_le hbuilt.frozen hbuilt.prepared
          (hbuilt.loads.size ▸ Nat.not_lt.1 hlt) (hbuilt.rooted.lt_size hbelow)
        exact hneeds ⟨fun _ => Pages.Site.rendersAsPage_iff.2 (.inl hlist),
          fun p hp => absurd (Record.lt_of_containerOf? hp) hlt⟩
    · rw [needsModuleNote, hhead, Option.getD_some] at hneeds
      simp only [Bool.and_eq_true, Bool.not_eq_true'] at hneeds
      exact hneeds.1.2

/-- A structure, and an extension of it with a method from another module. -/
def exportRecords : List Record :=
  [swiftRecord "s" "struct" "Store" "s:Store" .null,
   .obj [("id", .str "e"), ("kind", .str "source.lang.swift.decl.extension"), ("name", .str "Store"),
     ("usr", .str "s:Store"), ("module_name", .str "Core"), ("doc_module_name", .str "UI")],
   swiftRecord "m" "function.method.instance" "export()" "s:Store.export" (.str "e")]

/-- The note on the method tells of its module. -/
theorem build_notes_modules_export : ∃ forest,
    (build { modules := ["Core", "UI"] } id exportRecords).outcome = .ok forest ∧
      forest.walk = [4, 3, 0, 2] ∧ forest.note { modules := ["Core", "UI"] } 2 = some "From UI" ∧
        ∀ i ∈ forest.walk, forest.needsModuleNote { modules := ["Core", "UI"] } i = true →
          "from " ++ (forest.docModuleOf i).plainText ∈ forest.notes { modules := ["Core", "UI"] } i ∧
            forest.docModuleOf i ≠ .null ∧ ∃ r ∈ forest.rootList, (forest.docsPath i).head? = some r ∧
              (forest.nameOf r).same (forest.docModuleOf i) = false := by
  obtain ⟨forest, hforest, hrun⟩ := Outcome.exists_ok_of_map
    (f := fun forest => (forest.walk, forest.note { modules := ["Core", "UI"] } 2,
      forest.walk.all fun i => forest.docModuleOf i ≠ .null))
    (b := ([4, 3, 0, 2], some "From UI", true))
    (o := (build { modules := ["Core", "UI"] } id exportRecords).outcome) (by decide +kernel)
  simp only [Prod.mk.injEq] at hrun
  obtain ⟨hwalk, hnote, hmodules⟩ := hrun
  refine ⟨forest, hforest, hwalk, hnote, (build_notes_modules_iff hforest rfl).2 fun i hi hless => ?_⟩
  obtain ⟨loaded, hbuilt⟩ := built_of_build hforest
  exact absurd ((hbuilt.docModuleOf_eq_null_iff hless.lt_length).2 hless)
    (of_decide_eq_true (List.all_eq_true.1 hmodules i hi))

/-- **A guide on its own is noted to come from no module.** -/
theorem build_notes_no_module : ∃ forest,
    (build { modules := ["Core", "UI"] } id [guideRecord "Getting Started" .null]).outcome = .ok forest ∧
      0 ∈ forest.walk ∧ forest.needsModuleNote { modules := ["Core", "UI"] } 0 = true ∧
        forest.docModuleOf 0 = .null ∧ forest.note { modules := ["Core", "UI"] } 0 = some "From None" := by
  obtain ⟨forest, hforest, hrun⟩ := Outcome.exists_ok_of_map
    (f := fun forest => (forest.walk, forest.needsModuleNote { modules := ["Core", "UI"] } 0,
      forest.docModuleOf 0, forest.note { modules := ["Core", "UI"] } 0))
    (b := ([0], true, .null, some "From None"))
    (o := (build { modules := ["Core", "UI"] } id [guideRecord "Getting Started" .null]).outcome)
    (by decide +kernel)
  simp only [Prod.mk.injEq] at hrun
  obtain ⟨hwalk, hneeds, hmodule, hnote⟩ := hrun
  exact ⟨forest, hforest, by simp [hwalk], hneeds, hmodule, hnote⟩

end Forest
end DocForest
