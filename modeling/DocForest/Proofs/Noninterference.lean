import DocForest.Proofs.Replaying
import DocForest.Proofs.Sparing

/-!
# Hidden declarations show nowhere

The least level hides declarations and all that stands in them.  They take part in a build all the same:
levels are derived from members, sections are counted among siblings, fragments are gathered, modules are
listed in the order in which they first occur, and file names avoid each other.  None of that carries
anything of them into the documentation: **without their records the documentation is the same**, as are
the addresses of its pages.

## What is here

* `Record.LevelsApart` — no extension that states no level stands in another one.
* `Forest.hides_frozen` — the finished forest hides what the access filter rejects.
* `Forest.Retained` — what is loaded without the hidden records; `Retained.sameDocumentation`, what its
  build gives.
* `Forest.build_without_hidden` — **the documentation does not depend on hidden declarations**.
-/

set_option autoImplicit false

namespace DocForest

open Relation

variable {config : Config} {inflect : String → String} {records : List Record} {loaded loaded' : Loaded}
  {forest part whole frozen frozen' : Forest} {e : Nat → Nat} {i p : Nat}

/-- No extension that states no level stands directly in another one. -/
def Record.LevelsApart (records : List Record) : Prop :=
  ∀ i < records.length, ∀ p ∈ Record.containerOf? records i,
    Record.leavesLevelAt records i = true → Record.leavesLevelAt records p = false

instance (records : List Record) : Decidable (Record.LevelsApart records) :=
  inferInstanceAs (Decidable (∀ i < records.length, ∀ p ∈ Record.containerOf? records i,
    Record.leavesLevelAt records i = true → Record.leavesLevelAt records p = false))

/-! ## Loaded records -/

theorem Loads.isExtension_of_implicit (h : Loads records loaded) (hi : i ∈ loaded.implicit) :
    loaded.forest.isExtension i = true := by
  obtain ⟨record, hrecord, hopen⟩ := (Option.any_eq_true _ _).1 (h.mem_implicit.1 hi)
  obtain ⟨decl, hdecl, -⟩ := h.node i record hrecord
  rw [Record.leavesLevel_eq hdecl, Bool.and_eq_true] at hopen
  rw [Forest.isExtension, Forest.satisfies, h.decl?, hrecord, Option.bind_some, hdecl]
  exact hopen.1

theorem Loads.openApart (h : Loads records loaded) (hapart : Record.LevelsApart records) :
    loaded.forest.OpenApart loaded.implicit := by
  intro i hi p hp hparent
  rw [h.codeParent?] at hparent
  have hclosed := hapart i (Record.lt_of_containerOf? hparent) p hparent (h.mem_implicit.1 hi)
  rw [h.mem_implicit.1 hp] at hclosed
  cases hclosed

namespace Forest

/-! ## The finished forest -/

/-- **The finished forest hides what the access filter rejects.** -/
theorem hides_frozen
    (hfrozen : Frozen (arranged config inflect loaded).2 (arranged config inflect loaded).1 frozen)
    (h : (completed config loaded).Prepared) (minLevel : AccessLevel) (hi : i < loaded.forest.size) :
    frozen.hides minLevel i = (completed config loaded).hides minLevel i := by
  have hrejects : Filter.rejects ⟨frozen, minLevel⟩ =
      Filter.rejects ⟨completed config loaded, minLevel⟩ := by
    funext j
    rw [Filter.rejects, Filter.rejects, satisfies_eq_view, satisfies_eq_view]
    refine (view_frozen hfrozen (fun _ _ _ => rfl) ?_ j).trans
      (congrArg (Option.getD · false) (view_merged fun _ _ _ => rfl))
    rintro decl ⟨name, addressName, docModule, rfl⟩
    rfl
  rw [hides, hides, hrejects, namespacePath_frozen hfrozen h hi]

theorem hidesMembers_of_nested (h : forest.Nested)
    (hparent : forest.codeParent? = Record.containerOf? records) (minLevel : AccessLevel) :
    Record.HidesMembers records (forest.hides minLevel) := by
  intro i p hp hhides
  rw [← hparent] at hp
  rw [h.hides_of_member hp, hhides, Bool.or_true]

/-! ## Loading without the hidden records -/

/-- `loaded'` has the nodes of `loaded` that the least level spares, in the same order. -/
structure Retained (config : Config) (e : Nat → Nat) (loaded' loaded : Loaded) : Prop
    extends Replays config e loaded' loaded where
  strictMono : StrictMono e

/-- **What is retained has the same documentation.** -/
theorem Retained.sameDocumentation (h : Retained config e loaded' loaded)
    (hfrozen : Frozen (arranged config inflect loaded').2 (arranged config inflect loaded').1 frozen)
    (hfrozen' : Frozen (arranged config inflect loaded).2 (arranged config inflect loaded).1 frozen') :
    SameDocumentation e frozen frozen' :=
  (h.toReplays.sameTree hfrozen hfrozen').sameDocumentation h.strictMono

/-- **Without hidden records the others are loaded as before**, and pass the first checks. -/
theorem Built.exists_retained (h : Built config inflect records loaded forest)
    (hids : Record.GiveIds records) (hapart : Record.LevelsApart records)
    (hnumbers : Record.Numbers e records (forest.hides config.minLevel)) :
    ∃ loaded', (loadRecords (Record.without records (forest.hides config.minLevel))).outcome =
        .ok loaded' ∧ loaded'.forest.checkNesting = .ok () ∧ loaded'.forest.checkMarks = .ok () ∧
      Retained config e loaded' loaded := by
  have hnested : forest.Nested := (documents_of_frozen h.frozen h.prepared).toNested
  have hhides := hidesMembers_of_nested hnested h.codeParent? config.minLevel
  obtain ⟨loaded', hloaded'⟩ := h.loads.without hids hhides
  have hloads' := loadRecords_eq_ok hloaded'
  have hrelabels := (h.loads.renumbers hloads' hnumbers hids hhides).relabels
  have hwhole := h.loads.nested h.nesting
  have hnesting' := hrelabels.checkNesting hwhole
  have hsize := size_completed config loaded
  have hspares : Spares e config.minLevel (completed config loaded) := by
    refine spares_of_numbers hnumbers h.prepared.toNested (hsize.trans h.loads.size) fun j hj => ?_
    exact hides_frozen h.frozen h.prepared _ (hsize ▸ hj)
  have hcompleted := hrelabels.completed (hrelabels.nested hwhole) hwhole hloads'.nodup_implicit h.loads.nodup_implicit
    (h.loads.mem_implicit_iff hloads' hnumbers) (h.loads.openApart hapart)
    (fun _ => h.loads.isExtension_of_implicit) hspares
  exact ⟨loaded', hloaded', hnesting', hrelabels.checkMarks h.marks,
    { prepared := hloads'.prepared hnesting' config
      prepared' := h.prepared
      relabels := hcompleted
      filtered := hcompleted.visible (fun _ => hspares.exists_top) fun _ _ => hspares.exists_member
      strictMono := hnumbers.strictMono }⟩

/-- **The documentation does not depend on hidden declarations**: if every record gives an identifier and
no extension that states no level stands directly in another one, the records that are left without the
hidden declarations and all that stands in them can be built on their own, and give the same
documentation.  Their nodes are those of before under new numbers, with the same declarations, merged in
the same way and in the same places, and no other node of the whole shows; the locations of all nodes, or
the failure to give them any, are the same as well. -/
theorem build_without_hidden (h : (build config inflect records).outcome = .ok forest)
    (hids : Record.GiveIds records) (hapart : Record.LevelsApart records) :
    ∃ (shown : Forest) (e : Nat → Nat),
      (build config inflect (Record.without records (forest.hides config.minLevel))).outcome =
          .ok shown ∧
        Record.Numbers e records (forest.hides config.minLevel) ∧
          SameDocumentation e shown forest ∧
            (∀ i, forest.fragmentsOf (e i) = (shown.fragmentsOf i).map e) ∧
              (Pages.Site.locations ⟨forest, config, inflect⟩).outcome =
                (Pages.Site.locations ⟨shown, config, inflect⟩).outcome.map fun located =>
                  located.map fun entry => (e entry.1, entry.2) := by
  obtain ⟨loaded, hbuilt⟩ := built_of_build h
  obtain ⟨e, hnumbers⟩ := Record.exists_numbers records (forest.hides config.minLevel)
  obtain ⟨loaded', hloaded', hnesting', hmarks', hretained⟩ := hbuilt.exists_retained hids hapart hnumbers
  obtain ⟨hfragments', hmodules'⟩ := hretained.checks hbuilt.fragments hbuilt.modules
  obtain ⟨shown, hshown⟩ : ∃ shown, (build config inflect
      (Record.without records (forest.hides config.minLevel))).outcome = .ok shown :=
    build_of_checks hloaded' hnesting' hmarks' hfragments' hmodules'
  obtain ⟨loaded'', hbuilt'⟩ := built_of_build hshown
  obtain rfl : loaded' = loaded'' := Except.ok.inj (hloaded'.symm.trans hbuilt'.load)
  have hsame := hretained.sameDocumentation hbuilt'.frozen hbuilt.frozen
  have htidy := (arranged_grown hretained.prepared inflect).tidy
  refine ⟨shown, e, hshown, hnumbers, hsame, hsame.toCorresponds.fragmentsOf, ?_⟩
  refine hsame.toSameLinks.locations (documents_of_frozen hbuilt'.frozen hretained.prepared).toNested
    (documents_of_frozen hbuilt.frozen hbuilt.prepared).toNested (hbuilt'.frozen.onePlace htidy)
    (fun i hi => ?_) config inflect
  rw [size_frozen hbuilt'.frozen]
  exact htidy.within.below ((hbuilt'.frozen.below_iff htidy).1 hi)

/-- A Swift declaration with a level, or with none, as a record. -/
def leveledRecord (id kind name : String) (parent level : Json) : Record :=
  .obj [("id", .str id), ("kind", .str ("source.lang.swift.decl." ++ kind)), ("name", .str name),
    ("parent", parent), ("accessibility", level)]

/-- A structure and an extension of it that states no level, each with a hidden and a public member, and a
hidden structure of nearly the same name with a member. -/
def mixedRecords : List Record :=
  let publicLevel : Json := .str "source.lang.swift.accessibility.public"
  let privateLevel : Json := .str "source.lang.swift.accessibility.private"
  [leveledRecord "s" "struct" "S" .null publicLevel,
   leveledRecord "p" "function.method.instance" "p()" (.str "s") privateLevel,
   leveledRecord "q" "function.method.instance" "q()" (.str "s") publicLevel,
   leveledRecord "e" "extension" "S" .null .null,
   leveledRecord "r" "function.method.instance" "r()" (.str "e") privateLevel,
   leveledRecord "t" "function.method.instance" "t()" (.str "e") publicLevel,
   leveledRecord "h" "struct" "s" .null privateLevel,
   leveledRecord "m" "function.method.instance" "m()" (.str "h") publicLevel]

/-- Half of these records are hidden, and the other half has the same documentation without them. -/
theorem build_without_hidden_members : ∃ (forest shown : Forest) (e : Nat → Nat),
    (build { modules := ["M"] } id mixedRecords).outcome = .ok forest ∧
      (List.range 8).filter (forest.hides .publicLevel) = [1, 4, 6, 7] ∧
        forest.walk = [9, 8, 0, 2, 5] ∧
          (build { modules := ["M"] } id
            (Record.without mixedRecords (forest.hides .publicLevel))).outcome = .ok shown ∧
            SameDocumentation e shown forest := by
  obtain ⟨forest, hforest, hrun⟩ := Outcome.exists_ok_of_map
    (f := fun forest => ((List.range 8).filter (forest.hides .publicLevel), forest.walk))
    (b := ([1, 4, 6, 7], [9, 8, 0, 2, 5]))
    (o := (build { modules := ["M"] } id mixedRecords).outcome) (by decide +kernel)
  obtain ⟨hhidden, hwalk⟩ := Prod.mk.inj hrun
  obtain ⟨shown, e, hshown, -, hsame, -⟩ :=
    build_without_hidden hforest (by decide +kernel) (by decide +kernel)
  exact ⟨forest, shown, e, hforest, hhidden, hwalk, hshown, hsame⟩

end Forest
end DocForest
