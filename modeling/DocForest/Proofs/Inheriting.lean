import DocForest.Proofs.Hiding
import DocForest.Proofs.Typing

/-!
# Whose module a declaration takes over

The module of a declaration is a rule over its container: what the record says, or else what holds of the
container, or else a module of its own.  The pass that fills modules in does not recurse.  It runs along the
path to one declaration after the other, in the order of the records, comes to most containers several times
and takes null for what is not known yet, although null may be all that there is to know.  **It gives every
declaration the module of the rule all the same, in whatever order the records come**, and a second run finds
nothing to do.

An empty name is no module: neither that of a declaration nor the first one that is configured counts if it
is empty.  What a record or a container says is taken as it is.

## What is here

* `Declaration.moduleBelow` — the module of a declaration, from that of its container.
* `Record.Assigns` — modules of records by this rule; `Record.Assigns.unique`, there is only one choice of
  them.
* `Forest.fillModules_fixed` — a second run of the pass.
* `Forest.fillModules_assigns` — **the pass gives every declaration its module**.
* `Forest.fillModules_skips_empty_names` — names that are configured, and are no modules.
-/

set_option autoImplicit false

namespace DocForest

open Relation

variable {config : Config} {records : List Record} {loaded : Loaded} {forest : Forest}
  {modules other : Nat → Json} {i : Nat}

/-! ## The rule -/

/-- The module of a declaration, where `above` is that of its container, and null if it has none. -/
def Declaration.moduleBelow (config : Config) (decl : Declaration) (above : Json) : Json :=
  if decl.kind.isMarkdown ∨ decl.docModule ≠ .null then decl.docModule
  else if above ≠ .null then above
  else if ∃ name ∈ config.modules, name ≠ "" ∧ decl.moduleName = .str name then decl.moduleName
  else match config.modules with
    | [] => decl.moduleName
    | first :: _ => if first = "" then decl.moduleName else .str first

/-- Modules of records that follow the rule. -/
def Record.Assigns (config : Config) (records : List Record) (modules : Nat → Json) : Prop :=
  ∀ i record decl, records[i]? = some record → Declaration.ofRecord record = .ok decl →
    modules i = decl.moduleBelow config ((Record.containerOf? records i).elim .null modules)

/-- **There is only one choice of modules that follows the rule**, where no record contains itself. -/
theorem Record.Assigns.unique (h : Record.Assigns config records modules)
    (hother : Record.Assigns config records other)
    (hreadable : ∀ record ∈ records, ∃ decl, Declaration.ofRecord record = .ok decl)
    (hends : Ends (Record.containerOf? records) i) (hi : i < records.length) : modules i = other i := by
  -- the induction follows the containers, whose modules the rule is about
  have hstep : ∀ i, i < records.length →
      (Record.containerOf? records i).elim .null modules = (Record.containerOf? records i).elim .null other →
        modules i = other i := by
    intro i hi habove
    obtain ⟨decl, hdecl⟩ := hreadable _ (List.getElem_mem hi)
    have hrecord := List.getElem?_eq_getElem hi
    rw [h i _ decl hrecord hdecl, hother i _ decl hrecord hdecl, habove]
  induction hends with
  | top hnone => exact hstep _ hi (by rw [hnone]; rfl)
  | step hp _ ih =>
    have hsame := ih (Record.containerOf?_lt hp)
    exact hstep _ hi (by rw [hp]; exact hsame)

namespace Forest

/-! ## The pass -/

/-- A configured module counts if a declaration names it, and not by an empty name. -/
theorem truthy_and_documents_iff (config : Config) (moduleName : Json) :
    (moduleName.truthy && config.documents moduleName) = true ↔
      ∃ name ∈ config.modules, name ≠ "" ∧ moduleName = .str name := by
  cases moduleName <;> simp [Json.truthy, Config.documents, Json.string?, and_comm]

/-- What a visit gives a declaration is what the rule gives it. -/
theorem settle_eq_moduleBelow (config : Config) (forest : Forest) (i : Nat) (decl : Declaration) :
    forest.settle config i decl =
      decl.moduleBelow config ((forest.codeParent? i).elim .null forest.docModuleOf) := by
  have hnull : ∀ value : Json, value.isNull = true ↔ value = .null := fun value => by
    cases value <;> simp [Json.isNull]
  have hkeeps : decl.keepsModule = true ↔ decl.kind.isMarkdown = true ∨ decl.docModule ≠ .null := by
    rw [Declaration.keepsModule, Bool.or_eq_true, Bool.not_eq_true', ← Bool.not_eq_true, hnull, or_comm]
  have habove : ((forest.codeParent? i).map forest.docModuleOf).getD .null =
      (forest.codeParent? i).elim .null forest.docModuleOf := by
    cases forest.codeParent? i <;> rfl
  rw [settle, moduleFor, habove, Declaration.moduleBelow]
  simp only [hkeeps, Bool.not_eq_true', ← Bool.not_eq_true, hnull, truthy_and_documents_iff]
  refine if_congr Iff.rfl rfl (if_congr Iff.rfl rfl (if_congr Iff.rfl rfl ?_))
  cases config.modules with
  | nil => rfl
  | cons first rest =>
    rw [List.head?_cons, Option.bind_some, nonEmpty?]
    by_cases hfirst : first = "" <;> simp [hfirst]

theorem docModuleOf_fillModules (h : forest.Nested) (config : Config) {decl : Declaration}
    (hdecl : forest.decl? i = some decl) :
    (forest.fillModules config).docModuleOf i = decl.moduleBelow config
      ((forest.codeParent? i).elim .null (forest.fillModules config).docModuleOf) := by
  have hmodule : (forest.fillModules config).docModuleOf i =
      (forest.fillModules config).settle config i decl := by
    rw [docModuleOf, decl?_fillModules h, hdecl]
    rfl
  rw [hmodule, settle_eq_moduleBelow, codeParent?_fillModules]

theorem modify_eq_self {change : Node → Node}
    (h : ∀ node, forest.node? i = some node → change node = node) : forest.modify i change = forest := by
  have hnodes : forest.nodes.modify i change = forest.nodes := by
    refine Array.ext_getElem? fun j => ?_
    rw [Array.getElem?_modify]
    split
    · next heq =>
      subst heq
      cases hnode : forest.nodes[i]? with
      | none => rfl
      | some node => rw [Option.map_some, h node hnode]
    · rfl
  rw [modify, hnodes]

theorem fillModule_eq_self
    (h : ∀ decl, forest.decl? i = some decl → forest.settle config i decl = decl.docModule) :
    fillModule config forest i = forest := by
  rw [fillModule]
  cases hnode : forest.node? i with
  | none => rfl
  | some node =>
    have hmodule := h node.decl (by rw [decl?, hnode, Option.map_some])
    have hparent : forest.codeParent? i = node.codeParent := by rw [codeParent?, hnode, Option.bind_some]
    rw [settle, hparent] at hmodule
    dsimp only
    split
    · rfl
    · next hkeeps =>
      refine modify_eq_self fun same hsame => ?_
      obtain rfl := Option.some.inj (hnode.symm.trans hsame)
      rw [(if_neg hkeeps).symm.trans hmodule]

theorem fillModules_eq_self (h : ∀ i, fillModule config forest i = forest) :
    forest.fillModules config = forest := by
  have hpath : ∀ i, (forest.namespacePath i).foldl (fillModule config) forest = forest :=
    fun i => List.foldl_fixed' h _
  exact List.foldl_fixed' hpath _

/-- **A second run of the pass changes nothing.** -/
theorem fillModules_fixed (h : forest.Nested) (config : Config) :
    (forest.fillModules config).fillModules config = forest.fillModules config := by
  refine fillModules_eq_self fun i => fillModule_eq_self fun decl hdecl => ?_
  rw [decl?_fillModules h, Option.map_eq_some_iff] at hdecl
  obtain ⟨given, -, rfl⟩ := hdecl
  exact settle_settle config _ i given

/-- **The pass gives every declaration the module of the rule**, and no other choice follows the rule; a
second run changes nothing. -/
theorem fillModules_assigns (hload : (loadRecords records).outcome = .ok loaded)
    (hloop : ∀ i, ¬TransGen (Up (Record.containerOf? records)) i i) :
    Record.Assigns config records (loaded.forest.fillModules config).docModuleOf ∧
      (∀ modules, Record.Assigns config records modules → ∀ i < records.length,
        (loaded.forest.fillModules config).docModuleOf i = modules i) ∧
      (loaded.forest.fillModules config).fillModules config = loaded.forest.fillModules config := by
  have hloads := loadRecords_eq_ok hload
  have hparent : loaded.forest.codeParent? = Record.containerOf? records := funext hloads.codeParent?
  have hnested := hloads.nested ((checkNesting_of_loads hloads).2 hloop)
  have hassigns : Record.Assigns config records (loaded.forest.fillModules config).docModuleOf := by
    intro i record decl hrecord hdecl
    rw [← hparent]
    refine docModuleOf_fillModules hnested config ?_
    rw [hloads.decl?, hrecord, Option.bind_some, hdecl]
    rfl
  have hreadable : ∀ record ∈ records, ∃ decl, Declaration.ofRecord record = .ok decl := by
    intro record hrecord
    obtain ⟨i, hi⟩ := List.mem_iff_getElem?.1 hrecord
    obtain ⟨decl, hdecl, -⟩ := hloads.node i record hi
    exact ⟨decl, hdecl⟩
  refine ⟨hassigns, fun modules hmodules i hi => ?_, fillModules_fixed hnested config⟩
  exact hassigns.unique hmodules hreadable (hparent ▸ hnested.ends i) hi

/-- A member in front of its container and of another module, a guide, and a structure of a module that is not
configured. -/
def styleRecords : List Record :=
  [.obj [("kind", .str "source.lang.swift.decl.function.method.instance"), ("name", .str "style()"),
     ("parent", .str "w"), ("module_name", .str "UI")],
   .obj [("id", .str "w"), ("kind", .str "source.lang.swift.decl.extension"), ("name", .str "Widget"),
     ("module_name", .str "Core")],
   .obj [("kind", .str "document.markdown"), ("name", .str "Styles"), ("module_name", .str "Core")],
   .obj [("kind", .str "source.lang.swift.decl.struct"), ("name", .str "Sheet"),
     ("module_name", .str "Paper")]]

/-- The member is documented in the module of its container, and the guide in none. -/
theorem fillModules_assigns_styles : ∃ loaded,
    (loadRecords styleRecords).outcome = .ok loaded ∧
      (∀ i, ¬TransGen (Up (Record.containerOf? styleRecords)) i i) ∧
        Record.Assigns { modules := ["UI", "Core"] } styleRecords
          (loaded.forest.fillModules { modules := ["UI", "Core"] }).docModuleOf ∧
          (List.range 4).map (loaded.forest.fillModules { modules := ["UI", "Core"] }).docModuleOf =
            [.str "Core", .str "Core", .null, .str "UI"] := by
  obtain ⟨loaded, hload, hrun⟩ := Outcome.exists_ok_of_map
    (f := fun loaded : Loaded => (loaded.forest.checkNesting.toOption,
      (List.range 4).map (loaded.forest.fillModules { modules := ["UI", "Core"] }).docModuleOf))
    (b := (some (), [.str "Core", .str "Core", .null, .str "UI"]))
    (o := (loadRecords styleRecords).outcome) (by decide +kernel)
  obtain ⟨hnesting, hmodules⟩ := Prod.mk.inj hrun
  obtain ⟨_, hok, -⟩ := Outcome.exists_ok_of_map (f := id) (b := ()) (by rw [hnesting]; rfl)
  have hloop := (checkNesting_of_loads (loadRecords_eq_ok hload)).1 hok
  exact ⟨loaded, hload, hloop, (fillModules_assigns hload hloop).1, hmodules⟩

/-- A structure of a given module. -/
def structRecord (moduleName : String) : Record :=
  .obj [("kind", .str "source.lang.swift.decl.struct"), ("name", .str "S"), ("module_name", .str moduleName)]

/-- **An empty name is no module.**  A structure of a module that is not configured does not get the first
configured one if that has no name, and a structure whose module has no name does not get this one, although it
is configured. -/
theorem fillModules_skips_empty_names : ∃ loaded,
    (loadRecords [structRecord "X", structRecord ""]).outcome = .ok loaded ∧
      (∀ i < 2, loaded.forest.codeParent? i = none ∧ loaded.forest.isGuide i = false ∧
        loaded.forest.docModuleOf i = .null) ∧
      (loaded.forest.moduleNameOf 0 = .str "X" ∧ "X" ∉ [""] ∧
        (loaded.forest.fillModules { modules := [""] }).docModuleOf 0 ≠ .str "") ∧
      loaded.forest.moduleNameOf 1 = .str "" ∧ "" ∈ ["A", ""] ∧
        (loaded.forest.fillModules { modules := ["A", ""] }).docModuleOf 1 ≠ .str "" := by
  obtain ⟨loaded, hload, hrun⟩ := Outcome.exists_ok_of_map
    (f := fun loaded : Loaded => (
      (List.range 2).map fun i =>
        (loaded.forest.codeParent? i, loaded.forest.isGuide i, loaded.forest.docModuleOf i),
      (List.range 2).map loaded.forest.moduleNameOf,
      (loaded.forest.fillModules { modules := [""] }).docModuleOf 0,
      (loaded.forest.fillModules { modules := ["A", ""] }).docModuleOf 1))
    (b := ([(none, false, .null), (none, false, .null)], [.str "X", .str ""], .str "X", .str "A"))
    (o := (loadRecords [structRecord "X", structRecord ""]).outcome) (by decide +kernel)
  simp only [Prod.mk.injEq] at hrun
  obtain ⟨hplain, hnames, hfirst, hsecond⟩ := hrun
  simp only [List.range_succ, List.range_zero, List.nil_append, List.cons_append, List.map_cons, List.map_nil,
    List.cons.injEq, Prod.mk.injEq, and_true] at hplain hnames
  refine ⟨loaded, hload, fun i hi => ?_, ⟨hnames.1, by decide, ?_⟩, hnames.2, by decide, ?_⟩
  · match i, hi with
    | 0, _ => exact hplain.1
    | 1, _ => exact hplain.2
  · rw [hfirst]
    decide
  · rw [hsecond]
    decide

end Forest
end DocForest
