import DocForest.Proofs.Disclosure
import Mathlib.Data.List.Basic

/-!
# When a build has a result

Four fields of a record are taken over in any form, and what needs a text of them fails on anything
else.  As long as they are texts wherever they are given, no step behind the check of the nesting
fails: **records of the right types are documented exactly if they are well formed.**

## What is here

* `Declaration.Typed`, `Forest.Typed` — the four fields are texts or null.
* `Forest.FillsIn`, `FillsIn.completed` — properties of declarations that filling in keeps.
* `Forest.checkMarks_of_typed`, `Forest.checkFragments_of_typed`, `Forest.checkModules_of_typed` — the
  checks then succeed.
* `Record.WellFormed` — what the records have to say of each other.
* `Forest.build_ok_iff_wellFormed` — when a build has a result, and why it has none otherwise.
-/

set_option autoImplicit false

namespace DocForest

open Relation

/-! ## Texts -/

/-- A text, or null for what is not given. -/
def Json.TextOrNull (value : Json) : Prop :=
  value = .null ∨ ∃ text, value = .str text

namespace Json.TextOrNull

variable {value : Json}

theorem given (h : value.TextOrNull) : value.given.TextOrNull := by
  rw [Json.given]
  split
  · exact h
  · exact .inl rfl

theorem isKey (h : value.TextOrNull) : value.isKey = true := by
  rcases h with rfl | ⟨text, rfl⟩ <;> rfl

theorem isText_of_truthy (h : value.TextOrNull) (htruthy : value.truthy = true) :
    value.isText = true := by
  rcases h with rfl | ⟨text, rfl⟩
  · cases htruthy
  · rfl

end Json.TextOrNull

/-- The fields that may be given in any form are texts or null. -/
structure Declaration.Typed (decl : Declaration) : Prop where
  usr : decl.usr.TextOrNull
  moduleName : decl.moduleName.TextOrNull
  docModule : decl.docModule.TextOrNull
  requirements : decl.requirements.TextOrNull

namespace Record

/-- A record that can be read, and whose fields that may be given in any form are texts or null. -/
structure Typed (record : Record) : Prop where
  readable : ∃ decl, Declaration.ofRecord record = .ok decl
  usr : (record.field "usr").TextOrNull
  moduleName : (record.field "module_name").TextOrNull
  docModule : (record.field "doc_module_name").TextOrNull
  requirements : (record.field "generic_requirements").TextOrNull

theorem Typed.declaration {record : Record} {decl : Declaration} (h : Record.Typed record)
    (hdecl : Declaration.ofRecord record = .ok decl) : decl.Typed := by
  cases record with
  | obj fields =>
    simp only [Declaration.ofRecord, Declaration.ofFields, Outcome.bind_eq_ok,
      Outcome.pure_eq_ok] at hdecl
    obtain ⟨level, -, inherited, -, parameters, -, hint, -, rfl⟩ := hdecl
    exact ⟨h.usr, h.moduleName, h.docModule, h.requirements.given⟩
  | _ => cases hdecl

end Record

/-! ## Typed forests -/

namespace Forest

variable {config : Config} {loaded : Loaded} {forest other : Forest} {records : List Record} {i : Nat}

/-- All declarations have a property. -/
def All (P : Declaration → Prop) (forest : Forest) : Prop :=
  ∀ i decl, forest.decl? i = some decl → P decl

/-- All declarations are typed. -/
def Typed (forest : Forest) : Prop :=
  ∀ i decl, forest.decl? i = some decl → decl.Typed

/-- A property of declarations that says that their modules are texts or null, and does not depend on
what is filled in otherwise. -/
structure FillsIn (P : Declaration → Prop) : Prop where
  moduleName : ∀ {decl}, P decl → decl.moduleName.TextOrNull
  docModule : ∀ {decl}, P decl → decl.docModule.TextOrNull
  withDocModule : ∀ {decl docModule}, P decl → docModule.TextOrNull → P { decl with docModule }
  withMark : ∀ {decl} mark, P decl → P { decl with mark }
  withLevel : ∀ {decl} level, P decl → P { decl with level }

namespace FillsIn

variable {P : Declaration → Prop} (hP : FillsIn P)

theorem modifyDecl (h : forest.All P) {change : Declaration → Declaration}
    (hchange : ∀ decl, P decl → P (change decl)) : (forest.modifyDecl i change).All P := by
  intro j decl hdecl
  rw [decl?_modifyDecl] at hdecl
  split at hdecl
  · obtain ⟨decl', hdecl', rfl⟩ := Option.map_eq_some_iff.1 hdecl
    exact hchange decl' (h j decl' hdecl')
  · exact h j decl hdecl

include hP

theorem docModuleOf (h : forest.All P) (i : Nat) : (forest.docModuleOf i).TextOrNull := by
  unfold Forest.docModuleOf
  cases hdecl : forest.decl? i with
  | none => exact .inl rfl
  | some decl => exact hP.docModule (h i decl hdecl)

theorem moduleFor (h : forest.All P) {decl : Declaration} (hdecl : P decl) (parent : Option Nat) :
    (forest.moduleFor config decl parent).TextOrNull := by
  have habove : ((parent.map forest.docModuleOf).getD .null).TextOrNull := by
    cases parent with
    | none => exact .inl rfl
    | some p => exact hP.docModuleOf h p
  rw [Forest.moduleFor]
  split
  · exact habove
  · split
    · exact hP.moduleName hdecl
    · split
      · exact .inr ⟨_, rfl⟩
      · exact hP.moduleName hdecl

theorem fillModule (h : forest.All P) (i : Nat) : (Forest.fillModule config forest i).All P := by
  unfold Forest.fillModule
  cases hnode : forest.node? i with
  | none => exact h
  | some node =>
    have hdecl : forest.decl? i = some node.decl := by rw [decl?, hnode, Option.map_some]
    dsimp only
    split
    · exact h
    · exact modifyDecl h fun decl hdecl' =>
        hP.withDocModule hdecl' (hP.moduleFor h (h i _ hdecl) node.codeParent)

theorem putMarks (h : forest.All P) (marks : List (Nat × SectionMark)) :
    (forest.putMarks marks).All P := by
  refine List.foldlRecOn marks _ h fun forest hall entry _ => ?_
  exact modifyDecl hall fun _ => hP.withMark entry.2

theorem deriveLevel (h : forest.All P) (i : Nat) : (forest.deriveLevel i).All P := by
  unfold Forest.deriveLevel
  split
  · exact modifyDecl h fun _ => hP.withLevel _
  · exact h

/-- **Filling in keeps such a property.** -/
theorem completed (h : loaded.forest.All P) (config : Config) : (completed config loaded).All P := by
  have hmodules : (loaded.forest.fillModules config).All P :=
    List.foldlRecOn _ _ h fun forest hall i _ =>
      List.foldlRecOn _ _ hall fun forest hall j _ =>
        hP.fillModule hall j
  exact List.foldlRecOn _ _ (hP.putMarks hmodules _)
    fun forest hall i _ => hP.deriveLevel hall i

end FillsIn

theorem fillsIn_typed : FillsIn Declaration.Typed where
  moduleName h := h.moduleName
  docModule h := h.docModule
  withDocModule h hmodule := ⟨h.usr, h.moduleName, hmodule, h.requirements⟩
  withMark _ h := ⟨h.usr, h.moduleName, h.docModule, h.requirements⟩
  withLevel _ h := ⟨h.usr, h.moduleName, h.docModule, h.requirements⟩

/-! ## Checks that succeed -/

theorem checkMarks_of_typed (h : forest.Typed) : forest.checkMarks = .ok () := by
  refine (Outcome.forM_eq_ok _ _).2 fun i _ => ?_
  cases hdecl : forest.decl? i with
  | none => rfl
  | some decl =>
    dsimp only
    split
    · rfl
    · rw [Declaration.checkRequirements, if_neg]
      rw [Bool.and_eq_true, Bool.not_eq_true']
      rintro ⟨hconstrained, htext⟩
      have htruthy : decl.requirements.truthy = true := (Bool.and_eq_true _ _ ▸ hconstrained).2
      rw [(h i decl hdecl).requirements.isText_of_truthy htruthy] at htext
      cases htext

theorem checkFragments_of_typed (h : forest.Typed) (visible : List Nat) :
    forest.checkFragments visible = .ok () := by
  rw [checkFragments, if_pos]
  refine List.all_eq_true.2 fun i _ => ?_
  unfold mergeName
  cases hdecl : forest.decl? i with
  | none => rfl
  | some decl =>
    dsimp only
    split
    · exact (h i decl hdecl).usr.isKey
    · rfl

theorem checkModules_of_typed (h : forest.Typed) (items : List Nat) :
    forest.checkModules items = .ok () := by
  rw [checkModules, if_pos]
  refine List.all_eq_true.2 fun i _ => ?_
  unfold moduleOf
  dsimp only
  split
  · exact (fillsIn_typed.docModuleOf h i).isKey
  · rfl

end Forest

/-! ## Records that can be documented -/

theorem Loads.all {records : List Record} {loaded : Loaded} (h : Loads records loaded)
    {P : Declaration → Prop}
    (hP : ∀ record ∈ records, ∀ decl, Declaration.ofRecord record = .ok decl → P decl) :
    loaded.forest.All P := by
  intro i decl hdecl
  obtain ⟨node, hnode, rfl⟩ := Option.map_eq_some_iff.1 hdecl
  have hlt : i < records.length := h.size ▸ Forest.lt_of_node? hnode
  obtain ⟨decl, hread, hnode'⟩ := h.node i _ (List.getElem?_eq_getElem hlt)
  obtain rfl := Option.some.inj (hnode.symm.trans hnode')
  exact hP _ (List.getElem_mem hlt) decl hread

theorem Loads.typed {records : List Record} {loaded : Loaded} (h : Loads records loaded)
    (htyped : ∀ record ∈ records, Record.Typed record) : loaded.forest.Typed :=
  h.all fun record hrecord _ => (htyped record hrecord).declaration

/-- Identifiers are different, containers are known, and no record contains itself, directly or
through others. -/
structure Record.WellFormed (records : List Record) : Prop where
  ids_nodup : (Record.ids records).Nodup
  containers_known : Record.ContainersKnown records
  no_loop : ∀ i, ¬TransGen (Up (Record.containerOf? records)) i i

namespace Forest

variable {config : Config} {inflect : String → String} {records : List Record} {loaded : Loaded}

theorem checkNesting_of_loads (h : Loads records loaded) :
    loaded.forest.checkNesting = .ok () ↔
      ∀ i, ¬TransGen (Up (Record.containerOf? records)) i i := by
  have hparent : loaded.forest.codeParent? = Record.containerOf? records := funext h.codeParent?
  rw [checkNesting_eq_ok, hparent]
  intro i p hp
  rw [hparent] at hp
  rw [h.size]
  exact Record.containerOf?_lt hp

/-- **Behind the check of the nesting nothing fails.** -/
theorem build_of_typed (htyped : ∀ record ∈ records, Record.Typed record)
    (hloaded : (loadRecords records).outcome = .ok loaded)
    (hnesting : loaded.forest.checkNesting = .ok ()) :
    ∃ forest, (build config inflect records).outcome = .ok forest := by
  have hforest := (loadRecords_eq_ok hloaded).typed htyped
  have hcompleted := fillsIn_typed.completed hforest config
  have hconsolidated : (consolidated config loaded).Typed := by
    intro i decl hdecl
    rw [decl?_consolidated] at hdecl
    exact hcompleted i decl hdecl
  exact build_of_checks hloaded hnesting (checkMarks_of_typed hforest)
    (checkFragments_of_typed hcompleted _) (checkModules_of_typed hconsolidated _)

/-- Why a build of typed records has no result. -/
inductive Rejected (records : List Record) : Failure → Prop
  | duplicateId (id : String) (h : ¬(Record.ids records).Nodup) : Rejected records (.duplicateId id)
  | unknownParent (name : Json) (parent : String) (h : ¬Record.ContainersKnown records) :
      Rejected records (.unknownParent name parent)
  | cyclicNesting (name : Json) {i : Nat} (h : TransGen (Up (Record.containerOf? records)) i i) :
      Rejected records (.cyclicNesting name)

theorem Rejected.not_wellFormed {failure : Failure} (h : Rejected records failure) :
    ¬Record.WellFormed records := by
  intro hwell
  cases h with
  | duplicateId _ h => exact h hwell.ids_nodup
  | unknownParent _ _ h => exact h hwell.containers_known
  | cyclicNesting _ h => exact hwell.no_loop _ h

/-- A build of typed records has a result, or is rejected for what the records say of each other. -/
theorem build_of_typed_or_rejected (config : Config) (inflect : String → String)
    (htyped : ∀ record ∈ records, Record.Typed record) :
    (Record.WellFormed records ∧ ∃ forest, (build config inflect records).outcome = .ok forest) ∨
      ∃ failure, (build config inflect records).outcome = .error failure ∧
        Rejected records failure := by
  rcases loadRecords_of_readable fun record hrecord => (htyped record hrecord).readable with
    ⟨loaded, hloaded⟩ | ⟨failure, hfailure, hreason⟩
  · have hloads := loadRecords_eq_ok hloaded
    cases hnesting : loaded.forest.checkNesting with
    | ok =>
      refine .inl ⟨⟨hloads.ids_nodup, hloads.containers_known, ?_⟩,
        build_of_typed htyped hloaded hnesting⟩
      exact (checkNesting_of_loads hloads).1 hnesting
    | error failure =>
      refine .inr ⟨failure, by rw [build_outcome, hloaded, Outcome.ok_bind, hnesting]; rfl, ?_⟩
      obtain ⟨name, rfl⟩ := checkNesting_eq_error hnesting
      have hloop : ¬∀ i, ¬TransGen (Up (Record.containerOf? records)) i i := by
        rw [← checkNesting_of_loads hloads, hnesting]
        exact fun h => nomatch h
      obtain ⟨i, hi⟩ := not_forall_not.1 hloop
      exact .cyclicNesting name hi
  · refine .inr ⟨failure, by rw [build_outcome, hfailure]; rfl, ?_⟩
    rcases hreason with ⟨⟨id, rfl⟩, hnodup⟩ | ⟨⟨name, parent, rfl⟩, hknown⟩
    · exact .duplicateId id hnodup
    · exact .unknownParent name parent hknown

/-- **Typed records are documented exactly if they are well formed.**  In every other case the failure
says what is wrong with them, and nothing fails behind the check of the nesting. -/
theorem build_ok_iff_wellFormed (htyped : ∀ record ∈ records, Record.Typed record) :
    ((∃ forest, (build config inflect records).outcome = .ok forest) ↔ Record.WellFormed records) ∧
      (∀ failure, (build config inflect records).outcome = .error failure →
        Rejected records failure) ∧
      ∀ loaded, (loadRecords records).outcome = .ok loaded → loaded.forest.checkNesting = .ok () →
        ∃ forest, (build config inflect records).outcome = .ok forest := by
  refine ⟨?_, ?_, fun loaded => build_of_typed htyped⟩
  · rcases build_of_typed_or_rejected config inflect htyped with
      ⟨hwell, hok⟩ | ⟨failure, hfailure, hrejected⟩
    · exact iff_of_true hok hwell
    · refine iff_of_false ?_ hrejected.not_wellFormed
      rintro ⟨forest, hok⟩
      rw [hfailure] at hok
      cases hok
  · intro failure hfailure
    rcases build_of_typed_or_rejected config inflect htyped with
      ⟨-, forest, hok⟩ | ⟨failure', hfailure', hrejected⟩
    · rw [hfailure] at hok
      cases hok
    · obtain rfl := Except.error.inj (hfailure.symm.trans hfailure')
      exact hrejected

/-- The records of two fragments are typed and well formed, so that they are documented. -/
theorem build_ok_fragments : (∀ record ∈ fragmentRecords, Record.Typed record) ∧
    Record.WellFormed fragmentRecords ∧
      ∃ forest, (build { modules := ["M"] } id fragmentRecords).outcome = .ok forest := by
  have htyped : ∀ record ∈ fragmentRecords, Record.Typed record := by
    have hreadable : ∀ record ∈ fragmentRecords,
        ((Declaration.ofRecord record).toOption.map fun _ => ()) = some () := by decide +kernel
    intro record hrecord
    obtain ⟨decl, hdecl, -⟩ := Outcome.exists_ok_of_map (hreadable record hrecord)
    simp only [fragmentRecords, List.mem_cons, List.not_mem_nil, or_false] at hrecord
    rcases hrecord with rfl | rfl | rfl | rfl <;>
      exact ⟨⟨decl, hdecl⟩, .inr ⟨_, rfl⟩, .inl rfl, .inl rfl, .inl rfl⟩
  have hwell : Record.WellFormed fragmentRecords := by
    refine ⟨by decide +kernel, by decide +kernel, fun i => Ends.no_loop ?_⟩
    have htop : ∀ i, Record.containerOf? fragmentRecords i = none →
      Ends (Record.containerOf? fragmentRecords) i := fun _ => .top
    match i with
    | 0 => exact htop 0 (by decide +kernel)
    | 1 => exact .step (p := 0) (by decide +kernel) (htop 0 (by decide +kernel))
    | 2 => exact htop 2 (by decide +kernel)
    | 3 => exact .step (p := 2) (by decide +kernel) (htop 2 (by decide +kernel))
    | i + 4 => exact htop (i + 4) rfl
  exact ⟨htyped, hwell, (build_ok_iff_wellFormed htyped).1.2 hwell⟩

end Forest
end DocForest
