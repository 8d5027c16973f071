import DocForest.Proofs.Completion
import DocForest.Proofs.Filtering
import DocForest.Proofs.Freezing
import DocForest.Proofs.Planning

/-!
# The documentation forest as a whole

The steps behind the loading are put together here.  What they make of some records is described by
the layout that the access filter leaves, in terms of the finished forest alone.

## What is here

* `Forest.filtered`, `Forest.consolidated`, `Forest.planned`, `Forest.arranged` — the forest and the
  layout between the steps.
* `Forest.build_outcome` — the steps one after the other, without what they report.
* `Forest.keptLayout`, `Forest.keptNodes` — what the access filter leaves of some records.
* `Forest.Documents` — what is known of the finished forest, `Forest.documents_of_build` — **every
  forest that is built is of this kind**.
* `Forest.Built`, `Forest.built_of_build` — the forests between the steps of a build.
* `Forest.build_of_checks` — a build whose checks succeed has a result.
-/

set_option autoImplicit false

namespace DocForest
namespace Forest

open Relation

variable {config : Config} {inflect : String → String} {records : List Record} {loaded : Loaded}
  {forest other bigger frozen : Forest} {visible : Layout} {i p c : Nat}

/-! ## Between the steps -/

/-- What the access filter leaves of a loaded forest. -/
def filtered (config : Config) (loaded : Loaded) : Layout :=
  (completed config loaded).visible config.minLevel

/-- The forest with the fragments of every type merged. -/
def consolidated (config : Config) (loaded : Loaded) : Forest :=
  (completed config loaded).merged (filtered config loaded).reachable

/-- The plan before it is grouped. -/
def planned (config : Config) (loaded : Loaded) : Layout :=
  (consolidated config loaded).plan (filtered config loaded)

/-- The forest and the layout with the groups of all modules. -/
def arranged (config : Config) (inflect : String → String) (loaded : Loaded) : Forest × Layout :=
  grouped inflect config (consolidated config loaded) (planned config loaded)

/-- **The outcome of a build is that of its steps.** -/
theorem build_outcome (config : Config) (inflect : String → String) (records : List Record) :
    (build config inflect records).outcome = (do
      let loaded ← (loadRecords records).outcome
      loaded.forest.checkNesting
      loaded.forest.checkMarks
      (completed config loaded).checkFragments (filtered config loaded).reachable
      let forest := consolidated config loaded
      forest.checkModules (forest.itemRoots (planned config loaded))
      (arranged config inflect loaded).1.freeze (arranged config inflect loaded).2) := by
  have hvisible : ∀ loaded, (visibleLayout config (completed config loaded)).outcome =
      .ok (filtered config loaded) := fun loaded => visibleLayout_outcome config _
  simp only [build, Logged.outcome_bind, Logged.outcome_ofExcept, Logged.outcome_reportAll,
    Logged.outcome_report, Logged.outcome_pure, hvisible, Outcome.ok_bind]
  refine bind_congr fun loaded => bind_congr fun _ => bind_congr fun _ => bind_congr fun _ =>
    bind_congr fun _ => ?_
  exact bind_pure _

/-! ## The forest with fragments merged -/

theorem decl?_consolidated (config : Config) (loaded : Loaded) (i : Nat) :
    (consolidated config loaded).decl? i = (completed config loaded).decl? i :=
  view_merged fun _ _ _ => rfl

theorem codeParent?_consolidated (config : Config) (loaded : Loaded) :
    (consolidated config loaded).codeParent? = (completed config loaded).codeParent? :=
  codeParent?_congr fun _ => view_merged fun _ _ _ => rfl

theorem size_consolidated (config : Config) (loaded : Loaded) :
    (consolidated config loaded).size = loaded.forest.size := by
  rw [consolidated, size_merged, size_completed]

theorem Admitted.congr {minLevel : AccessLevel} (h : forest.Admitted minLevel i)
    (hdecl : other.decl? i = forest.decl? i) : other.Admitted minLevel i where
  candidate := by
    rw [isCandidate, satisfies, hdecl]
    exact h.candidate
  level hmark decl hother := by
    rw [isMark, satisfies, hdecl] at hmark
    exact h.level hmark decl (hdecl ▸ hother)

theorem followsCode_congr (h : visible.FollowsCode forest) (hsize : forest.size ≤ other.size)
    (hparent : other.codeParent? = forest.codeParent?) : visible.FollowsCode other where
  roots_nodup := h.roots_nodup
  children_nodup := h.children_nodup
  root_lt hi := Nat.lt_of_lt_of_le (h.root_lt hi) hsize
  root_codeParent hi := by rw [hparent, h.root_codeParent hi]
  child_codeParent hi := by rw [hparent, h.child_codeParent hi]

theorem Consolidated.congr (h : forest.Consolidated visible) (hsize : forest.size ≤ other.size)
    (hparent : other.codeParent? = forest.codeParent?)
    (hmerged : other.mergedInto? = forest.mergedInto?) : other.Consolidated visible where
  followsCode := followsCode_congr h.followsCode hsize hparent
  absorbed {i j} hj := by
    rw [hmerged] at hj ⊢
    exact h.absorbed hj

theorem lt_size_of_mem_filtered (hi : i ∈ (filtered config loaded).reachable) : i < loaded.forest.size := by
  rw [← size_completed config]
  exact (visible_followsCode _ _).lt_size hi

/-- **Merging leaves a forest that can be planned.** -/
theorem consolidated_consolidated (h : (completed config loaded).Prepared) :
    (consolidated config loaded).Consolidated (filtered config loaded) where
  followsCode := followsCode_congr (visible_followsCode _ _)
    (Nat.le_of_eq (size_merged _ _).symm) (codeParent?_consolidated config loaded)
  absorbed hj := absorbed_merged h.mergedInto hj

theorem planned_tidy (h : (completed config loaded).Prepared) :
    (planned config loaded).Tidy (consolidated config loaded).size where
  onePlace := (consolidated_consolidated h).onePlace_plan
  within := (consolidated_consolidated h).plan_within

/-- The roots of the plan are candidates and no marks, so that guides apart they have categories. -/
theorem categoryLabel?_of_root (h : (completed config loaded).Prepared)
    (hi : i ∈ (planned config loaded).roots)
    (hguide : (consolidated config loaded).isGuide i = false) :
    ((consolidated config loaded).categoryLabel? i).isSome = true := by
  have hroot := (consolidated_consolidated h).mem_roots_plan.1 hi
  have hvisible := (consolidated_consolidated h).followsCode.mem_roots hroot.1.reachable
    (owner?_eq_none.1 hroot.2)
  obtain ⟨hcandidate, -, hmark⟩ :=
    mem_roots_candidateLayout.1 ((Filter.keptOf_sublist _ _ _ _).subset hvisible)
  refine isSome_categoryLabel? ?_ ?_ hguide
  · rwa [isCandidate, satisfies, decl?_consolidated]
  · rwa [isMark, satisfies, decl?_consolidated]

/-! ## Adding groups -/

/-- What a group does not show of itself is the same for all nodes of the larger forest. -/
theorem Enlarged.view_getD {β : Type} {read : Node → β} {fallback : β} (h : forest.Enlarged bigger)
    (hread : ∀ decl, GroupsOthers decl → read { decl } = fallback) (i : Nat) :
    (bigger.view read i).getD fallback = (forest.view read i).getD fallback := by
  by_cases hi : i < forest.size
  · rw [view, view, h.kept i hi]
  · have hnone := (forest.node?_eq_none_iff i).2 (Nat.not_lt.1 hi)
    rw [view, view, hnone]
    by_cases hlt : i < bigger.size
    · obtain ⟨decl, hdecl, hgroup⟩ := h.group i (Nat.not_lt.1 hi) hlt
      rw [hdecl, Option.map_some, hread decl hgroup]
      rfl
    · rw [(bigger.node?_eq_none_iff i).2 (Nat.not_lt.1 hlt)]

theorem inOrder_congr (hmark : other.isMark = forest.isMark) (hhint : other.hintOf = forest.hintOf) :
    other.inOrder = forest.inOrder := by
  funext siblings
  rw [inOrder, inOrder, hmark, hhint]

/-- Groups are no marks and have no hints, so that they do not change how siblings are ordered. -/
theorem Enlarged.inOrder (h : forest.Enlarged bigger) : bigger.inOrder = forest.inOrder := by
  refine inOrder_congr (funext fun i => ?_) (funext fun i => ?_)
  · rw [isMark, isMark, satisfies_eq_view, satisfies_eq_view]
    refine h.view_getD ?_ i
    rintro decl ⟨name, addressName, docModule, rfl⟩
    rfl
  · rw [hintOf_eq_view, hintOf_eq_view]
    refine h.view_getD ?_ i
    rintro decl ⟨name, addressName, docModule, rfl⟩
    rfl

theorem Enlarged.fresh (h : forest.Enlarged bigger) (hfresh : forest.Fresh) : bigger.Fresh where
  docsParent i := by
    rw [docsParent?_eq_view, h.view_getD (fun _ _ => rfl), ← docsParent?_eq_view, hfresh.docsParent]
  childList i := by
    rw [childList?_eq_view, h.view_getD (fun _ _ => rfl), ← childList?_eq_view, hfresh.childList]
  roots := h.roots.trans hfresh.roots

theorem Prepared.fresh (h : (completed config loaded).Prepared) :
    (consolidated config loaded).Fresh where
  docsParent i := by
    rw [docsParent?_eq_view, consolidated, view_merged fun _ _ _ => rfl, ← docsParent?_eq_view,
      h.docsParent]
  childList i := by
    rw [childList?_eq_view, consolidated, view_merged fun _ _ _ => rfl, ← childList?_eq_view,
      h.childList]
  roots := (congrArg Prod.snd (bounds_merged _ _)).trans h.roots

theorem arranged_grown (h : (completed config loaded).Prepared) (inflect : String → String) :
    (planned config loaded).Grown (consolidated config loaded).size
      (arranged config inflect loaded).2 (arranged config inflect loaded).1.size :=
  grown_grouped inflect config (planned_tidy h) fun _ => categoryLabel?_of_root h

theorem arranged_enlarged (config : Config) (inflect : String → String) (loaded : Loaded) :
    (consolidated config loaded).Enlarged (arranged config inflect loaded).1 :=
  enlarged_grouped inflect config _ _

/-- **Freezing never fails**, whatever was loaded without a loop. -/
theorem freeze_of_prepared (h : (completed config loaded).Prepared) (inflect : String → String) :
    ∃ frozen, (arranged config inflect loaded).1.freeze (arranged config inflect loaded).2 =
        .ok frozen ∧
      Frozen (arranged config inflect loaded).2 (arranged config inflect loaded).1 frozen :=
  freeze_eq_ok (arranged_grown h inflect).tidy ((arranged_enlarged config inflect loaded).fresh h.fresh)

/-! ## The finished forest -/

/-- The layout that the access filter leaves of some records. -/
def keptLayout (config : Config) (records : List Record) : Layout :=
  match (loadRecords records >>= fun loaded => visibleLayout config (completed config loaded)).outcome with
  | .ok visible => visible
  | .error _ => {}

/-- The nodes that the access filter keeps of some records. -/
def keptNodes (config : Config) (records : List Record) : List Nat :=
  (keptLayout config records).reachable

theorem keptLayout_eq (h : (loadRecords records).outcome = .ok loaded) :
    keptLayout config records = filtered config loaded := by
  have houtcome := visibleLayout_outcome config (completed config loaded)
  rw [keptLayout, Logged.outcome_bind, h, Outcome.ok_bind, houtcome]
  rfl

/-- A documentation forest of `count` records, of which the access filter leaves `visible`.  Behind
the records stand the groups. -/
structure Documents (minLevel : AccessLevel) (visible : Layout) (count : Nat) (forest : Forest) :
    Prop extends Nested forest where
  consolidated : forest.Consolidated visible
  admitted : ∀ {i}, i ∈ visible.reachable → forest.Admitted minLevel i
  count_le : count ≤ forest.size
  lt_count : ∀ {i}, i ∈ visible.reachable → i < count
  group : ∀ {i}, count ≤ i → i < forest.size → forest.isGroup i = true
  nodup_walk : forest.walk.Nodup
  mem_walk : ∀ {i}, i ∈ forest.walk ↔
    forest.Stands visible i ∧ Ends forest.owner? i ∨ count ≤ i ∧ i < forest.size
  mem_childrenOf : ∀ {p c}, c ∈ forest.childrenOf p ↔ forest.docsParent? c = some p
  docsParent_root : ∀ {i}, i ∈ forest.rootList → forest.docsParent? i = none
  ends_docsParent : ∀ i, Ends forest.docsParent? i
  mem_walk_of_root : ∀ {i}, i ∈ forest.rootList → i ∈ forest.walk
  mem_walk_of_child : ∀ {p c}, c ∈ forest.childrenOf p → c ∈ forest.walk

section Finished

variable (hfrozen : Frozen (arranged config inflect loaded).2 (arranged config inflect loaded).1 frozen)

include hfrozen

theorem size_frozen : frozen.size = (arranged config inflect loaded).1.size :=
  hfrozen.size

theorem size_le_frozen : (completed config loaded).size ≤ frozen.size := by
  rw [size_frozen hfrozen, size_completed, ← size_consolidated config]
  exact (arranged_enlarged config inflect loaded).size_le

/-- Neither links nor groups show in what only other parts of a node show. -/
theorem view_frozen {β : Type} {read : Node → β} {fallback : β} (hread : Unlinked read)
    (hgroup : ∀ decl, GroupsOthers decl → read { decl } = fallback) (i : Nat) :
    (frozen.view read i).getD fallback = ((consolidated config loaded).view read i).getD fallback := by
  rw [hfrozen.view hread]
  exact (arranged_enlarged config inflect loaded).view_getD hgroup i

theorem codeParent?_frozen : frozen.codeParent? = (completed config loaded).codeParent? := by
  rw [← codeParent?_consolidated]
  funext i
  simp only [codeParent?_eq_view]
  exact view_frozen hfrozen (fun _ _ _ => rfl) (fun _ _ => rfl) i

theorem mergedInto?_frozen : frozen.mergedInto? = (consolidated config loaded).mergedInto? := by
  funext i
  simp only [mergedInto?_eq_view]
  exact view_frozen hfrozen (fun _ _ _ => rfl) (fun _ _ => rfl) i

theorem isUndocumentedBase_frozen :
    frozen.isUndocumentedBase i = (consolidated config loaded).isUndocumentedBase i := by
  simp only [isUndocumentedBase_eq_view]
  exact view_frozen hfrozen (fun _ _ _ => rfl) (fun _ _ => rfl) i

theorem decl?_frozen (hi : i < loaded.forest.size) :
    frozen.decl? i = (completed config loaded).decl? i := by
  rw [← size_consolidated config] at hi
  rw [decl?_eq_view, hfrozen.view fun _ _ _ => rfl, view,
    (arranged_enlarged config inflect loaded).kept i hi, ← decl?_consolidated]
  rfl

theorem isGroup_frozen (hle : loaded.forest.size ≤ i) (hlt : i < frozen.size) :
    frozen.isGroup i = true := by
  rw [← size_consolidated config] at hle
  rw [size_frozen hfrozen] at hlt
  obtain ⟨decl, hnode, hgroup⟩ := (arranged_enlarged config inflect loaded).group i hle hlt
  have hdecl : frozen.decl? i = some decl := by
    rw [decl?_eq_view, hfrozen.view fun _ _ _ => rfl, view, hnode]
    rfl
  obtain ⟨name, addressName, docModule, rfl⟩ := hgroup
  rw [isGroup, satisfies, hdecl]
  rfl

theorem inOrder_frozen : frozen.inOrder = (consolidated config loaded).inOrder := by
  rw [← (arranged_enlarged config inflect loaded).inOrder]
  refine inOrder_congr (funext fun i => satisfies_congr (hfrozen.view (fun _ _ _ => rfl) i)) (funext fun i => ?_)
  rw [hintOf_eq_view, hfrozen.view fun _ _ _ => rfl, ← hintOf_eq_view]

theorem consolidated_frozen (h : (completed config loaded).Prepared) :
    frozen.Consolidated (filtered config loaded) := by
  refine (consolidated_consolidated h).congr ?_ ?_ (mergedInto?_frozen hfrozen)
  · rw [size_frozen hfrozen]
    exact (arranged_enlarged config inflect loaded).size_le
  · rw [codeParent?_frozen hfrozen, codeParent?_consolidated]

/-- The walk meets what the plan reaches, and the groups. -/
theorem mem_walk_frozen (h : (completed config loaded).Prepared) :
    i ∈ frozen.walk ↔
      frozen.Stands (filtered config loaded) i ∧ Ends frozen.owner? i ∨
        loaded.forest.size ≤ i ∧ i < frozen.size := by
  have howner : frozen.owner? = (consolidated config loaded).owner? := by
    funext i
    rw [owner?, owner?, codeParent?_frozen hfrozen, codeParent?_consolidated]
    refine congrArg (fun f => Option.map f _) (funext fun p => ?_)
    rw [standing, standing, mergedInto?_frozen hfrozen]
  have hstands : frozen.Stands (filtered config loaded) i ↔
      (consolidated config loaded).Stands (filtered config loaded) i := by
    have hmerged := congrFun (mergedInto?_frozen hfrozen) i
    exact ⟨fun hi => ⟨hi.reachable, hmerged ▸ hi.unmerged⟩,
      fun hi => ⟨hi.reachable, hmerged.trans hi.unmerged⟩⟩
  rw [hfrozen.mem_walk (arranged_grown h inflect).tidy, (arranged_grown h inflect).below_iff,
    planned, (consolidated_consolidated h).below_plan_iff, size_consolidated, ← size_frozen hfrozen,
    howner, hstands]

/-- **What is frozen documents the records.** -/
theorem documents_of_frozen (h : (completed config loaded).Prepared) :
    Documents config.minLevel (filtered config loaded) loaded.forest.size frozen where
  toNested := h.toNested.congr (codeParent?_frozen hfrozen) (size_le_frozen hfrozen)
  consolidated := consolidated_frozen hfrozen h
  admitted hi := (admitted_of_reachable hi).congr (decl?_frozen hfrozen (lt_size_of_mem_filtered hi))
  count_le := by
    rw [← size_completed config]
    exact size_le_frozen hfrozen
  lt_count := lt_size_of_mem_filtered
  group := isGroup_frozen hfrozen
  nodup_walk := hfrozen.nodup_walk (arranged_grown h inflect).tidy
  mem_walk := mem_walk_frozen hfrozen h
  mem_childrenOf := hfrozen.mem_childrenOf_iff
  ends_docsParent := hfrozen.ends_docsParent (arranged_grown h inflect).tidy
  docsParent_root {i} hi := by
    rw [hfrozen.rootList] at hi
    rw [Option.eq_none_iff_forall_ne_some]
    exact fun p hp =>
      (arranged_grown h inflect).tidy.onePlace.root_free hi (hfrozen.docsParent.1 hp).2
  mem_walk_of_root hi := by
    rw [hfrozen.rootList] at hi
    exact (hfrozen.mem_walk (arranged_grown h inflect).tidy).2 (.start hi)
  mem_walk_of_child hc := by
    obtain ⟨hp, hc⟩ := hfrozen.docsParent.1 (hfrozen.mem_childrenOf_iff.1 hc)
    have hplace := (arranged_grown h inflect).tidy.onePlace
    exact (hfrozen.mem_walk (arranged_grown h inflect).tidy).2
      (.child ((Layout.mem_reachable_iff hplace).1 hp) hc)

end Finished

/-! ## Every build -/

/-- What the steps of a build that has a result made of the records, one after the other. -/
structure Built (config : Config) (inflect : String → String) (records : List Record)
    (loaded : Loaded) (forest : Forest) : Prop where
  load : (loadRecords records).outcome = .ok loaded
  nesting : loaded.forest.checkNesting = .ok ()
  marks : loaded.forest.checkMarks = .ok ()
  fragments : (completed config loaded).checkFragments (filtered config loaded).reachable = .ok ()
  modules : (consolidated config loaded).checkModules
    ((consolidated config loaded).itemRoots (planned config loaded)) = .ok ()
  frozen : Frozen (arranged config inflect loaded).2 (arranged config inflect loaded).1 forest

namespace Built

theorem loads (h : Built config inflect records loaded forest) : Loads records loaded :=
  loadRecords_eq_ok h.load

theorem prepared (h : Built config inflect records loaded forest) :
    (completed config loaded).Prepared :=
  h.loads.prepared h.nesting config

theorem keptLayout_eq (h : Built config inflect records loaded forest) :
    keptLayout config records = filtered config loaded :=
  Forest.keptLayout_eq h.load

theorem keptNodes_eq (h : Built config inflect records loaded forest) :
    keptNodes config records = (filtered config loaded).reachable := by
  rw [keptNodes, h.keptLayout_eq]

/-- The containers of the finished forest are those that the records name. -/
theorem codeParent? (h : Built config inflect records loaded forest) :
    forest.codeParent? = Record.containerOf? records := by
  rw [codeParent?_frozen h.frozen, codeParent?_completed]
  exact funext h.loads.codeParent?

end Built

/-- **A build that has a result ran through all its steps.** -/
theorem built_of_build (h : (build config inflect records).outcome = .ok forest) :
    ∃ loaded, Built config inflect records loaded forest := by
  simp only [build_outcome, Outcome.bind_eq_ok, Outcome.exists_check] at h
  obtain ⟨loaded, hload, hnesting, hmarks, hfragments, hmodules, hfreeze⟩ := h
  have hprepared := (loadRecords_eq_ok hload).prepared hnesting config
  obtain ⟨frozen, hok, hfrozen⟩ := freeze_of_prepared hprepared inflect
  obtain rfl := Except.ok.inj (hok.symm.trans hfreeze)
  exact ⟨loaded, hload, hnesting, hmarks, hfragments, hmodules, hfrozen⟩

/-- **A build that has a result documents its records.** -/
theorem documents_of_build (h : (build config inflect records).outcome = .ok forest) :
    Documents config.minLevel (keptLayout config records) records.length forest := by
  obtain ⟨loaded, hbuilt⟩ := built_of_build h
  rw [hbuilt.keptLayout_eq, ← hbuilt.loads.size]
  exact documents_of_frozen hbuilt.frozen hbuilt.prepared

theorem codeParent?_of_build (h : (build config inflect records).outcome = .ok forest) :
    forest.codeParent? = Record.containerOf? records := by
  obtain ⟨loaded, hbuilt⟩ := built_of_build h
  exact hbuilt.codeParent?

/-- **A build whose checks succeed has a result.** -/
theorem build_of_checks (hloaded : (loadRecords records).outcome = .ok loaded)
    (hnesting : loaded.forest.checkNesting = .ok ()) (hmarks : loaded.forest.checkMarks = .ok ())
    (hfragments : (completed config loaded).checkFragments (filtered config loaded).reachable = .ok ())
    (hmodules : (consolidated config loaded).checkModules
      ((consolidated config loaded).itemRoots (planned config loaded)) = .ok ()) :
    ∃ forest, (build config inflect records).outcome = .ok forest := by
  have hprepared := (loadRecords_eq_ok hloaded).prepared hnesting config
  obtain ⟨frozen, hok, -⟩ := freeze_of_prepared hprepared inflect
  refine ⟨frozen, ?_⟩
  simp only [build_outcome, Outcome.bind_eq_ok, Outcome.exists_check]
  exact ⟨loaded, hloaded, hnesting, hmarks, hfragments, hmodules, hok⟩

end Forest
end DocForest
