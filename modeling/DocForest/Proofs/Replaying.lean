import DocForest.Proofs.Families
import DocForest.Proofs.Locating

/-!
# The same build under new numbers

Once modules, sections and levels agree and the access filter leaves the same nodes, nothing that comes after
can tell two builds apart: the checks find the same, the same fragments are merged, and the same plan is
grouped and frozen.

## What is here

* `Relabels.nested`, `Relabels.checkNesting`, `Relabels.checkMarks` — what passes the first checks does so in part.
* `Forest.Replays` — two builds that agree behind the access filter; `Replays.checks`, what the later checks
  find, and `Replays.sameTree`, **what the builds give**.
-/

set_option autoImplicit false

namespace DocForest
namespace Forest

open Relation

variable {config : Config} {inflect : String → String} {loaded loaded' : Loaded}
  {part whole frozen frozen' : Forest} {e : Nat → Nat}

/-! ## The checks of a part -/

theorem Relabels.nested (h : Relabels e part whole) (hwhole : whole.Nested) : part.Nested where
  container_lt hp := h.lt_iff.1 (hwhole.container_lt (h.container_iff.2 hp))
  no_loop i hloop := hwhole.no_loop (e i) (hloop.lift e fun _ _ hp => h.container_iff.2 hp)

theorem Relabels.checkNesting (h : Relabels e part whole) (hwhole : whole.Nested) :
    part.checkNesting = .ok () := by
  have hpart := h.nested hwhole
  exact (checkNesting_eq_ok fun _ _ => hpart.container_lt).2 hpart.no_loop

/-- Its extensions with members state requirements as texts if those of the whole do. -/
theorem Relabels.checkMarks (h : Relabels e part whole) (hwhole : whole.checkMarks = .ok ()) :
    part.checkMarks = .ok () := by
  rw [Forest.checkMarks, Outcome.forM_eq_ok] at hwhole ⊢
  intro i hi
  have hcheck := hwhole (e i) (List.mem_range.2 (h.lt_iff.2 (List.mem_range.1 hi)))
  rw [h.decl?] at hcheck
  cases hdecl : part.decl? i with
  | none => rfl
  | some decl =>
    rw [hdecl] at hcheck
    dsimp only at hcheck ⊢
    split
    · rfl
    · next hmembers =>
      rw [List.isEmpty_iff] at hmembers
      obtain ⟨c, hc⟩ := List.exists_mem_of_ne_nil _ hmembers
      have hmember : e c ∈ whole.codeChildren (e i) :=
        mem_codeChildren.2 (h.container_iff.2 (mem_codeChildren.1 hc))
      rwa [if_neg fun hempty => List.ne_nil_of_mem hmember (List.isEmpty_iff.1 hempty)] at hcheck

/-! ## Two builds -/

/-- Two builds that agree behind the access filter: the nodes of `loaded'` are nodes of `loaded` under new
numbers, with the same modules, sections and levels, and the filter leaves the same of both. -/
structure Replays (config : Config) (e : Nat → Nat) (loaded' loaded : Loaded) : Prop where
  prepared : (completed config loaded').Prepared
  prepared' : (completed config loaded).Prepared
  relabels : Relabels e (completed config loaded') (completed config loaded)
  filtered : Layout.Renumbers e (filtered config loaded') (filtered config loaded)

namespace Replays

variable (h : Replays config e loaded' loaded)

include h

theorem mem_reachable (j : Nat) :
    j ∈ (Forest.filtered config loaded).reachable ↔
      ∃ i ∈ (Forest.filtered config loaded').reachable, e i = j := by
  simp only [Forest.filtered, (visible_followsCode _ _).mem_reachable_iff]
  exact h.filtered.below_iff

theorem consolidated : SameMerging e (consolidated config loaded') (Forest.consolidated config loaded) :=
  h.relabels.merged h.prepared h.prepared' h.mem_reachable

theorem planned : Layout.Copies e (planned config loaded') (Forest.planned config loaded) :=
  h.consolidated.plan h.filtered h.mem_reachable

/-- **One build passes the checks** that the other one passes. -/
theorem checks
    (hfragments : (completed config loaded).checkFragments (Forest.filtered config loaded).reachable =
      .ok ())
    (hmodules : (Forest.consolidated config loaded).checkModules
      ((Forest.consolidated config loaded).itemRoots (Forest.planned config loaded)) = .ok ()) :
    (completed config loaded').checkFragments (Forest.filtered config loaded').reachable = .ok () ∧
      (Forest.consolidated config loaded').checkModules
        ((Forest.consolidated config loaded').itemRoots (Forest.planned config loaded')) = .ok () := by
  refine ⟨h.relabels.checkFragments h.prepared.toNested h.mem_reachable hfragments, ?_⟩
  rwa [h.consolidated.toRelabels.itemRoots h.planned, h.consolidated.toRelabels.checkModules] at hmodules

/-- **Both builds give the same documentation.** -/
theorem sameTree
    (hfrozen : Frozen (arranged config inflect loaded').2 (arranged config inflect loaded').1 frozen)
    (hfrozen' : Frozen (arranged config inflect loaded).2 (arranged config inflect loaded).1 frozen') :
    SameTree e frozen frozen' := by
  obtain ⟨harranged, hcopies⟩ := h.consolidated.toRelabels.grouped h.planned inflect config
  have hplaces := harranged.frozen hcopies.renumbers hfrozen hfrozen' (arranged_grown h.prepared inflect).tidy
    (arranged_grown h.prepared' inflect).tidy
  refine { hplaces with
    mergedInto? := fun i => ?_
    isUndocumentedBase := fun i => ?_
    mergedInto?_others := fun j hj => ?_
    isUndocumentedBase_others := fun j hj => ?_
    isFragment := fun {i j} hmerged => ?_ }
  · rw [mergedInto?_frozen hfrozen, mergedInto?_frozen hfrozen', h.consolidated.mergedInto?]
  · rw [isUndocumentedBase_frozen hfrozen, isUndocumentedBase_frozen hfrozen',
      h.consolidated.isUndocumentedBase]
  · rw [mergedInto?_frozen hfrozen', h.consolidated.mergedInto?_others j hj]
  · rw [isUndocumentedBase_frozen hfrozen', h.consolidated.isUndocumentedBase_others j hj]
  · rw [mergedInto?_frozen hfrozen] at hmerged
    have hfragment := h.consolidated.isFragment hmerged
    have hlt : i < loaded'.forest.size := by
      rw [← size_consolidated config]
      exact lt_of_satisfies hfragment
    rwa [satisfies, decl?_frozen hfrozen hlt, ← decl?_consolidated]

end Replays
end Forest
end DocForest
