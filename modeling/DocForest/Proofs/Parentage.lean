import DocForest.Proofs.Placement
import Mathlib.Data.List.Sort

/-!
# Under which node a member is placed, and in which order

Containers stay what the records say.  In the documentation a member stands under what is left of its
container: under the container itself, or under the node that the container was merged into.  There the
members of the node come first and those of its fragments behind them, fragment by fragment, before hints
move them.

## What is here

* `Forest.keptMembers` — the members of a node that have a place of their own.
* `Consolidated.childrenOf_visible` — the layout that the filter leaves lists all kept members in input
  order; `Consolidated.keptMembers_eq`, `Consolidated.plannedChildren_eq`, what that makes of the kept members
  and of the planned children.
* `Forest.childrenOf_frozen` — the children of a node of the finished forest.
* `Forest.build_follows_containers` — **every member stands under what is left of its container**, and the
  order there.
-/

set_option autoImplicit false

namespace DocForest
namespace Forest

open Relation

variable {config : Config} {inflect : String → String} {records : List Record} {loaded : Loaded}
  {forest other frozen : Forest} {visible : Layout} {c d i p : Nat}

/-! ## Members in input order -/

/-- The kept members of a node that are not merged, in input order. -/
def keptMembers (forest : Forest) (kept : List Nat) (p : Nat) : List Nat :=
  (forest.codeChildren p).filter fun i => kept.contains i && !forest.isMerged i

theorem mem_keptMembers {kept : List Nat} :
    i ∈ forest.keptMembers kept p ↔
      forest.codeParent? i = some p ∧ i ∈ kept ∧ forest.mergedInto? i = none := by
  rw [keptMembers, List.mem_filter, mem_codeChildren, Bool.and_eq_true, List.contains_iff_mem,
    Bool.not_eq_true', isMerged_eq_false]

theorem pairwise_codeChildren (forest : Forest) (p : Nat) :
    (forest.codeChildren p).Pairwise (· < ·) :=
  List.pairwise_lt_range.filter _

theorem pairwise_fragmentsOf (forest : Forest) (p : Nat) :
    (forest.fragmentsOf p).Pairwise (· < ·) :=
  List.pairwise_lt_range.filter _

theorem fragmentsOf_congr (h : other.mergedInto? = forest.mergedInto?) :
    other.fragmentsOf p = forest.fragmentsOf p := by
  refine (other.pairwise_fragmentsOf p).eq_of_mem_iff (forest.pairwise_fragmentsOf p) fun i => ?_
  rw [mem_fragmentsOf, mem_fragmentsOf, h]

theorem plannedChildren_congr (h : other.mergedInto? = forest.mergedInto?) :
    other.plannedChildren visible p = forest.plannedChildren visible p := by
  have hmerged : other.isMerged = forest.isMerged := funext fun i => by
    rw [isMerged_eq, isMerged_eq, h]
  rw [plannedChildren, plannedChildren, fragmentsOf_congr h, hmerged]

/-- A layout lists members in input order. -/
def InInputOrder (visible : Layout) : Prop :=
  ∀ p, (visible.childrenOf p).Pairwise (· < ·)

theorem inInputOrder_visible (forest : Forest) (minLevel : AccessLevel) :
    InInputOrder (forest.visible minLevel) := by
  intro p
  have hcandidates : (forest.candidateLayout.childrenOf p).Pairwise (· < ·) := by
    rw [childrenOf_candidateLayout]
    split
    · exact (forest.pairwise_codeChildren p).filter _
    · exact List.Pairwise.nil
  exact hcandidates.sublist (Layout.childrenOf_filtered_sublist _ _ p)

namespace Consolidated

/-- **A visible node has all its visible members as children, in input order.** -/
theorem childrenOf_visible (h : forest.Consolidated visible) (horder : InInputOrder visible)
    (hp : p ∈ visible.reachable) :
    visible.childrenOf p = (forest.codeChildren p).filter fun i => visible.reachable.contains i := by
  refine (horder p).eq_of_mem_iff ((forest.pairwise_codeChildren p).filter _) fun i => ?_
  rw [List.mem_filter, mem_codeChildren, List.contains_iff_mem]
  constructor
  · intro hi
    exact ⟨h.followsCode.child_codeParent hi, h.followsCode.reachable_of_mem_childrenOf hp hi⟩
  · rintro ⟨hparent, hi⟩
    exact (h.followsCode.container hi hparent).2

theorem keptMembers_eq (h : forest.Consolidated visible) (horder : InInputOrder visible)
    (hp : p ∈ visible.reachable) :
    forest.keptMembers visible.reachable p = (visible.childrenOf p).filter fun i => !forest.isMerged i := by
  rw [h.childrenOf_visible horder hp, keptMembers, List.filter_filter]
  exact List.filter_congr fun i _ => Bool.and_comm _ _

theorem reachable_of_mem_fragments (h : forest.Consolidated visible) (hc : forest.Stands visible c)
    (hp : p ∈ c :: forest.fragmentsOf c) : p ∈ visible.reachable := by
  rcases List.mem_cons.1 hp with rfl | hp
  · exact hc.reachable
  · exact (h.absorbed (mem_fragmentsOf.1 hp)).1

/-- **The planned children of a node are its members and those of its fragments**, one after the
other. -/
theorem plannedChildren_eq (h : forest.Consolidated visible) (horder : InInputOrder visible)
    (hc : forest.Stands visible c) :
    forest.plannedChildren visible c =
      (c :: forest.fragmentsOf c).flatMap (forest.keptMembers visible.reachable) := by
  rw [plannedChildren, List.filter_flatMap]
  exact List.flatMap_congr fun p hp =>
    (h.keptMembers_eq horder (h.reachable_of_mem_fragments hc hp)).symm

end Consolidated

/-! ## The finished forest -/

/-- The children of a node of the records are the planned ones. -/
theorem childrenOf_frozen
    (hfrozen : Frozen (arranged config inflect loaded).2 (arranged config inflect loaded).1 frozen)
    (h : (completed config loaded).Prepared) (hc : frozen.Stands (filtered config loaded) c)
    (hwalk : c ∈ frozen.walk) :
    frozen.childrenOf c = frozen.inOrder (frozen.plannedChildren (filtered config loaded) c) := by
  have htidy := (arranged_grown h inflect).tidy
  have hmerged := mergedInto?_frozen hfrozen
  have hstands : (consolidated config loaded).Stands (filtered config loaded) c :=
    ⟨hc.reachable, hmerged ▸ hc.unmerged⟩
  rw [hfrozen.childrenOf, if_pos ((Layout.mem_reachable_iff htidy.onePlace).2 ((hfrozen.mem_walk htidy).1 hwalk)),
    arranged, childrenOf_grouped inflect config ((consolidated_consolidated h).lt_of_stands hstands), planned,
    childrenOf_plan hstands, inOrder_frozen hfrozen, plannedChildren_congr hmerged]

/-- **Every member stands under what is left of its container**, while its container is the one that
the records name.  A node that is no group lists its own members first and those of its fragments behind
them, all in input order but for their hints. -/
theorem build_follows_containers (h : (build config inflect records).outcome = .ok forest) :
    forest.codeParent? = Record.containerOf? records ∧
      (∀ d ∈ forest.walk, ∀ p, forest.codeParent? d = some p →
        forest.docsParent? d = some (forest.standing p)) ∧
      ∀ c ∈ forest.walk, forest.isGroup c = false →
        forest.childrenOf c = forest.inOrder
          ((c :: forest.fragmentsOf c).flatMap (forest.keptMembers (keptNodes config records))) := by
  obtain ⟨loaded, hbuilt⟩ := built_of_build h
  have hdocuments := documents_of_frozen hbuilt.frozen hbuilt.prepared
  have hchildren : ∀ c, forest.Stands (filtered config loaded) c → c ∈ forest.walk →
      forest.childrenOf c = forest.inOrder (forest.plannedChildren (filtered config loaded) c) :=
    fun c => childrenOf_frozen hbuilt.frozen hbuilt.prepared
  refine ⟨hbuilt.codeParent?, fun d hd p hp => ?_, fun c hc hgroup => ?_⟩
  · have hlt : d < loaded.forest.size := by
      rw [hbuilt.loads.size]
      exact Record.lt_of_containerOf? (hbuilt.codeParent? ▸ hp)
    obtain ⟨hd, hends⟩ := (hdocuments.mem_walk_iff_of_lt hlt).1 hd
    have howner : forest.owner? d = some (forest.standing p) := owner?_eq_some.2 ⟨p, hp, rfl⟩
    have hstands := hdocuments.consolidated.stands_of_owner hd.reachable howner
    have hwalk := hdocuments.mem_walk.2 (.inl ⟨hstands, hends.tail howner⟩)
    rw [← hdocuments.mem_childrenOf, hchildren _ hstands hwalk, mem_inOrder,
      mem_plannedChildren hstands.unmerged]
    exact ⟨hd.unmerged, p, rfl, (hdocuments.consolidated.followsCode.container hd.reachable hp).2⟩
  · have hstands := hdocuments.stands_of_mem_walk hc hgroup
    rw [hchildren c hstands hc, hbuilt.keptNodes_eq,
      hdocuments.consolidated.plannedChildren_eq (inInputOrder_visible _ _) hstands]

/-- A member of an extension stands behind that of the structure, although it comes first in the input. -/
theorem build_follows_containers_fragments : ∃ forest,
    (build { modules := ["M"] } id fragmentRecords).outcome = .ok forest ∧
      forest.codeParent? 1 = some 0 ∧ forest.docsParent? 1 = some 2 ∧
        forest.childrenOf 2 = [3, 1] ∧ forest.childrenOf 2 = forest.inOrder
          ((2 :: forest.fragmentsOf 2).flatMap
            (forest.keptMembers (keptNodes { modules := ["M"] } fragmentRecords))) := by
  obtain ⟨forest, hforest, hwalk, hmerged, -, -, -, -, hchildren, hgroup⟩ := build_fragmentRecords
  obtain ⟨hcontainer, hplace, hmembers⟩ := build_follows_containers hforest
  have hparent : forest.codeParent? 1 = some 0 := by
    rw [hcontainer]
    decide +kernel
  have hdocs := hplace 1 (by simp [hwalk]) 0 hparent
  rw [standing_of_merged hmerged] at hdocs
  exact ⟨forest, hforest, hparent, hdocs, hchildren, hmembers 2 (by simp [hwalk]) hgroup⟩

end Forest
end DocForest
