import DocForest.Proofs.Placement

/-!
# What the documentation discloses

The members of a merged fragment are shown under another node, which may be more visible than the
fragment.  Nothing that the fragment hides comes into view that way: what the filter takes away goes
away with everything under it, and merging starts from what is left.

## What is here

* `Documents.reachable_of_mem_walk` — what is shown has been left by the filter.
* `Forest.build_admits_containers` — **every container of a node that is shown may be shown itself.**
-/

set_option autoImplicit false

namespace DocForest
namespace Forest

open Relation

variable {config : Config} {inflect : String → String} {records : List Record}
  {forest : Forest} {minLevel : AccessLevel} {visible : Layout} {count i j : Nat}

namespace Documents

theorem reachable_of_mem_walk (h : Documents minLevel visible count forest)
    (hi : i ∈ forest.walk) (hlt : i < count) : i ∈ visible.reachable :=
  ((h.mem_walk_iff_of_lt hlt).1 hi).1.reachable

end Documents

/-- **A node that is shown stands in containers that may be shown**: the path that leads to it consists
of the node and all containers that the records name, and all of them are candidates that are marks
or reach the least level. -/
theorem build_admits_containers (h : (build config inflect records).outcome = .ok forest)
    (hi : i ∈ forest.walk) (hrecord : i < records.length) :
    (∀ j, j ∈ forest.namespacePath i ↔ ReflTransGen (Up (Record.containerOf? records)) i j) ∧
      ∀ j ∈ forest.namespacePath i, forest.Admitted config.minLevel j := by
  have hdocuments := documents_of_build h
  have hpath : ∀ j, j ∈ forest.namespacePath i ↔ ReflTransGen (Up forest.codeParent?) i j :=
    fun j => hdocuments.mem_namespacePath (Nat.lt_of_lt_of_le hrecord hdocuments.count_le)
  rw [← codeParent?_of_build h]
  refine ⟨hpath, fun j hj => hdocuments.admitted ?_⟩
  exact hdocuments.consolidated.followsCode.above (hdocuments.reachable_of_mem_walk hi hrecord)
    ((hpath j).1 hj)

/-- A member of an extension is shown under a structure, and the extension may be shown as well. -/
theorem build_admits_extension : ∃ forest,
    (build { modules := ["M"] } id fragmentRecords).outcome = .ok forest ∧
      forest.owner? 1 = some 2 ∧ 1 ∈ forest.walk ∧ 0 ∈ forest.namespacePath 1 ∧
        forest.Admitted .publicLevel 0 := by
  obtain ⟨forest, hforest, hwalk, -, -, howner, -⟩ := build_fragmentRecords
  have hmem : 1 ∈ forest.walk := by simp [hwalk]
  have hparent : Record.containerOf? fragmentRecords 1 = some 0 := by decide +kernel
  obtain ⟨hpath, hadmitted⟩ := build_admits_containers hforest hmem (by decide)
  have hext := (hpath 0).2 (.single hparent)
  exact ⟨forest, hforest, howner, hmem, hext, hadmitted 0 hext⟩

end Forest
end DocForest
