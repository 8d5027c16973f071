import DocForest.Build.DocModules
import DocForest.Build.Groups
import DocForest.Build.Levels
import DocForest.Build.Marks
import DocForest.Layout.Prune
import DocForest.Text.Plural

/-!
# From records to the documentation forest

1. Every record becomes a node and is linked to its container, and the nesting is checked.
2. Documented modules, section marks and the levels of extensions are filled in.
3. What is below the least access level goes away with everything under it.
4. The fragments of one type are merged.
5. The documentation is planned, grouped by module and category, and its links are written.

## What is here

* `Forest.completed` — the second step.
* `Forest.visibleLayout` — the third step.
* `Forest.freeze` — the links of a layout, written into the forest.
* `Forest.build` — all steps.
-/

set_option autoImplicit false

namespace DocForest
namespace Forest

/-- The forest with modules, marks and levels filled in. -/
def completed (config : Config) (loaded : Loaded) : Forest :=
  ((loaded.forest.fillModules config).assignMarks).deriveLevels loaded.implicit

/-- The candidates that the access filter leaves. -/
def visibleLayout (config : Config) (forest : Forest) : Logged Layout :=
  forest.candidateLayout.prune forest config.minLevel

/-- Writes the children of one node, if a layout gives it any. -/
def freezeNode (layout : Layout) (forest : Forest) (i : Nat) : Except Failure Forest :=
  let children := layout.childrenOf i
  if children.isEmpty then .ok forest else forest.setChildren i children

/-- Writes the links of a layout into the forest. -/
def freeze (forest : Forest) (layout : Layout) : Except Failure Forest := do
  let linked ← layout.reachable.foldlM (freezeNode layout) forest
  linked.setRoots layout.roots

/-- The documentation forest of a list of records. -/
def build (config : Config) (inflect : String → String) (records : List Record) :
    Logged Forest := do
  let loaded ← loadRecords records
  Logged.ofExcept loaded.forest.checkNesting
  Logged.ofExcept loaded.forest.checkMarks
  let forest := completed config loaded
  let visible ← visibleLayout config forest
  Logged.ofExcept (forest.checkFragments visible.reachable)
  Logged.reportAll (forest.mergeEvents visible.reachable)
  let merged := forest.merged visible.reachable
  let plan := merged.plan visible
  Logged.ofExcept (merged.checkModules (merged.itemRoots plan))
  Logged.reportAll (groupEvents config merged plan)
  let (grouped, layout) := grouped inflect config merged plan
  let frozen ← Logged.ofExcept (grouped.freeze layout)
  Logged.report (.built frozen.size layout.roots.length)
  return frozen

end Forest
end DocForest
