import DocForest.Build.Plan
import DocForest.Config.Basic

/-!
# Grouping by module and category

What stands outside all containers is grouped: every module gets a root, and under it one group for
every category of declarations in it.  Guides stand in front of the modules.

The sections are computed first, without touching the forest.  Their nodes are then added behind all
others, for every section first its categories and then its root, so that the index of each follows
from the size of the forest.

## What is here

* `Category`, `ModuleSection` — the groups before they have nodes.
* `Forest.categoryOf?` — the kind whose category lists a declaration.
* `Forest.checkModules` — that the module of everything to be grouped can name a group.
* `Forest.moduleSections` — the sections of all modules.
* `Forest.grouped`, `Forest.groupEvents` — the forest and the layout with a node for every group,
  and what is reported of them.
-/

set_option autoImplicit false

namespace DocForest

/-- The declarations of one category. -/
structure Category where
  kind : Kind
  items : List Nat
  deriving DecidableEq, Repr

/-- The categories of one module, which has the empty name if it is not known. -/
structure ModuleSection where
  moduleName : Json
  categories : List Category
  deriving DecidableEq, Repr

/-- The place of a label in the category index. -/
def labelRank (label : String) : Nat :=
  (Kind.documentable.map Kind.label).idxOf (some label)

/-- The name of the root over declarations of an unknown module. -/
def defaultRootName : String :=
  "Reference"

namespace Forest

/-- The kind whose category lists a node: all extensions share one, and what has no label is in
none. -/
def categoryOf? (forest : Forest) (i : Nat) : Option Kind :=
  match forest.decl? i with
  | none => none
  | some decl =>
    if decl.kind.isExtension then some .swiftExtension
    else if decl.kind.label.isSome then some decl.kind
    else none

/-- The label of the category that lists a node. -/
def categoryLabel? (forest : Forest) (i : Nat) : Option String :=
  (forest.categoryOf? i).bind Kind.label

/-- The name of the module under which a node is grouped, the empty text if there is none. -/
def moduleOf (forest : Forest) (i : Nat) : Json :=
  let module := forest.docModuleOf i
  if module.truthy then module else .str ""

/-- The modules of all nodes to be grouped have to name groups. -/
def checkModules (forest : Forest) (items : List Nat) : Except Failure Unit :=
  if items.all fun i => (forest.moduleOf i).isKey then .ok () else .error .notKey

/-- The categories of some nodes in the order of the category index.  Kinds with one label share a
category, which is named after the kind that comes first. -/
def categoriesOf (forest : Forest) (items : List Nat) : List Category :=
  let labels := (items.filterMap forest.categoryLabel?).eraseDups
  let sorted := stableSort (fun a b => decide (labelRank a ≤ labelRank b)) labels
  sorted.filterMap fun label =>
    let listed := items.filter fun i => forest.categoryLabel? i = some label
    (listed.head?.bind forest.categoryOf?).map fun kind => ⟨kind, listed⟩

/-- The modules to look at: the configured ones in their order, then the others in the order of their
first declarations.  Of equal names the first one stays. -/
def moduleNames (forest : Forest) (config : Config) (items : List Nat) : List Json :=
  let names := config.modules.map Json.str ++ items.map forest.moduleOf
  (gatherBy Json.key? names).filterMap fun group => group.2.head?

/-- The declarations of one module. -/
def itemsOf (forest : Forest) (items : List Nat) (moduleName : Json) : List Nat :=
  items.filter fun i => (forest.moduleOf i).key? = moduleName.key?

/-- The sections of all modules that list something. -/
def moduleSections (forest : Forest) (config : Config) (items : List Nat) : List ModuleSection :=
  ((forest.moduleNames config items).map fun name =>
    ⟨name, forest.categoriesOf (forest.itemsOf items name)⟩).filter
      fun (part : ModuleSection) => !part.categories.isEmpty

/-- What is reported of the declarations that no category lists, module by module. -/
def uncategorizedEvents (forest : Forest) (config : Config) (items : List Nat) : List Event :=
  ((forest.moduleNames config items).flatMap (forest.itemsOf items)).filterMap fun i =>
    if (forest.categoryLabel? i).isNone then
      some (.uncategorized (forest.nameOf i) (forest.kindOf i).raw)
    else none

/-- The forest with several more declarations. -/
def addAll (forest : Forest) (decls : List Declaration) : Forest :=
  decls.foldl Forest.add forest

end Forest

namespace ModuleSection

/-- The documented module of the groups of a section. -/
def docModule (part : ModuleSection) : Json :=
  part.moduleName.given

/-- The declaration that groups one category; a pluralizer that gives nothing leaves the label. -/
def groupOf (inflect : String → String) (part : ModuleSection) (category : Category) :
    Declaration :=
  let label := category.kind.label.getD ""
  let plural := ((category.kind.pluralLabel inflect).bind nonEmpty?).getD label
  let address := ((category.kind.pluralAddress inflect).map Json.str).getD .null
  { Declaration.group (.str plural) address with docModule := part.docModule }

/-- The declaration over the whole section. -/
def rootOf (part : ModuleSection) : Declaration :=
  let name := if part.moduleName.truthy then part.moduleName else .str defaultRootName
  { Declaration.group name .null with docModule := part.docModule }

/-- The declarations that group a section: one for each category, then its root. -/
def groups (inflect : String → String) (part : ModuleSection) : List Declaration :=
  part.categories.map (part.groupOf inflect) ++ [part.rootOf]

end ModuleSection

namespace Forest

/-- The forest and the layout with nodes for the groups of one section: the categories are numbered
from the size of the forest on, and the root follows them. -/
def addSection (inflect : String → String) (state : Forest × Layout) (part : ModuleSection) :
    Forest × Layout :=
  let (forest, layout) := state
  let first := forest.size
  let lists := part.categories.map fun category => forest.inOrder category.items
  let indices := (List.range lists.length).map (first + ·)
  let root := first + lists.length
  (forest.addAll (part.groups inflect),
    { roots := layout.roots ++ [root]
      children := layout.children ++ indices.zip lists ++ [(root, indices)] })

/-- The roots of a layout that are guides. -/
def guideRoots (forest : Forest) (layout : Layout) : List Nat :=
  layout.roots.filter forest.isGuide

/-- The roots of a layout that are to be grouped. -/
def itemRoots (forest : Forest) (layout : Layout) : List Nat :=
  layout.roots.filter fun i => !forest.isGuide i

/-- The forest and the layout with nodes for the groups of all sections.  Guides stand in front of
the module roots. -/
def grouped (inflect : String → String) (config : Config) (forest : Forest) (layout : Layout) :
    Forest × Layout :=
  (forest.moduleSections config (forest.itemRoots layout)).foldl (addSection inflect)
    (forest, { layout with roots := forest.guideRoots layout })

/-- What is reported when a layout is grouped. -/
def groupEvents (config : Config) (forest : Forest) (layout : Layout) : List Event :=
  forest.uncategorizedEvents config (forest.itemRoots layout)

end Forest
end DocForest
