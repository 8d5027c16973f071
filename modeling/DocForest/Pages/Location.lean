import DocForest.Config.Basic
import DocForest.Describe.Names
import DocForest.Describe.Notes
import DocForest.Logged
import DocForest.Pages.Anchor
import DocForest.Pages.FileName

/-!
# Locations of documented nodes

Every node of the documentation is a page of its own or has an anchor on the page of its parent.
The files of siblings have different names, whatever the case of their letters.

Siblings are placed first, from left to right, since the name of one depends on those in front of
it.  The children of each are placed after that in a scope of their own, where the names of other
scopes do not matter.

## What is here

* `Location` — title and address of a node, with its file name if it is a page.
* `Scope` — the directory that siblings share and the address of their parent.
* `Placement`, `Site.place`, `Site.placeAll` — siblings with their file names or anchors.
* `Site.locate` — the locations of siblings and of everything below them.
* `Site.locations` — the locations of the whole documentation.
* `categoryIndex` — the labels and addresses of all categories.
-/

set_option autoImplicit false

namespace DocForest
namespace Pages

/-- Where a node is shown. -/
structure Location where
  title : Json
  /-- The address, with an anchor behind a `#` if the node is no page. -/
  address : String
  /-- The file name without its ending, for pages only. -/
  file : Option String := none
  /-- The plural label of the node's kind. -/
  category : Option String := none
  deriving DecidableEq, Repr

/-- Whether a node has a page of its own. -/
def Location.isPage (location : Location) : Bool :=
  location.file.isSome

/-- The file name of module roots. -/
def indexName : String :=
  "index"

/-- What siblings have in common. -/
structure Scope where
  /-- The directory of their files, empty or with a slash at its end. -/
  directory : String
  /-- The address of their parent, without the root of all addresses; roots have none. -/
  parent : Option String
  deriving DecidableEq, Repr

/-- A node with its location, with what its children have in common, with the file name that it
could not have because a sibling has it, and with the reason why it cannot be located at all. -/
structure Placement where
  index : Nat
  location : Location
  /-- The scope of the children; nodes without a page have no children. -/
  below : Option Scope
  /-- The file name asked for and the one chosen, if they differ. -/
  renamed : Option (String × String)
  /-- Why there is no text that the file name or the anchor could be made of. -/
  fault : Option Failure
  deriving DecidableEq, Repr

/-- The forest whose nodes are placed, the options, and the pluralizer of labels. -/
structure Site where
  forest : Forest
  config : Config
  inflect : String → String

namespace Site

/-- Why no file name can be made of a value, if none can. -/
def textFault? (value : Json) : Option Failure :=
  if value.isText then none else some .notText

/-- An address behind the root of all addresses. -/
def rooted (site : Site) (address : String) : String :=
  if site.config.addressRoot.isEmpty then address else site.config.addressRoot ++ "/" ++ address

/-- Whether a node gets a page: roots and guides always do. -/
def isPage (site : Site) (scope : Scope) (i : Nat) : Bool :=
  site.forest.rendersAsPage site.config i || site.forest.isGuide i || scope.parent.isNone

/-- A root over a module, which is the index page of its directory; only one of several modules has
a directory of its own. -/
def placeModule (site : Site) (used : List String) (i : Nat) : Placement × String :=
  let title := site.forest.nameOf i
  let candidate := if site.config.multipleModules then fileName title.plainText else indexName
  let chosen := unusedName candidate used
  let directory := if site.config.multipleModules then chosen ++ "/" else ""
  let address := directory ++ indexName ++ ".html"
  ({ index := i
     location := { title, address := site.rooted address, file := some indexName }
     below := some { directory, parent := some address }
     renamed := if chosen = candidate then none else some (candidate, chosen)
     fault := if site.config.multipleModules then textFault? title else none }, chosen)

/-- A node with a page. -/
def placePage (site : Site) (scope : Scope) (used : List String) (i : Nat) (decl : Declaration) :
    Placement × String :=
  let candidate := fileName decl.fileTitle.plainText
  let chosen := unusedName candidate used
  let address := scope.directory ++ chosen ++ ".html"
  ({ index := i
     location := {
       title := decl.name
       address := site.rooted address
       file := some chosen
       category := decl.kind.pluralLabel site.inflect }
     below := some { directory := scope.directory ++ chosen ++ "/", parent := some address }
     renamed := if chosen = candidate then none else some (candidate, chosen)
     fault := textFault? decl.fileTitle }, chosen)

/-- A node without a page, on the page of its parent. -/
def placeMember (site : Site) (scope : Scope) (i : Nat) (decl : Declaration) : Placement :=
  let address := scope.parent.getD "" ++ "#" ++ anchor decl
  { index := i
    location := {
      title := decl.name
      address := site.rooted address
      category := decl.kind.pluralLabel site.inflect }
    below := none
    renamed := none
    fault := anchorFault? decl }

/-- One sibling in its scope, and the names that are used behind it. -/
def place (site : Site) (scope : Scope) (used : List String) (i : Nat) :
    Option Placement × List String :=
  match site.forest.decl? i with
  | none => (none, used)
  | some decl =>
    if scope.parent.isNone && decl.kind.isOverview then
      let (placement, chosen) := site.placeModule used i
      (some placement, Text.foldAscii chosen :: used)
    else if site.isPage scope i then
      let (placement, chosen) := site.placePage scope used i decl
      (some placement, Text.foldAscii chosen :: used)
    else (some (site.placeMember scope i decl), used)

/-- Siblings in their scope, one after the other. -/
def placeAll (site : Site) (scope : Scope) : List String → List Nat → List Placement
  | _, [] => []
  | used, i :: rest =>
    let (placement, used') := site.place scope used i
    placement.toList ++ site.placeAll scope used' rest

/-- The placements of siblings and of everything below them, through `depth` levels. -/
def locate (site : Site) : Nat → Scope → List Nat → List Placement
  | 0, _, _ => []
  | depth + 1, scope, siblings =>
    (site.placeAll scope [] siblings).flatMap fun placement =>
      placement :: match placement.below with
        | none => []
        | some scope => site.locate depth scope (site.forest.childrenOf placement.index)

/-- What the roots have in common. -/
def rootScope : Scope :=
  { directory := "", parent := none }

/-- The placements of all nodes of the documentation, in reading order. -/
def placements (site : Site) : List Placement :=
  site.locate site.forest.size rootScope site.forest.rootList

/-- The location of a node.  A node that is placed several times is where it was placed last. -/
def location? (placements : List Placement) (i : Nat) : Option Location :=
  (placements.reverse.find? fun placement => placement.index = i).map (·.location)

/-- The report on a node that could not have its file name, or why the node has no location. -/
def renameEvents (site : Site) (placement : Placement) : Except Failure (List Event) :=
  match placement.fault, placement.renamed with
  | some failure, _ => .error failure
  | none, none => .ok []
  | none, some (candidate, chosen) => do
    let name ← site.forest.checkedName placement.index
    return [.nameTaken candidate name chosen]

/-- The locations of all nodes of the documentation, by index, and what is reported of them. -/
def locations (site : Site) : Logged (List (Nat × Location)) := do
  let placements := site.placements
  placements.forM fun placement => do
    let events ← Logged.ofExcept (site.renameEvents placement)
    Logged.reportAll events
  let located := (List.range site.forest.size).filterMap fun i =>
    (location? placements i).map fun location => (i, location)
  Logged.report (.located located.length (located.countP fun entry => entry.2.isPage))
  return located

end Site

/-- The plural labels and address names of all categories, each label once. -/
def categoryIndex (inflect : String → String) : List (String × String) :=
  let all := Kind.documentable.filterMap fun kind => do
    let label ← kind.pluralLabel inflect
    let address ← kind.pluralAddress inflect
    return (label, address)
  (all.map (·.1)).eraseDups.filterMap fun label =>
    all.find? fun entry => entry.1 = label

end Pages
end DocForest
