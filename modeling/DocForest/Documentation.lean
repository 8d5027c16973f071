import DocForest.Build.Assembly
import DocForest.Config.File
import DocForest.Files.Abstracts
import DocForest.Files.Records
import DocForest.Pages.Location

/-!
# Whole documentations

A run reads records and a configuration, builds the forest and locates its nodes.  What it reads is data here:
the files are a `FileTree`, in which the working directory is any place, no place leads to another one, and
nothing changes during the run.  Documents are JSON, and the stack is as deep as walks and paths need it.

## What is here

* `Documentation` — the finished forest with the location of every documented node.
* `Documentation.ofRecords` — the documentation of a list of records.
* `Documentation.ofFiles` — the documentation of the record files below a directory.
* `Documentation.abstractsOf` — the overview texts of all documented nodes.
-/

set_option autoImplicit false

namespace DocForest

/-- A finished documentation. -/
structure Documentation where
  config : Config
  forest : Forest
  /-- The location of every documented node. -/
  locations : List (Nat × Pages.Location)

namespace Documentation

/-- The location of a node, if it is documented. -/
def location? (documentation : Documentation) (i : Nat) : Option Pages.Location :=
  (documentation.locations.find? fun entry => entry.1 = i).map (·.2)

/-- The documentation of a list of records, with English plurals. -/
def ofRecords (config : Config) (records : List Record) : Logged Documentation := do
  let forest ← Forest.build config Text.pluralize records
  let locations ← Pages.Site.locations ⟨forest, config, Text.pluralize⟩
  Logged.report (.documented config.modules forest.rootList.length)
  return { config, forest, locations }

/-- The documentation of the record files below a directory. -/
def ofFiles (tree : FileTree) (root : String) (configPath : Option String) :
    Logged Documentation := do
  let root := Path.ofText root
  let files := tree.recordFiles root
  if files.isEmpty then Logged.fail (.noRecordFiles root.text)
  else
    let config ← tree.readConfig configPath
    let records ← tree.loadRecordFiles files
    ofRecords config records

/-- The overview texts that files give for the documented nodes, in reading order. -/
def abstractsOf (documentation : Documentation) (tree : FileTree) :
    Logged (List (Nat × Option String)) :=
  let files := tree.abstracts documentation.config.abstractPatterns
  documentation.forest.walk.mapM fun i => do
    let addressName := ((documentation.forest.decl? i).map (·.addressName)).getD .null
    let text ← tree.readAbstract files [documentation.forest.nameOf i, addressName]
    return (i, text)

end Documentation
end DocForest
