import DocForest.Declaration.OfRecord
import DocForest.Files.Tree
import DocForest.Logged
import DocForest.StableSort

/-!
# Record files

## What is here

* `recordsIn` — the records of a document, bare in a list or under the key `items`.
* `FileTree.recordFiles` — the record files below a directory.
* `FileTree.loadRecordFiles` — the records of several files, one after the other.
-/

set_option autoImplicit false

namespace DocForest

/-- Whether a value is a record: an object that gives a kind. -/
def isRecord (value : Json) : Bool :=
  match value with
  | .obj _ => (value.field "kind").truthy
  | _ => false

/-- The records of a document. -/
def recordsIn (document : Json) : Except Failure (List Record) := do
  let items := match document with
    | .obj _ => document.field "items"
    | _ => document
  return (← readList items).filter isRecord

namespace FileTree

/-- The endings of record files. -/
def recordSuffixes : List String :=
  [".json", ".yml", ".yaml"]

/-- Everything below a directory whose name has the ending of a record file, in the order of the
segments of the paths. -/
def recordFiles (tree : FileTree) (root : Path) : List Path :=
  match tree.locate? root with
  | none => []
  | some place =>
    let paths := if tree.isDirectory place then (tree.below place).map root.join else []
    stableSort Path.before (paths.filter fun path => recordSuffixes.contains path.suffix)

/-- The records of one file. -/
def loadRecordFile (tree : FileTree) (path : Path) : Logged (List Record) := do
  let document ← Logged.ofExcept (tree.readDocument path)
  let records ← Logged.ofExcept (recordsIn document)
  Logged.report (.recordsRead records.length path.text)
  return records

/-- The records of several files. -/
def loadRecordFiles (tree : FileTree) (paths : List Path) : Logged (List Record) := do
  let lists ← paths.mapM tree.loadRecordFile
  Logged.report (.recordsLoaded lists.flatten.length paths.length)
  return lists.flatten

end FileTree
end DocForest
