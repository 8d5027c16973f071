import DocForest.Files.Glob
import DocForest.Logged

/-!
# Overview texts in files

## What is here

* `FileTree.abstracts` — the files that some patterns find, each once.
* `checkNames`, `findAbstract?` — the first of them that is named like one of several names.
* `FileTree.readAbstract` — its text.
-/

set_option autoImplicit false

namespace DocForest

/-- The files with the new ones among `found` behind them. -/
def addFound (known found : List Path) : List Path :=
  found.foldl (fun known path => if known.contains path then known else known ++ [path]) known

/-- The files that some patterns find: those of an earlier pattern come first, and no file occurs
twice. -/
def FileTree.abstracts (tree : FileTree) (patterns : List String) : List Path :=
  patterns.foldl (fun known pattern => addFound known (tree.glob pattern)) []

/-- Names to look for, apart from those that are missing or empty, may be no arrays or objects. -/
def checkNames (names : List Json) : Except Failure Unit :=
  if names.all fun name => !name.truthy || name.isKey then .ok () else .error .notKey

/-- The first file whose name, up to its first dot, is one of the names.  Missing and empty names
find nothing. -/
def findAbstract? (files : List Path) (names : List Json) : Option Path :=
  let wanted := (names.filter Json.truthy).filterMap Json.string?
  files.find? fun file => wanted.contains file.stem

/-- The text of the first file that is named like one of the names. -/
def FileTree.readAbstract (tree : FileTree) (files : List Path) (names : List Json) :
    Logged (Option String) := do
  Logged.ofExcept (checkNames names)
  match findAbstract? files names with
  | none => return none
  | some file =>
    Logged.report (.abstractUsed file.text names)
    let text ← Logged.ofExcept (tree.readText file)
    return some text

end DocForest
