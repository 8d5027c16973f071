import DocForest.Config.Basic
import DocForest.Config.Layers
import DocForest.Files.Tree
import DocForest.Logged

/-!
# Configuration files

## What is here

* `FileTree.loadConfig` — the defaults with the object of a configuration file laid over them.
* `FileTree.readConfig` — the options that result.
-/

set_option autoImplicit false

namespace DocForest
namespace FileTree

/-- The object that a document states; a document that states nothing stands for an empty one. -/
def configFields (path : Path) (document : Json) :
    Except Failure (List (String × Json)) :=
  match document with
  | .obj fields => .ok fields
  | value => if value.truthy then .error (.configNotObject path.text) else .ok []

/-- The defaults with the object of a file laid over them.  Without a path, or where it leads
nowhere, the defaults stay. -/
def loadConfig (tree : FileTree) (path : Option String) : Logged (List (String × Json)) := do
  match path.bind nonEmpty? with
  | none => return Config.defaults
  | some text =>
    let path := Path.ofText text
    if (tree.locate? path).isNone then
      Logged.report (.configMissing path.text)
      return Config.defaults
    else
      let document ← Logged.ofExcept (tree.readDocument path)
      let fields ← Logged.ofExcept (configFields path document)
      Logged.ofExcept (Json.overlay Config.defaults fields)

/-- The options of a configuration file over the defaults. -/
def readConfig (tree : FileTree) (path : Option String) : Logged Config := do
  let fields ← tree.loadConfig path
  Logged.ofExcept (Config.ofJson (.obj fields))

end FileTree
end DocForest
