import DocForest.Config.Basic
import DocForest.Forest.Walk

/-!
# The documented module of every declaration

A declaration without a documented module takes that of its container; outside all containers its
own module counts if it is documented, and the first configured one otherwise.  Records come in any
order, so a declaration is filled in only behind all its containers.

## What is here

* `Forest.moduleFor` — the module that a declaration takes if it states none.
* `Forest.fillModule` — one declaration with its module filled in.
* `Forest.fillModules` — all of them, each behind its containers.
-/

set_option autoImplicit false

namespace DocForest
namespace Forest

/-- The module that a declaration takes if it states none.  An empty module name is no module, but
a container's is taken as it is. -/
def moduleFor (forest : Forest) (config : Config) (decl : Declaration) (parent : Option Nat) :
    Json :=
  let above := (parent.map forest.docModuleOf).getD .null
  if !above.isNull then above
  else if decl.moduleName.truthy && config.documents decl.moduleName then decl.moduleName
  else match config.modules.head?.bind nonEmpty? with
    | some first => .str first
    | none => decl.moduleName

/-- The forest with the module of one declaration filled in.  Guides have none. -/
def fillModule (config : Config) (forest : Forest) (i : Nat) : Forest :=
  match forest.node? i with
  | none => forest
  | some node =>
    if !node.decl.docModule.isNull || node.decl.kind.isMarkdown then forest
    else
      let module := forest.moduleFor config node.decl node.codeParent
      forest.modifyDecl i fun decl => { decl with docModule := module }

/-- The forest with all modules filled in, where containers come before their members. -/
def fillModules (config : Config) (forest : Forest) : Forest :=
  (List.range forest.size).foldl
    (fun forest i => (forest.namespacePath i).foldl (fillModule config) forest) forest

end Forest
end DocForest
