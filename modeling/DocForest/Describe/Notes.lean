import DocForest.Describe.Language
import DocForest.Forest.Walk

/-!
# Pages, modules and notes of a declaration

## What is here

* `Forest.rendersAsPage`, `Forest.omitsContent` — whether a node has a page of its own.
* `Declaration.isConstrained`, `Declaration.checkRequirements`, `Declaration.markForMembers` —
  constrained extensions.
* `Declaration.isDiscouraged`, `Declaration.inheritsOther` — availability and inheritance.
* `Declaration.fromDocModule`, `Declaration.extendsExternal`, `Declaration.wantsDocumentation`,
  `Declaration.hasAmbiguousModule` — where a declaration comes from.
* `Forest.needsModuleNote`, `Forest.note` — what is noted next to a name.
-/

set_option autoImplicit false

namespace DocForest
namespace Declaration

/-- Whether a declaration is an extension with requirements. -/
def isConstrained (decl : Declaration) : Bool :=
  decl.kind.isSwiftExtension && decl.requirements.truthy

/-- The requirements of a constrained extension have to be a text before anything is made of them. -/
def checkRequirements (decl : Declaration) : Except Failure Unit :=
  if decl.isConstrained && !decl.requirements.isText then .error .notText else .ok ()

/-- The mark of the members in front of the first mark among them. -/
def markForMembers (decl : Declaration) : SectionMark :=
  if decl.isConstrained then .ofRequirements decl.requirements.plainText else {}

/-- Whether a declaration should not be used any more. -/
def isDiscouraged (decl : Declaration) : Bool :=
  decl.unavailable || decl.deprecated

/-- Whether a declaration inherits a type that is not among the unwanted ones. -/
def inheritsOther (decl : Declaration) (unwanted : List String) : Bool :=
  decl.inherited.any fun type => !unwanted.contains type

/-- Whether a declaration is of a type from the documented module.  Of an extension the module is
known only with a unique identifier; an unstated module is the documented one. -/
def fromDocModule (decl : Declaration) : Bool :=
  !decl.kind.isExtension
    || (decl.isSwift && decl.hasUsr
      && (decl.moduleName.isNull || decl.moduleName.same decl.docModule))

/-- Whether a declaration belongs to a module that is not documented. -/
def extendsExternal (decl : Declaration) (config : Config) : Bool :=
  !decl.moduleName.isNull && !config.documents decl.moduleName

/-- Whether the reader is to be asked for documentation.  Types of other modules are exempt, and
so is what has no unique identifier because it did not compile. -/
def wantsDocumentation (decl : Declaration) (config : Config) : Bool :=
  !decl.isSwift || (decl.hasUsr && !decl.extendsExternal config)

/-- Whether the module of a declaration outside all containers is unclear within a group. -/
def hasAmbiguousModule (decl : Declaration) (group : Json) (config : Config) : Bool :=
  decl.extendsExternal config
    || (config.multipleModules && !decl.moduleName.isNull && !group.same decl.moduleName)

end Declaration

namespace Forest

/-- Whether a node gets its own page instead of a place on its parent's. -/
def rendersAsPage (forest : Forest) (config : Config) (i : Nat) : Bool :=
  !(forest.childrenOf i).isEmpty
    || (config.separateGlobals && forest.satisfies i fun decl => decl.kind.isGlobal)

/-- Whether the parent's page links to a node instead of holding it. -/
def omitsContent (forest : Forest) (config : Config) (i : Nat) : Bool :=
  config.separateGlobals && forest.rendersAsPage config i

/-- Whether the reader has to be told which module provides a node: with several modules, when the
page stands under another module, for a node without a container and without a page, or for a
member whose container is of another module. -/
def needsModuleNote (forest : Forest) (config : Config) (i : Nat) : Bool :=
  let docModule := forest.docModuleOf i
  let rootName := forest.nameOf (((forest.docsPath i).head?).getD i)
  config.multipleModules && !rootName.same docModule
    && match forest.codeParent? i with
      | none => !forest.rendersAsPage config i
      | some parent => !(forest.moduleNameOf parent).same docModule

/-- A text with its first letter capital. -/
def withCapital (text : String) : String :=
  match text.toList with
  | [] => text
  | c :: rest => String.ofList (c.toUpper :: rest)

/-- The notes on a node, one after the other. -/
def notes (forest : Forest) (config : Config) (i : Nat) : List String :=
  match forest.decl? i with
  | none => []
  | some decl =>
    (if decl.defaultSummary.truthy then ["default implementation"] else [])
    ++ (if decl.fromProtocolExtension then ["extension method"] else [])
    ++ (if decl.isAsync then ["asynchronous"] else [])
    ++ (if forest.needsModuleNote config i then ["from " ++ decl.docModule.plainText] else [])

/-- The note next to the name of a node, if there is something to note. -/
def note (forest : Forest) (config : Config) (i : Nat) : Option String :=
  let notes := forest.notes config i
  if notes.isEmpty then none else some (withCapital (String.intercalate ", " notes))

end Forest
end DocForest
