import DocForest.Declaration.Basic
import DocForest.Failure

/-!
# The forest of declarations

All declarations of a run stand in one array and are named by their indices.  Two systems of links
run between them: the code links from a declaration to its container, and the documentation links
from a node to its children and back.  Each link is written once.

The operations take the numbers of nodes, as whoever builds a forest knows them.  For calls that name nodes by
indices which may count from the end there is the `Arena`.

## What is here

* `Node`, `Forest` — declarations with their links, and the roots of the documentation.
* `Forest.add`, `Forest.link`, `Forest.setChildren`, `Forest.setRoots` — the operations, which
  check everything before they write anything.
* `Forest.codeParent?`, `Forest.docsParent?`, `Forest.childrenOf` — the links as functions.
* `Forest.nameOf`, `Forest.moduleNameOf`, `Forest.docModuleOf` — what is known of a node by index.
* `Forest.isMark`, `Forest.isGroup`, `Forest.isGuide`, `Forest.isExtension` — the families of nodes.
-/

set_option autoImplicit false

namespace DocForest

/-- A declaration in its place. -/
structure Node where
  decl : Declaration
  /-- The container in the code. -/
  codeParent : Option Nat := none
  /-- The parent in the documentation. -/
  docsParent : Option Nat := none
  /-- The children in the documentation, once they are given. -/
  children : Option (List Nat) := none
  /-- The node that shows the members of this one. -/
  mergedInto : Option Nat := none
  /-- Whether the node stands for a type that is not documented itself. -/
  undocumentedBase : Bool := false
  deriving DecidableEq, Repr

/-- Declarations with their links. -/
structure Forest where
  nodes : Array Node := #[]
  /-- The roots of the documentation, once they are given. -/
  roots : Option (List Nat) := none
  deriving DecidableEq, Repr

namespace Forest

/-- The number of nodes. -/
def size (forest : Forest) : Nat :=
  forest.nodes.size

/-- The node with an index. -/
def node? (forest : Forest) (i : Nat) : Option Node :=
  forest.nodes[i]?

/-- The node with an index, which has to exist. -/
def node (forest : Forest) (i : Nat) : Except Failure Node :=
  match forest.node? i with
  | some node => .ok node
  | none => .error .indexOutOfRange

/-- The declaration with an index. -/
def decl? (forest : Forest) (i : Nat) : Option Declaration :=
  (forest.node? i).map (·.decl)

/-- The name of a node. -/
def nameOf (forest : Forest) (i : Nat) : Json :=
  (forest.decl? i).elim (.str "") (·.name)

/-- The name of a node as text. -/
def nameTextOf (forest : Forest) (i : Nat) : String :=
  (forest.nameOf i).plainText

/-- The module of a node. -/
def moduleNameOf (forest : Forest) (i : Nat) : Json :=
  ((forest.decl? i).map (·.moduleName)).getD .null

/-- The documented module of a node. -/
def docModuleOf (forest : Forest) (i : Nat) : Json :=
  ((forest.decl? i).map (·.docModule)).getD .null

/-- Whether the declaration with an index satisfies a test. -/
def satisfies (forest : Forest) (i : Nat) (test : Declaration → Bool) : Bool :=
  (forest.decl? i).any test

/-- The kind of a node. -/
def kindOf (forest : Forest) (i : Nat) : Kind :=
  (forest.decl? i).elim (.other "") (·.kind)

/-- Whether a node is a section mark. -/
def isMark (forest : Forest) (i : Nat) : Bool :=
  forest.satisfies i fun decl => decl.kind.isMark

/-- Whether a node is a group. -/
def isGroup (forest : Forest) (i : Nat) : Bool :=
  forest.satisfies i fun decl => decl.kind.isOverview

/-- Whether a node is a guide. -/
def isGuide (forest : Forest) (i : Nat) : Bool :=
  forest.satisfies i fun decl => decl.kind.isMarkdown

/-- Whether a node is an extension. -/
def isExtension (forest : Forest) (i : Nat) : Bool :=
  forest.satisfies i fun decl => decl.kind.isExtension

/-- The container of a node in the code. -/
def codeParent? (forest : Forest) (i : Nat) : Option Nat :=
  (forest.node? i).bind (·.codeParent)

/-- The parent of a node in the documentation. -/
def docsParent? (forest : Forest) (i : Nat) : Option Nat :=
  (forest.node? i).bind (·.docsParent)

/-- The children of a node in the documentation. -/
def childrenOf (forest : Forest) (i : Nat) : List Nat :=
  ((forest.node? i).bind (·.children)).getD []

/-- The roots of the documentation. -/
def rootList (forest : Forest) : List Nat :=
  forest.roots.getD []

/-- The forest with one node changed. -/
def modify (forest : Forest) (i : Nat) (change : Node → Node) : Forest :=
  { forest with nodes := forest.nodes.modify i change }

/-- The forest with one declaration changed. -/
def modifyDecl (forest : Forest) (i : Nat) (change : Declaration → Declaration) : Forest :=
  forest.modify i fun node => { node with decl := change node.decl }

/-! ## Operations -/

/-- The forest with one more declaration, whose index is the old size. -/
def add (forest : Forest) (decl : Declaration) : Forest :=
  { forest with nodes := forest.nodes.push { decl } }

/-- Gives a node its container.  The container itself is not looked up. -/
def link (forest : Forest) (child parent : Nat) : Except Failure Forest := do
  let node ← forest.node child
  if node.codeParent.isSome then throw (.containerTaken node.decl.name)
  else return forest.modify child fun node => { node with codeParent := some parent }

/-- Whether a child can be put under a parent. -/
def checkChild (forest : Forest) (parent child : Nat) : Except Failure Unit := do
  let node ← forest.node child
  if node.docsParent.isSome || forest.rootList.contains child then
    throw (.parentTaken node.decl.name)
  else if child == parent then throw (.ownChild node.decl.name)
  else return

/-- The forest in which some nodes have a given parent in the documentation. -/
def putParents (forest : Forest) (parent : Nat) (children : List Nat) : Forest :=
  children.foldl
    (fun forest child => forest.modify child fun node => { node with docsParent := some parent })
    forest

/-- The forest in which a node has given children, and each of them has the node as its parent. -/
def withChildren (forest : Forest) (parent : Nat) (children : List Nat) : Forest :=
  (forest.putParents parent children).modify parent fun node =>
    { node with children := some children }

/-- Gives a node its children, if none of them stands elsewhere. -/
def setChildren (forest : Forest) (parent : Nat) (children : List Nat) :
    Except Failure Forest := do
  let node ← forest.node parent
  if node.children.isSome then throw (.childrenTaken node.decl.name)
  else
    children.forM (forest.checkChild parent)
    return forest.withChildren parent children

/-- Whether a node can be a root. -/
def checkRoot (forest : Forest) (root : Nat) : Except Failure Unit := do
  let node ← forest.node root
  if node.docsParent.isSome then throw (.rootHasParent node.decl.name)
  else return

/-- Gives the documentation its roots. -/
def setRoots (forest : Forest) (roots : List Nat) : Except Failure Forest := do
  if forest.roots.isSome then throw .rootsTaken
  else
    roots.forM forest.checkRoot
    return { forest with roots := some roots }

end Forest
end DocForest
