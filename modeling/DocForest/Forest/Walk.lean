import DocForest.Forest.Basic

/-!
# Walking through forests

Links are indices, and nothing in the type of a forest keeps them from running in circles.  Both
walks are therefore bounded by a number that no walk without repetition exceeds: a chain of
different nodes is no longer than the forest, and neither is a tree deep.  Where a bound is not
reached the walk is the one without a bound; where a chain of containers does exceed it, the chain
repeats a node, and `Forest.checkedPath` says so.

## What is here

* `preorder` — the nodes below given ones, each in front of its descendants, down to a given
  depth.
* `climb` — the chain of parents above a node, up to a given length.
* `Forest.walk` — the documentation from the first root to the last descendant of the last one.
* `Forest.namespacePath`, `Forest.docsPath` — the chains of containers and of documentation
  parents that lead to a node.
* `Forest.checkedPath`, `Forest.checkedParent` — the chain of containers and its last link, or why
  there is none.
* `Forest.qualifiedName`, `Forest.checkedName` — the names on that chain, joined by dots.
* `Forest.find`, `Forest.checkedFind` — the nodes with a qualified name.
-/

set_option autoImplicit false

namespace DocForest

/-- The nodes of the trees below `starts`, each in front of its descendants; a tree is followed
through `depth` levels. -/
def preorder (children : Nat → List Nat) : Nat → List Nat → List Nat
  | 0, _ => []
  | depth + 1, starts => starts.flatMap fun i => i :: preorder children depth (children i)

@[simp] theorem preorder_nil (children : Nat → List Nat) (depth : Nat) :
    preorder children depth [] = [] := by
  cases depth <;> rfl

theorem preorder_append (children : Nat → List Nat) (depth : Nat) (front back : List Nat) :
    preorder children depth (front ++ back) =
      preorder children depth front ++ preorder children depth back := by
  cases depth <;> simp [preorder]

theorem preorder_cons (children : Nat → List Nat) (depth i : Nat) (rest : List Nat) :
    preorder children (depth + 1) (i :: rest) =
      i :: preorder children depth (children i) ++ preorder children (depth + 1) rest := by
  simp [preorder]

/-- The node `i`, its parent, the parent of that, and so on, through at most `steps` links. -/
def climb (parent : Nat → Option Nat) : Nat → Nat → List Nat
  | 0, i => [i]
  | steps + 1, i => i :: match parent i with
    | none => []
    | some p => climb parent steps p

namespace Forest

/-- The nodes of the documentation in reading order.  A path without repetition has no more nodes
than the forest. -/
def walk (forest : Forest) : List Nat :=
  preorder forest.childrenOf forest.size forest.rootList

/-- The containers of a node from the outermost one, and the node itself. -/
def namespacePath (forest : Forest) (i : Nat) : List Nat :=
  (climb forest.codeParent? forest.size i).reverse

/-- The containers of a node from the outermost one. -/
def namespaceAncestors (forest : Forest) (i : Nat) : List Nat :=
  (forest.namespacePath i).dropLast

/-- The documentation parents of a node from the root, and the node itself. -/
def docsPath (forest : Forest) (i : Nat) : List Nat :=
  (climb forest.docsParent? forest.size i).reverse

/-- The containers of a node and the node itself, where every container has to exist and the chain
has to end. -/
def checkedPath (forest : Forest) (i : Nat) : Except Failure (List Nat) :=
  let path := forest.namespacePath i
  if path.any fun j => forest.size ≤ j then .error .indexOutOfRange
  else if forest.size < path.length then .error .endlessNesting
  else .ok path

/-- The container of a node, which has to exist if there is one. -/
def checkedParent (forest : Forest) (i : Nat) : Except Failure (Option Nat) := do
  let node ← forest.node i
  match node.codeParent with
  | none => return none
  | some parent => (forest.node parent).map fun _ => some parent

/-- The names along a path, joined by dots. -/
def dotted (forest : Forest) (path : List Nat) : String :=
  String.intercalate "." (path.map forest.nameTextOf)

/-- The qualified name of a node, such as `Outer.Inner.method(arg:)`. -/
def qualifiedName (forest : Forest) (i : Nat) : String :=
  forest.dotted (forest.namespacePath i)

/-- The nodes of the documentation with a given qualified name. -/
def find (forest : Forest) (name : String) : List Nat :=
  forest.walk.filter fun i => forest.qualifiedName i = name

/-- The qualified name of a node, where the containers have to exist and all names on the path have
to be texts. -/
def checkedName (forest : Forest) (i : Nat) : Except Failure String := do
  let path ← forest.checkedPath i
  if path.all fun j => (forest.nameOf j).isText then return forest.dotted path
  else throw .notJoinable

/-- The nodes of the documentation with a given qualified name, where all nodes have to have one. -/
def checkedFind (forest : Forest) (name : String) : Except Failure (List Nat) := do
  forest.walk.forM fun i => discard (forest.checkedName i)
  return forest.find name

end Forest
end DocForest
