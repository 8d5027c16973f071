import DocForest.Forest.Basic

/-!
# The arena behind a forest

Whoever fills a forest call by call names nodes by integers, and **a negative integer counts from the
end**: `-1` is the last node.  Such an index is looked up anew at every access, so that it names another
node once nodes have been added.  The arena keeps the indices that it is given, as they are given; the
checks compare them so, and look up nodes with them.  `Arena.forest` is what the arena shows at a moment.

## What is here

* `position` — the node that an index names among so many.
* `Entry`, `Arena` — declarations with the indices that they have been given as links.
* `Arena.add`, `Arena.addAgain`, `Arena.link`, `Arena.setChildren`, `Arena.setRoots` — the calls, which
  check everything before they write anything.
* `Arena.forest` — the forest that an arena shows now.
-/

set_option autoImplicit false

namespace DocForest

/-- The node that an index names among `size` nodes.  A negative one counts from the end; if it counts too
far it names `size`, where there is no node. -/
def position (size : Nat) : Int → Nat
  | .ofNat i => i
  | .negSucc i => if i < size then size - (i + 1) else size

/-- A declaration with the indices that it has been given as links. -/
structure Entry where
  decl : Declaration
  /-- The container in the code. -/
  codeParent : Option Int := none
  /-- The parent in the documentation. -/
  docsParent : Option Int := none
  /-- The children in the documentation, once they are given. -/
  children : Option (List Int) := none
  /-- The node that shows the members of this one. -/
  mergedInto : Option Nat := none
  /-- Whether the node stands for a type that is not documented itself. -/
  undocumentedBase : Bool := false
  deriving DecidableEq, Repr

/-- What an entry shows among `size` nodes. -/
def Entry.node (size : Nat) (entry : Entry) : Node where
  decl := entry.decl
  codeParent := entry.codeParent.map (position size)
  docsParent := entry.docsParent.map (position size)
  children := entry.children.map fun children => children.map (position size)
  mergedInto := entry.mergedInto
  undocumentedBase := entry.undocumentedBase

/-- Declarations in the order in which they have been added. -/
structure Arena where
  entries : Array Entry := #[]
  /-- The roots of the documentation, once they are given. -/
  roots : Option (List Int) := none
  deriving DecidableEq, Repr

namespace Arena

/-- The number of nodes. -/
def size (arena : Arena) : Nat :=
  arena.entries.size

/-- The node that an index names now. -/
def position (arena : Arena) (k : Int) : Nat :=
  DocForest.position arena.size k

/-- The entry of a node. -/
def entryAt? (arena : Arena) (i : Nat) : Option Entry :=
  arena.entries[i]?

/-- The entry that an index names, which has to exist. -/
def entry (arena : Arena) (k : Int) : Except Failure Entry :=
  match arena.entryAt? (arena.position k) with
  | some entry => .ok entry
  | none => .error .indexOutOfRange

/-- The indices of the roots. -/
def rootList (arena : Arena) : List Int :=
  arena.roots.getD []

/-- The arena with the entry changed that an index names. -/
def modify (arena : Arena) (k : Int) (change : Entry → Entry) : Arena :=
  { arena with entries := arena.entries.modify (arena.position k) change }

/-- The forest that an arena shows now. -/
def forest (arena : Arena) : Forest where
  nodes := arena.entries.map (Entry.node arena.size)
  roots := arena.roots.map fun roots => roots.map arena.position

/-! ## Calls -/

/-- The arena with one more declaration. -/
def add (arena : Arena) (decl : Declaration) : Arena :=
  { arena with entries := arena.entries.push { decl } }

/-- A declaration belongs to one arena, so a node cannot be added again. -/
def addAgain (arena : Arena) (k : Int) : Except Failure Arena := do
  let entry ← arena.entry k
  throw (.alreadyInForest entry.decl.name)

/-- Gives a node its container.  The container itself is not looked up. -/
def link (arena : Arena) (child parent : Int) : Except Failure Arena := do
  let entry ← arena.entry child
  if entry.codeParent.isSome then throw (.containerTaken entry.decl.name)
  else return arena.modify child fun entry => { entry with codeParent := some parent }

/-- Whether a child can be put under a parent.  Roots and parent are compared as they are given. -/
def checkChild (arena : Arena) (parent child : Int) : Except Failure Unit := do
  let entry ← arena.entry child
  if entry.docsParent.isSome || arena.rootList.contains child then
    throw (.parentTaken entry.decl.name)
  else if child == parent then throw (.ownChild entry.decl.name)
  else return

/-- The arena in which some nodes have a given parent in the documentation. -/
def putParents (arena : Arena) (parent : Int) (children : List Int) : Arena :=
  children.foldl
    (fun arena child => arena.modify child fun entry => { entry with docsParent := some parent })
    arena

/-- The arena in which a node has given children, and each of them has the node as its parent. -/
def withChildren (arena : Arena) (parent : Int) (children : List Int) : Arena :=
  (arena.putParents parent children).modify parent fun entry =>
    { entry with children := some children }

/-- Gives a node its children, if none of them stands elsewhere. -/
def setChildren (arena : Arena) (parent : Int) (children : List Int) : Except Failure Arena := do
  let entry ← arena.entry parent
  if entry.children.isSome then throw (.childrenTaken entry.decl.name)
  else
    children.forM (arena.checkChild parent)
    return arena.withChildren parent children

/-- Whether a node can be a root. -/
def checkRoot (arena : Arena) (root : Int) : Except Failure Unit := do
  let entry ← arena.entry root
  if entry.docsParent.isSome then throw (.rootHasParent entry.decl.name)
  else return

/-- Gives the documentation its roots. -/
def setRoots (arena : Arena) (roots : List Int) : Except Failure Arena := do
  if arena.roots.isSome then throw .rootsTaken
  else
    roots.forM arena.checkRoot
    return { arena with roots := some roots }

end Arena
end DocForest
