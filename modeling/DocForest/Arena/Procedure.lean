import DocForest.Arena.Operation
import Mathlib.Logic.Function.Basic

/-!
# The calls, one access after the other

`Operation.apply` gives a call the arena that it found when it is refused, so that it cannot be seen
there whether something has been written before.  Here the same calls read and write one entry at a time,
and **what has been written stays written when a later access fails**.

Several arenas are kept at once, since a node can be offered to another arena than its own.

## What is here

* `Arenas`, `Request` — several arenas, and a call to one of them.
* `Procedure` — reading and writing arenas, with failures; `Procedure.perform` runs it, and leaves
  arenas in any case.
* `Procedure.ofRequest` — a call as a procedure.
* `Procedure.performAll` — the arenas behind several calls, whether they fail or not.
-/

set_option autoImplicit false

namespace DocForest

/-- Several arenas, each under a number. -/
abbrev Arenas := Nat → Arena

/-- A call to one of several arenas. -/
inductive Request where
  /-- A call that stays within the arena `t`. -/
  | on (t : Nat) (operation : Operation)
  /-- Adds the node `k` of the arena `home` to another arena. -/
  | addFrom (t home : Nat) (k : Int)

/-- Something that reads and writes arenas, and may fail in between.  A failure undoes nothing. -/
abbrev Procedure (α : Type) := ExceptT Failure (StateM Arenas) α

namespace Procedure

/-- How a procedure ends, and the arenas that it leaves. -/
def perform {α : Type} (procedure : Procedure α) (arenas : Arenas) : Except Failure α × Arenas :=
  StateT.run (ExceptT.run procedure) arenas

/-! ## Reading and writing -/

/-- The arena `t` as it is now. -/
def read (t : Nat) : Procedure Arena := do
  return (← get) t

/-- Puts another arena in the place of the arena `t`. -/
def write (t : Nat) (next : Arena) : Procedure Unit :=
  modify fun arenas => Function.update arenas t next

/-- The entry that an index names in the arena `t`, which has to exist. -/
def fetch (t : Nat) (k : Int) : Procedure Entry := do
  match (← read t).entry k with
  | .ok entry => return entry
  | .error failure => throw failure

/-- Changes an entry of the arena `t`, which has to exist. -/
def store (t : Nat) (k : Int) (change : Entry → Entry) : Procedure Unit := do
  let _ ← fetch t k
  write t ((← read t).modify k change)

/-! ## The calls -/

/-- Adds a new declaration. -/
def add (t : Nat) (decl : Declaration) : Procedure Unit := do
  write t ((← read t).add decl)

/-- Refuses to add a node that belongs to an arena, be it this or another one. -/
def addFrom (home : Nat) (k : Int) : Procedure Unit := do
  let entry ← fetch home k
  throw (.alreadyInForest entry.decl.name)

/-- Gives a node its container. -/
def link (t : Nat) (child parent : Int) : Procedure Unit := do
  let entry ← fetch t child
  if entry.codeParent.isSome then throw (.containerTaken entry.decl.name)
  else store t child fun entry => { entry with codeParent := some parent }

/-- Looks whether a child can be put under a parent. -/
def checkChild (t : Nat) (parent child : Int) : Procedure Unit := do
  let entry ← fetch t child
  if entry.docsParent.isSome || (← read t).rootList.contains child then
    throw (.parentTaken entry.decl.name)
  else if child == parent then throw (.ownChild entry.decl.name)
  else return

/-- Gives a node its children.  All of them are looked at before the first one is written. -/
def setChildren (t : Nat) (parent : Int) (children : List Int) : Procedure Unit := do
  let entry ← fetch t parent
  if entry.children.isSome then throw (.childrenTaken entry.decl.name)
  else
    children.forM (checkChild t parent)
    children.forM fun child => store t child fun entry => { entry with docsParent := some parent }
    store t parent fun entry => { entry with children := some children }

/-- Looks whether a node can be a root. -/
def checkRoot (t : Nat) (root : Int) : Procedure Unit := do
  let entry ← fetch t root
  if entry.docsParent.isSome then throw (.rootHasParent entry.decl.name)
  else return

/-- Gives the documentation its roots. -/
def setRoots (t : Nat) (roots : List Int) : Procedure Unit := do
  if (← read t).roots.isSome then throw .rootsTaken
  else
    roots.forM (checkRoot t)
    write t { ← read t with roots := some roots }

/-- A call as a procedure. -/
def ofRequest : Request → Procedure Unit
  | .on t (.add decl) => add t decl
  | .on t (.addAgain k) => addFrom t k
  | .on t (.link child parent) => link t child parent
  | .on t (.setChildren parent children) => setChildren t parent children
  | .on t (.setRoots roots) => setRoots t roots
  | .addFrom _ home k => addFrom home k

/-- The arenas that several calls leave, whatever their ends. -/
def performAll (arenas : Arenas) (requests : List Request) : Arenas :=
  requests.foldl (fun arenas request => ((ofRequest request).perform arenas).2) arenas

end Procedure
end DocForest
