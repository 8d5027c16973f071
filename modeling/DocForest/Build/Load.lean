import DocForest.Build.Nesting
import DocForest.Declaration.OfRecord
import DocForest.Logged

/-!
# Loading records into a forest

Every record becomes a node, in input order.  Then every node is linked to its container, which
may stand anywhere in the input.

## What is here

* `Loading` — the state between two records.
* `Loading.addRecord`, `Loading.linkPending` — the two steps.
* `Loaded`, `loadRecords` — the forest of a list of records, and the extensions that state no
  access level.
* `Forest.codeChildren` — the members of a node in input order.
-/

set_option autoImplicit false

namespace DocForest

/-- What is known between two records. -/
structure Loading where
  forest : Forest := {}
  /-- The identifiers so far, each with its node. -/
  ids : List (String × Nat) := []
  /-- The nodes that name a container, each with its identifier. -/
  pending : List (Nat × String) := []
  /-- The extensions that state no access level. -/
  implicit : List Nat := []

/-- The identifier of a declaration: that of its record, or else its place in the input. -/
def effectiveId (decl : Declaration) (index : Nat) : String :=
  decl.id.getD ("#" ++ toString index)

namespace Loading

/-- The node with an identifier. -/
def indexOf? (state : Loading) (id : String) : Option Nat :=
  (state.ids.find? fun entry => entry.1 = id).map (·.2)

/-- The report on a declaration of a kind that has no label. -/
def kindEvents (decl : Declaration) : List Event :=
  if decl.kind.label.isNone && !decl.kind.isMark then
    [.unknownKind decl.kind.raw decl.name]
  else []

/-- Adds the declaration of one record, whose identifier has to be new. -/
def addRecord (state : Loading) (record : Record) : Logged Loading := do
  let decl ← Declaration.ofRecord record
  Logged.reportAll (kindEvents decl)
  let index := state.forest.size
  let id := effectiveId decl index
  if (state.indexOf? id).isSome then Logged.fail (.duplicateId id)
  else
    return {
      forest := state.forest.add decl
      ids := state.ids ++ [(id, index)]
      pending := state.pending ++ (record.container?.map fun parent => (index, parent)).toList
      implicit :=
        if decl.kind.isExtension && !record.statesLevel then state.implicit ++ [index]
        else state.implicit }

/-- Links one node to the container it names. -/
def linkPending (state : Loading) (forest : Forest) (link : Nat × String) :
    Except Failure Forest :=
  match state.indexOf? link.2 with
  | some parent => forest.link link.1 parent
  | none => .error (.unknownParent (forest.nameOf link.1) link.2)

end Loading

/-- The nodes of all records, linked to their containers. -/
structure Loaded where
  forest : Forest
  /-- The extensions that state no access level, in input order. -/
  implicit : List Nat

/-- Loads records in input order. -/
def loadRecords (records : List Record) : Logged Loaded := do
  let state ← records.foldlM Loading.addRecord {}
  let forest ← Logged.ofExcept (state.pending.foldlM state.linkPending state.forest)
  return { forest, implicit := state.implicit }

namespace Forest

/-- The members of a node, in input order. -/
def codeChildren (forest : Forest) (i : Nat) : List Nat :=
  (List.range forest.size).filter fun j => forest.codeParent? j = some i

end Forest
end DocForest
