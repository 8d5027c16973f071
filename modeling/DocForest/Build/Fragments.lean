import DocForest.Build.Candidates
import DocForest.Describe.Names
import DocForest.Event
import DocForest.StableSort

/-!
# Merging the fragments of a type

A type may come in several fragments: its declaration, extensions of it, categories.  One of them
shows the members of all; the others are merged into it.

The fragments of one type are told by a key, which every fragment has to have.  Among them the first
primary of every kind stays, and so does the first extension if there is no primary.  Everything else
is merged into one that stays, which is why a fragment that is merged into is never merged itself.

## What is here

* `Forest.mergeName`, `Forest.mergeKey?` — what all fragments of one type have in common.
* `Forest.checkFragments` — that every fragment has a key.
* `gatherBy` — the elements of a list in groups, in the order in which the groups begin.
* `Family` — the fragments of one type, told apart into primaries and extensions.
* `Family.target?` — the fragment that a fragment is merged into.
* `Forest.merged`, `Forest.mergeEvents` — the forest with all fragments merged, and what is
  reported of it.
* `Forest.fragmentsOf` — the fragments that were merged into a node.
-/

set_option autoImplicit false

namespace DocForest

/-- The elements of a list in groups of equal keys, each group where its first element stands. -/
def gatherBy {α κ : Type} [BEq κ] (key : α → κ) (items : List α) : List (κ × List α) :=
  let keyed := items.map fun item => (key item, item)
  (keyed.map (·.1)).eraseDups.map fun k => (k, (keyed.filter fun entry => entry.1 == k).map (·.2))

/-- Whether a declaration may be a fragment of a type. -/
def Declaration.isFragment (decl : Declaration) : Bool :=
  decl.kind.isExtensible || decl.kind = .objcClass || decl.kind.isExtension

namespace Forest

/-- What the fragments of one type are called by: the unique identifier of a Swift type, otherwise
the documented module and the qualified name of the extended type. -/
def mergeName (forest : Forest) (i : Nat) : Json :=
  match forest.decl? i with
  | none => .str ""
  | some decl =>
    if decl.kind.isSwift && decl.hasUsr then decl.usr
    else
      let names := (forest.namespaceAncestors i).map forest.nameTextOf ++ [decl.baseName]
      .str (decl.docModule.givenText ++ "|" ++ String.intercalate "." names)

/-- What the fragments of one type have in common. -/
def mergeKey? (forest : Forest) (i : Nat) : Option Json.Key :=
  (forest.mergeName i).key?

end Forest

/-- The fragments of one type in input order. -/
structure Family where
  members : List Nat
  deriving DecidableEq, Repr

namespace Family

/-- The fragments that declare a type. -/
def primaries (family : Family) (forest : Forest) : List Nat :=
  family.members.filter fun i => !forest.isExtension i

/-- The fragments that extend it. -/
def extensions (family : Family) (forest : Forest) : List Nat :=
  family.members.filter forest.isExtension

/-- The first primary of the kind of a node. -/
def leader? (family : Family) (forest : Forest) (i : Nat) : Option Nat :=
  (family.primaries forest).find? fun j => forest.kindOf j = forest.kindOf i

/-- The first primary of every kind. -/
def leaders (family : Family) (forest : Forest) : List Nat :=
  (family.primaries forest).filter fun i => family.leader? forest i = some i

/-- The first primary that an extension extends by its own kind. -/
def fitting? (family : Family) (forest : Forest) (i : Nat) : Option Nat :=
  (family.leaders forest).find? fun j => (forest.kindOf i).bases.contains (forest.kindOf j)

/-- The fragment that another is merged into, if it is merged: a primary into the first one of its
kind, an extension into the first one that it fits or else into the first of all; without any
primary, every extension into the first extension. -/
def target? (family : Family) (forest : Forest) (i : Nat) : Option Nat :=
  let found :=
    if (family.primaries forest).isEmpty then (family.extensions forest).head?
    else if forest.isExtension i then
      family.fitting? forest i <|> (family.primaries forest).head?
    else family.leader? forest i
  found.filter fun j => j ≠ i

/-- The extension that stands for a type without primaries. -/
def base? (family : Family) (forest : Forest) : Option Nat :=
  if (family.primaries forest).isEmpty then (family.extensions forest).head? else none

/-- What is reported of the primaries: their kinds, if there are several. -/
def kindEvents (family : Family) (forest : Forest) (name : String) : List Event :=
  let kinds := (family.leaders forest).map fun i => (forest.kindOf i).raw
  if 1 < kinds.length then [.mixedKinds name (stableSort (fun a b => decide (a ≤ b)) kinds)]
  else []

/-- What is reported of an extension: that it fits none of several kinds. -/
def extensionEvents (family : Family) (forest : Forest) (name : String) (i : Nat) : List Event :=
  if (family.fitting? forest i).isNone && 1 < (family.leaders forest).length then
    [.ambiguousExtension name
      ((family.primaries forest).head?.elim "" fun j => (forest.kindOf j).raw)]
  else []

/-- What is reported when a family is merged. -/
def events (family : Family) (forest : Forest) : List Event :=
  match (family.primaries forest).head? with
  | none =>
    ((family.base? forest).map fun i => Event.undocumentedBase (forest.qualifiedName i)).toList
  | some first =>
    let name := forest.qualifiedName first
    family.kindEvents forest name
      ++ (family.extensions forest).flatMap (family.extensionEvents forest name)

/-- The merged fragments, each with the one it is merged into. -/
def targets (family : Family) (forest : Forest) : List (Nat × Nat) :=
  family.members.filterMap fun i => (family.target? forest i).map fun j => (i, j)

end Family

namespace Forest

/-- The fragments among the visible nodes, in input order. -/
def fragments (forest : Forest) (visible : List Nat) : List Nat :=
  (List.range forest.size).filter fun i =>
    visible.contains i && forest.satisfies i Declaration.isFragment

/-- Every fragment has to have a key. -/
def checkFragments (forest : Forest) (visible : List Nat) : Except Failure Unit :=
  if (forest.fragments visible).all fun i => (forest.mergeName i).isKey then .ok ()
  else .error .notKey

/-- The families among the visible nodes, in the order of their first fragments. -/
def families (forest : Forest) (visible : List Nat) : List Family :=
  (gatherBy forest.mergeKey? (forest.fragments visible)).map fun group => ⟨group.2⟩

/-- The forest in which some nodes are merged into others. -/
def putTargets (forest : Forest) (targets : List (Nat × Nat)) : Forest :=
  targets.foldl (fun forest entry => forest.modify entry.1 fun node =>
    { node with mergedInto := some entry.2 }) forest

/-- The forest in which some extensions stand for types that are not documented. -/
def putBases (forest : Forest) (bases : List Nat) : Forest :=
  bases.foldl (fun forest i => forest.modify i fun node =>
    { node with undocumentedBase := true }) forest

/-- The forest with the fragments of every type merged. -/
def merged (forest : Forest) (visible : List Nat) : Forest :=
  let families := forest.families visible
  (forest.putTargets (families.flatMap fun family => family.targets forest)).putBases
    (families.filterMap fun family => family.base? forest)

/-- What is reported when the fragments of every type are merged. -/
def mergeEvents (forest : Forest) (visible : List Nat) : List Event :=
  (forest.families visible).flatMap fun family => family.events forest

/-- Whether a node is merged into another. -/
def isMerged (forest : Forest) (i : Nat) : Bool :=
  (forest.node? i).any fun node => node.mergedInto.isSome

/-- The fragments that were merged into a node, in input order. -/
def fragmentsOf (forest : Forest) (i : Nat) : List Nat :=
  (List.range forest.size).filter fun j => ((forest.node? j).bind (·.mergedInto)) = some i

end Forest
end DocForest
