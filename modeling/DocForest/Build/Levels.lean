import DocForest.Build.Load

/-!
# The access level of extensions

An extension that states no access level is as visible as its most visible member.

## What is here

* `Forest.memberLevels` — the levels of the members of a node.
* `Forest.deriveLevel`, `Forest.deriveLevels` — the forest with the levels of one and of several
  extensions derived.
-/

set_option autoImplicit false

namespace DocForest
namespace Forest

/-- The levels of the members of a node, marks left out. -/
def memberLevels (forest : Forest) (i : Nat) : List AccessLevel :=
  ((forest.codeChildren i).filterMap forest.decl?).filterMap fun decl =>
    if decl.kind.isMark then none else some decl.level

/-- The most visible of some levels. -/
def widest? : List AccessLevel → Option AccessLevel
  | [] => none
  | level :: rest => some (rest.foldl AccessLevel.max level)

/-- The forest in which a node is as visible as its most visible member, if it has members. -/
def deriveLevel (forest : Forest) (i : Nat) : Forest :=
  match widest? (forest.memberLevels i) with
  | some level => forest.modifyDecl i fun decl => { decl with level }
  | none => forest

/-- The forest with the levels of several extensions derived, one after the other. -/
def deriveLevels (forest : Forest) (extensions : List Nat) : Forest :=
  extensions.foldl deriveLevel forest

end Forest
end DocForest
