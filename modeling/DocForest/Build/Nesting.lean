import DocForest.Forest.Walk

/-!
# Nesting without cycles

## What is here

* `firstRepeated?` — the first element of a list that has occurred before.
* `Forest.loopStart?` — where the chain of containers above a node begins to repeat.
* `Forest.checkNesting` — the check that every chain of containers ends.
-/

set_option autoImplicit false

namespace DocForest

/-- The first element of a list that is among the `seen` ones or has occurred before. -/
def firstRepeated? (seen : List Nat) : List Nat → Option Nat
  | [] => none
  | i :: rest => if seen.contains i then some i else firstRepeated? (i :: seen) rest

namespace Forest

/-- The first node that the chain of containers above a node meets twice.  A chain that has more
nodes than the forest repeats one. -/
def loopStart? (forest : Forest) (i : Nat) : Option Nat :=
  firstRepeated? [] (climb forest.codeParent? forest.size i)

/-- Fails at the first node whose chain of containers does not end, with the name of the node at
which the chain closes. -/
def checkNesting (forest : Forest) : Except Failure Unit :=
  match (List.range forest.size).findSome? forest.loopStart? with
  | some entry => .error (.cyclicNesting (forest.nameOf entry))
  | none => .ok ()

end Forest
end DocForest
