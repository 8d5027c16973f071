import DocForest.Arena.Basic

/-!
# Calls on an arena as data

## What is here

* `Operation` — a call that adds, links or arranges nodes.
* `Operation.apply` — what a call makes of an arena, or why it is refused.
* `Arena.after`, `Arena.afterAll` — the arena after a call, and after several; one that is refused leaves
  it as it is.
-/

set_option autoImplicit false

namespace DocForest

/-- A call on an arena.  Nodes are named by indices that may count from the end. -/
inductive Operation where
  /-- Adds a new declaration. -/
  | add (decl : Declaration)
  /-- Adds the declaration of a node once more, here or to another arena. -/
  | addAgain (k : Int)
  /-- Gives a node its container. -/
  | link (child parent : Int)
  /-- Gives a node its children. -/
  | setChildren (parent : Int) (children : List Int)
  /-- Gives the documentation its roots. -/
  | setRoots (roots : List Int)

/-- What a call makes of an arena. -/
def Operation.apply (arena : Arena) : Operation → Except Failure Arena
  | .add decl => .ok (arena.add decl)
  | .addAgain k => arena.addAgain k
  | .link child parent => arena.link child parent
  | .setChildren parent children => arena.setChildren parent children
  | .setRoots roots => arena.setRoots roots

namespace Arena

/-- The arena after a call, which changes nothing if it is refused. -/
def after (arena : Arena) (operation : Operation) : Arena :=
  match operation.apply arena with
  | .ok next => next
  | .error _ => arena

/-- The arena after several calls. -/
def afterAll (arena : Arena) (operations : List Operation) : Arena :=
  operations.foldl after arena

end Arena
end DocForest
