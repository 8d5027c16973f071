import DocForest.Forest.Walk

/-!
# Qualified names with generic arguments

A text names a declaration when it spells its qualified name, where any generic arguments may stand
behind the name of a container: `Outer<Int>.Inner.method(arg:)`.

## What is here

* `afterLink` — what can be left of a text behind generic arguments and a dot.
* `afterNames` — what can be left of it behind a whole qualified name.
* `namesWhole`, `namesStart`, `namesPart` — whether a text, a beginning of it or some part of it
  spells a qualified name.
-/

set_option autoImplicit false

namespace DocForest
namespace Pattern

/-- What is left of a text behind a name, if it begins with the name. -/
def afterName (name s : List Char) : List (List Char) :=
  if name.isPrefixOf s then [s.drop name.length] else []

/-- What is left of a text behind the dot it begins with. -/
def afterDot : List Char → List (List Char)
  | '.' :: rest => [rest]
  | _ => []

/-- What can be left of a text behind the end of generic arguments that has been opened, and a
dot.  The arguments may be anything on one line. -/
def afterArguments : List Char → List (List Char)
  | [] => []
  | c :: rest =>
    (if c = '>' then afterDot rest else []) ++ (if c = '\n' then [] else afterArguments rest)

/-- What can be left of a text behind generic arguments, which may be missing, and a dot. -/
def afterLink : List Char → List (List Char)
  | '<' :: rest => afterArguments rest
  | s => afterDot s

/-- What can be left of a text behind names with links between them. -/
def afterNames : List (List Char) → List Char → List (List Char)
  | [], s => [s]
  | [name], s => afterName name s
  | name :: names, s =>
    ((afterName name s).flatMap afterLink).flatMap (afterNames names)

/-- Whether the whole text spells the names. -/
def namesWhole (names : List (List Char)) (s : List Char) : Bool :=
  (afterNames names s).any List.isEmpty

/-- Whether some beginning of the text spells the names. -/
def namesStart (names : List (List Char)) (s : List Char) : Bool :=
  !(afterNames names s).isEmpty

/-- Whether some part of the text spells the names. -/
def namesPart (names : List (List Char)) : List Char → Bool
  | [] => namesStart names []
  | c :: rest => namesStart names (c :: rest) || namesPart names rest

end Pattern

/-- The names of the containers of a node and of the node itself. -/
def Forest.pathNames (forest : Forest) (i : Nat) : List (List Char) :=
  (forest.namespacePath i).map fun j => (forest.nameTextOf j).toList

end DocForest
