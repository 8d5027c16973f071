import DocForest.Files.Tree
import DocForest.Files.Wildcard
import DocForest.StableSort

/-!
# Files by patterns

A pattern is a path whose segments may have wildcards; a segment of two stars stands for any number
of directories.  Names that begin with a dot are found only by segments that begin with one.

The search begins at the longest part of the pattern without wildcards and follows its steps one
after the other, each from every place that the steps before it lead to.  What it finds are texts,
spelled as the pattern is: two stars that stand for no directory at all leave a slash at the end, also
behind something that is no directory.  The files that are found are those that the texts lead to as
paths, where such a slash does not count.

## What is here

* `Segment` — one step of a pattern.
* `Glob.ofText` — the fixed text at the beginning of a pattern and its steps from there on.
* `FileTree.step`, `FileTree.expand` — what one step and what several steps lead to.
* `FileTree.foundTexts` — the texts that a pattern finds, in their order.
* `FileTree.glob` — the regular files that a pattern finds.
-/

set_option autoImplicit false

namespace DocForest

/-- A step of a pattern. -/
inductive Segment where
  /-- One given name. -/
  | exactly (name : String)
  /-- One name that fits, hidden ones only if asked for. -/
  | fitting (hidden : Bool) (parts : List Wildcard)
  /-- Any number of steps down. -/
  | anyDepth
  deriving DecidableEq, Repr

namespace Segment

/-- The step for one piece of a pattern. -/
def ofText (piece : String) : Segment :=
  if piece = "**" then anyDepth
  else if Wildcard.occursIn piece then
    fitting (Text.startsWith "." piece) (Wildcard.ofText piece)
  else exactly piece

end Segment

/-- A pattern: the text with which all that it finds begins, and the steps from there on. -/
structure Glob where
  base : String
  steps : List Segment
  deriving DecidableEq, Repr

namespace Glob

/-- The pattern of a text.  A slash at its end asks for directories. -/
def ofText (text : String) : Glob :=
  let pieces := Path.pieces text
  let fixed := pieces.takeWhile fun piece => !Wildcard.occursIn piece
  let rest := pieces.drop fixed.length
  if rest.isEmpty then ⟨text, []⟩
  else
    let base := Text.trimEndOf (· = '/') (String.intercalate "/" fixed).toList
    { base := if base.isEmpty then String.ofList (fixed.map fun _ => '/') else String.ofList base
      steps := ((rest.filter (· ≠ "")).map Segment.ofText)
        ++ if rest.getLast? = some "" then [.exactly ""] else [] }

/-- A text with a further step spelled behind it. -/
def spelled (text way : String) : String :=
  if text.isEmpty then way
  else if Text.endsWith "/" text then text ++ way
  else text ++ "/" ++ way

end Glob

namespace FileTree

/-- The place that a text leads to, spelled with all its slashes and dots. -/
def placeOf? (tree : FileTree) (text : String) : Option (List String) :=
  tree.follow? (if Text.startsWith "/" text then [] else tree.working) (Path.pieces text)

/-- Whether a name is hidden. -/
def isHidden (name : String) : Bool :=
  Text.startsWith "." name

/-- What the next step of a pattern leads to from a text, as further segments; `more` says that
further steps follow, which only directories allow. -/
def step (tree : FileTree) (text : String) (more : Bool) (segment : Segment) :
    List (List String) :=
  let place? := (tree.placeOf? text).filter tree.isDirectory
  match segment with
  | .exactly name =>
    match place? with
    | none => []
    | some place => if (tree.follow? place [name]).isSome then [[name]] else []
  | .fitting hidden parts =>
    match place? with
    | none => []
    | some place =>
      let names := (tree.namesIn place).filter fun name =>
        (hidden || !isHidden name) && Wildcard.fits parts name.toList
          && (!more || tree.isDirectory (place ++ [name]))
      names.map fun name => [name]
  | .anyDepth =>
    [""] :: match place? with
      | none => []
      | some place => (tree.below place).filter fun way =>
        way.all (fun name => !isHidden name) && (!more || tree.isDirectory (place ++ way))

/-- What the steps of a pattern lead to from a text. -/
def expand (tree : FileTree) (text : String) : List Segment → List String
  | [] => [text]
  | segment :: rest =>
    (tree.step text (!rest.isEmpty) segment).flatMap fun way =>
      tree.expand (way.foldl Glob.spelled text) rest

/-- The texts that a pattern finds, in their order.  Without steps it finds what is there. -/
def foundTexts (tree : FileTree) (pattern : String) : List String :=
  let glob := Glob.ofText pattern
  let found :=
    if glob.steps.isEmpty && (tree.placeOf? glob.base).isNone then []
    else tree.expand glob.base glob.steps
  stableSort (fun a b => decide (a ≤ b)) found

/-- The regular files that a pattern finds, in the order of the texts. -/
def glob (tree : FileTree) (pattern : String) : List Path :=
  ((tree.foundTexts pattern).map Path.ofText).filter fun path =>
    (tree.locate? path).any tree.isFile

end FileTree
end DocForest
