import DocForest.Failure
import DocForest.Files.Path
import DocForest.Json.Reader

/-!
# File trees

The files that a run reads, held in memory.  There are no links between places.

## What is here

* `FileTree` — files with their contents, and directories, one of which is the working directory.
* `FileTree.follow?`, `FileTree.locate?` — the place that segments and paths lead to.
* `FileTree.readText`, `FileTree.readDocument` — the contents of a file.
* `FileTree.namesIn`, `FileTree.below` — what a directory holds.
-/

set_option autoImplicit false

namespace DocForest

/-- Files and directories by their places, which are the segments that lead there from the root.  The
directories on the way to a place need no entry. -/
structure FileTree where
  files : List (List String × String) := []
  directories : List (List String) := []
  /-- The directory in which relative paths begin. -/
  working : List String := []
  deriving Repr

namespace FileTree

/-- The places with an entry. -/
def entries (tree : FileTree) : List (List String) :=
  tree.working :: tree.files.map (·.1) ++ tree.directories

/-- Whether something is at a place: an entry, or a directory on the way to one. -/
def holds (tree : FileTree) (place : List String) : Bool :=
  tree.entries.any fun other => place.isPrefixOf other

/-- The contents of the file at a place; a later entry for a place counts. -/
def contents? (tree : FileTree) (place : List String) : Option String :=
  (tree.files.reverse.find? fun entry => entry.1 = place).map (·.2)

/-- Whether a file is at a place. -/
def isFile (tree : FileTree) (place : List String) : Bool :=
  (tree.contents? place).isSome

/-- Whether a directory is at a place; the root is one. -/
def isDirectory (tree : FileTree) (place : List String) : Bool :=
  place.isEmpty || (tree.holds place && !tree.isFile place)

/-- The place that segments lead to from a directory, if every step leads somewhere.  A single dot
stays, and a double dot goes back, though not from the root. -/
def follow? (tree : FileTree) (place : List String) : List String → Option (List String)
  | [] => some place
  | segment :: rest =>
    if !tree.isDirectory place then none
    else if segment = "." || segment = "" then tree.follow? place rest
    else if segment = ".." then tree.follow? place.dropLast rest
    else
      let next := place ++ [segment]
      if tree.holds next then tree.follow? next rest else none

/-- The place that a path leads to, from the working directory unless it begins with a slash. -/
def locate? (tree : FileTree) (path : Path) : Option (List String) :=
  tree.follow? (if path.start.isEmpty then tree.working else []) path.segments

/-- A text with every line end as a single line feed. -/
def plainLines : List Char → List Char
  | '\r' :: '\n' :: rest => '\n' :: plainLines rest
  | '\r' :: rest => '\n' :: plainLines rest
  | c :: rest => c :: plainLines rest
  | [] => []

/-- The text of the file that a path leads to. -/
def readText (tree : FileTree) (path : Path) : Except Failure String :=
  match (tree.locate? path).bind tree.contents? with
  | some text => .ok (String.ofList (plainLines text.toList))
  | none => .error (.isDirectory path.text)

/-- The value of the document that a path leads to. -/
def readDocument (tree : FileTree) (path : Path) : Except Failure Json := do
  let text ← tree.readText path
  match Json.parseDocument? text with
  | some value => return value
  | none => throw (.malformedDocument path.text)

/-- The segments that lead from a place to the entries below it. -/
def waysFrom (tree : FileTree) (place : List String) : List (List String) :=
  (tree.entries.filter fun other => place.isPrefixOf other).map fun other =>
    other.drop place.length

/-- The names in the directory at a place. -/
def namesIn (tree : FileTree) (place : List String) : List String :=
  ((tree.waysFrom place).filterMap List.head?).eraseDups

/-- All places below a place, as the segments that lead there from it. -/
def below (tree : FileTree) (place : List String) : List (List String) :=
  ((tree.waysFrom place).flatMap fun way =>
    (List.range way.length).map fun n => way.take (n + 1)).eraseDups

end FileTree
end DocForest
