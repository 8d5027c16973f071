import DocForest.Text.Pieces

/-!
# Paths

## What is here

* `Path` — a path as the slashes it begins with and its segments.
* `Path.ofText`, `Path.text` — reading and writing; empty segments and single dots are dropped,
  double dots are kept.
* `Path.fileName`, `Path.stem`, `Path.suffix` — the parts of the last segment.
* `Path.before` — the order of paths, segment by segment.
-/

set_option autoImplicit false

namespace DocForest

/-- A path without empty segments and single dots. -/
structure Path where
  /-- The slashes at the beginning: none for a relative path. -/
  start : String := ""
  segments : List String
  deriving DecidableEq, Repr

namespace Path

/-- The pieces of a text between its slashes. -/
def pieces (text : String) : List String :=
  (Text.piecesBy (· = '/') text.toList).map String.ofList

/-- Whether a piece of a text is a segment of its path. -/
def isSegment (piece : String) : Bool :=
  piece ≠ "" && piece ≠ "."

/-- The path that a text stands for.  Two slashes at the beginning are kept, more count as one. -/
def ofText (text : String) : Path :=
  let slashes := (text.toList.takeWhile (· = '/')).length
  { start := if slashes = 0 then "" else if slashes = 2 then "//" else "/"
    segments := (pieces text).filter isSegment }

/-- The text of a path; the one without segments is a single dot. -/
def text (path : Path) : String :=
  if path.start.isEmpty && path.segments.isEmpty then "."
  else path.start ++ String.intercalate "/" path.segments

/-- The path with more segments behind it. -/
def join (path : Path) (segments : List String) : Path :=
  { path with segments := path.segments ++ segments }

/-- Whether a list of segments may stand before another: at their first difference the smaller
segment comes first, and a list comes before every longer one that it begins. -/
def segmentsBefore : List String → List String → Bool
  | [], _ => true
  | _ :: _, [] => false
  | a :: rest, b :: others => if a = b then segmentsBefore rest others else decide (a ≤ b)

/-- Whether a path may stand before another with the same beginning. -/
def before (path other : Path) : Bool :=
  segmentsBefore path.segments other.segments

/-- The last segment, empty if there is none. -/
def fileName (path : Path) : String :=
  path.segments.getLast?.getD ""

/-- The file name up to its first dot. -/
def stem (path : Path) : String :=
  String.ofList (path.fileName.toList.takeWhile (· ≠ '.'))

/-- The file name from its last dot on, unless the dot stands at its beginning or its end. -/
def suffix (path : Path) : String :=
  let reversed := path.fileName.toList.reverse
  let ending := reversed.takeWhile (· ≠ '.')
  match reversed.drop ending.length with
  | _ :: _ :: _ => if ending.isEmpty then "" else String.ofList ('.' :: ending.reverse)
  | _ => ""

end Path
end DocForest
