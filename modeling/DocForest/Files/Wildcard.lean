import DocForest.Text.Pieces

/-!
# Wildcards in names

A pattern for one name: a star stands for any characters, a question mark for one, and brackets for
one out of a set, which may have ranges and may be negated by an exclamation mark.

## What is here

* `CharSet`, `CharSet.ofBody` — the set between two brackets.
* `Wildcard`, `Wildcard.ofText` — the parts of a pattern.
* `Wildcard.endsFitting`, `Wildcard.fits` — whether a name fits a pattern.
-/

set_option autoImplicit false

namespace DocForest

/-- The characters that brackets stand for. -/
structure CharSet where
  negated : Bool
  singles : List Char
  ranges : List (Char × Char)
  deriving DecidableEq, Repr

namespace CharSet

/-- Whether a character is in the set. -/
def holds (set : CharSet) (c : Char) : Bool :=
  let among := set.singles.contains c || set.ranges.any fun range => range.1 ≤ c && c ≤ range.2
  among != set.negated

/-- The text cut at its hyphens, where a hyphen cuts only if at least `gap` characters stand in
front of it and two in front of every later one; `chunk` is what has been read, last first. -/
def cutFrom : Nat → List Char → List Char → List (List Char)
  | _, chunk, [] => [chunk.reverse]
  | 0, chunk, c :: rest =>
    if c = '-' then chunk.reverse :: cutFrom 2 [] rest else cutFrom 0 (c :: chunk) rest
  | gap + 1, chunk, c :: rest => cutFrom gap (c :: chunk) rest

/-- The chunks between the hyphens that make ranges.  A hyphen at the very end makes none. -/
def chunks (body : List Char) : List (List Char) :=
  let cut := cutFrom (if body.head? = some '!' then 2 else 1) [] body
  if cut.getLast? = some [] && 1 < cut.length then
    let fronts := cut.dropLast
    fronts.dropLast ++ [(fronts.getLast?.getD []) ++ ['-']]
  else cut

/-- Joins a chunk to those behind it: a range whose ends are in the wrong order is dropped with
both of its ends. -/
def joinChunk (chunk : List Char) : List (List Char) → List (List Char)
  | [] => [chunk]
  | next :: rest =>
    match chunk.getLast?, next.head? with
    | some low, some high =>
      if high < low then (chunk.dropLast ++ next.drop 1) :: rest else chunk :: next :: rest
    | _, _ => chunk :: next :: rest

/-- The chunks without ranges whose ends are in the wrong order, worked from the last one on. -/
def validChunks (chunks : List (List Char)) : List (List Char) :=
  chunks.foldr joinChunk []

/-- The ranges between chunks. -/
def rangesOf : List (List Char) → List (Char × Char)
  | chunk :: next :: rest =>
    match chunk.getLast?, next.head? with
    | some low, some high => (low, high) :: rangesOf (next :: rest)
    | _, _ => rangesOf (next :: rest)
  | _ => []

/-- The set of the text between two brackets.  A hyphen right behind the exclamation mark stands for
itself. -/
def ofBody (body : List Char) : CharSet :=
  let parts := validChunks (chunks body)
  let negated := (parts.head?.bind List.head?) = some '!'
  let parts := if negated then (parts.headD []).drop 1 :: parts.drop 1 else parts
  let hyphens := if (parts.headD []).isEmpty && 1 < parts.length then ['-'] else []
  { negated, singles := hyphens ++ parts.flatten, ranges := rangesOf parts }

end CharSet

/-- A part of a pattern. -/
inductive Wildcard where
  | any
  | one
  | among (set : CharSet)
  | exactly (c : Char)
  deriving DecidableEq, Repr

namespace Wildcard

/-- Whether a text has wildcards. -/
def occursIn (text : String) : Bool :=
  text.toList.any fun c => c = '*' || c = '?' || c = '['

/-- The body of brackets and what stands behind them, if they are closed.  A bracket right behind
the opening one, or behind its exclamation mark, belongs to the body. -/
def bracketBody? (s : List Char) : Option (List Char × List Char) :=
  let (front, rest) := match s with
    | '!' :: rest => (['!'], rest)
    | _ => ([], s)
  let (front, rest) := match rest with
    | ']' :: rest' => (front ++ [']'], rest')
    | _ => (front, rest)
  let inner := rest.takeWhile (· ≠ ']')
  match rest.drop inner.length with
  | _ :: after => some (front ++ inner, after)
  | [] => none

/-- The parts of a pattern; the first argument bounds their number. -/
def partsOf : Nat → List Char → List Wildcard
  | 0, _ => []
  | _, [] => []
  | steps + 1, c :: rest =>
    if c = '*' then any :: partsOf steps rest
    else if c = '?' then one :: partsOf steps rest
    else if c = '[' then
      match bracketBody? rest with
      | some (body, after) => among (CharSet.ofBody body) :: partsOf steps after
      | none => exactly c :: partsOf steps rest
    else exactly c :: partsOf steps rest

/-- The parts of a pattern. -/
def ofText (text : String) : List Wildcard :=
  partsOf text.toList.length text.toList

/-- For every place of a list of truth values, whether one from there on is true. -/
def anyFrom : List Bool → List Bool
  | [] => []
  | b :: rest =>
    let later := anyFrom rest
    (b || later.headD false) :: later

/-- For every end of the text `s`, from the whole of it to the empty one, whether it fits the parts
of a pattern.  No end is looked at more than once for a part. -/
def endsFitting (s : List Char) : List Wildcard → List Bool
  | [] => s.map (fun _ => false) ++ [true]
  | any :: parts => anyFrom (endsFitting s parts)
  | one :: parts => (endsFitting s parts).drop 1 ++ [false]
  | among set :: parts =>
    s.zipWith (fun c fit => set.holds c && fit) ((endsFitting s parts).drop 1) ++ [false]
  | exactly c' :: parts =>
    s.zipWith (fun c fit => c = c' && fit) ((endsFitting s parts).drop 1) ++ [false]

/-- Whether characters fit the parts of a pattern. -/
def fits (parts : List Wildcard) (s : List Char) : Bool :=
  (endsFitting s parts).headD false

end Wildcard
end DocForest
