import DocForest.Text.Blank
import DocForest.Text.Pieces

/-!
# Section marks

A comment such as `MARK: - Name -` opens a section among the members of a type.  A dash on either
side asks for a separating line there.

## What is here

* `SectionMark` — a name and two dashes, each of which may be missing.
* `SectionMark.ofComment` — the mark of a comment.
* `SectionMark.ofRequirements` — the mark over the members of a constrained extension, made from
  its generic requirements.
-/

set_option autoImplicit false

namespace DocForest

/-- The heading of a section. -/
structure SectionMark where
  /-- The name of the section. -/
  name : Option String := none
  /-- Whether a line stands before the heading. -/
  startDash : Bool := false
  /-- Whether a line stands behind the heading. -/
  endDash : Bool := false
  deriving DecidableEq, Repr

namespace SectionMark

/-- Whether there is nothing to show. -/
def isEmpty (mark : SectionMark) : Bool :=
  mark.name.isNone && !mark.startDash && !mark.endDash

/-! ## Marks in comments -/

/-- A text as a name, which is trimmed and not empty. -/
def nameOf? (s : List Char) : Option String :=
  let name := Text.trimList s
  if name.isEmpty then none else some (String.ofList name)

/-- The mark of a comment without its keyword.  A dash at either end is set off by a space; the
two may share one space. -/
def ofContent (content : List Char) : SectionMark :=
  if content.isEmpty then {}
  else if content = ['-'] then { startDash := true }
  else
    let startDash := ['-', ' '].isPrefixOf content
    let endDash := [' ', '-'].isSuffixOf content
    let start := if startDash then 2 else 0
    let stop := if endDash then content.length - 2 else content.length
    { name := nameOf? ((content.take stop).drop start), startDash, endDash }

/-- The mark of a comment. -/
def ofComment (comment : String) : SectionMark :=
  ofContent (Text.withoutStart "MARK: ".toList comment.toList)

/-! ## Headings of generic requirements -/

/-- How the two sides of a requirement are related. -/
inductive Relation where
  | sameType
  | conforms
  deriving DecidableEq, Repr

/-- The sign between the two sides of a requirement in a heading. -/
def Relation.sign : Relation → List Char
  | .sameType => " == ".toList
  | .conforms => ": ".toList

/-- The relation at the beginning of a text and the right side behind it, which is not empty and
goes on to the end of its line, the last one. -/
def relation? (s : List Char) : Option (Relation × List Char) :=
  let found := match s.dropWhile Text.isBlank with
    | '=' :: '=' :: rest => some (Relation.sameType, rest.dropWhile Text.isBlank)
    | ':' :: rest => some (Relation.conforms, rest.dropWhile Text.isBlank)
    | _ => none
  found.filter fun side => !side.2.isEmpty && !side.2.contains '\n'

/-- The shortest left side of a requirement, its relation and its right side; `before` is what has
been passed already, last character first. -/
def sides? : List Char → List Char → Option (List Char × Relation × List Char)
  | _, [] => none
  | before, c :: rest =>
    if c = '\n' then none
    else match relation? rest with
      | some (relation, right) => some ((c :: before).reverse, relation, right)
      | none => sides? (c :: before) rest

/-- A text as code. -/
def asCode (s : List Char) : List Char :=
  '\x60' :: s ++ ['\x60']

/-- A requirement as it stands in a heading, with its sides as code. -/
def clauseText (clause : List Char) : List Char :=
  match sides? [] clause with
  | some (left, relation, right) => asCode left ++ relation.sign ++ asCode right
  | none => asCode clause

/-- The heading over the members of an extension with the given requirements, which are separated
by commas. -/
def requirementsHeading (requirements : String) : String :=
  let clauses := (Text.piecesBy (· = ',') requirements.toList).map Text.trimList
  let texts := (clauses.filter fun clause => !clause.isEmpty).map clauseText
  "Available where " ++ String.intercalate ", " (texts.map String.ofList)

/-- The mark over the members of an extension with the given requirements. -/
def ofRequirements (requirements : String) : SectionMark :=
  { name := some (requirementsHeading requirements) }

end SectionMark
end DocForest
