import DocForest.Declaration.Basic
import DocForest.Failure
import DocForest.Text.Blank
import DocForest.Text.Letter

/-!
# Anchors of members on a page

## What is here

* `slug` — a text in small letters and digits with single dashes between its parts.
* `anchor` — the anchor of a declaration: its unique identifier, or a slug of its name.
* `anchorFault?`, `checkedAnchor` — why a declaration has no anchor, and the anchor of one that has
  it; the value that it is made of has to be a text.
-/

set_option autoImplicit false

namespace DocForest
namespace Pages

/-- Whether a character stands for itself in a slug. -/
def isSlugChar (c : Char) : Bool :=
  ('a' ≤ c && c ≤ 'z') || c.isDigit

/-- The runs of slug characters in a text, joined by dashes. -/
def slug (s : List Char) : List Char :=
  let words := Text.piecesBy (fun c => !isSlugChar c) (Text.lowered s)
  ['-'].intercalate (words.filter fun word => !word.isEmpty)

/-- The anchor of a declaration.  The unique identifier keeps overloads apart. -/
def anchor (decl : Declaration) : String :=
  if decl.hasUsr then "/" ++ decl.usr.plainText
  else
    let name := slug decl.nameText.toList
    "/" ++ (if name.isEmpty then "section" else String.ofList name)

/-- Why a declaration has no anchor, if it has none. -/
def anchorFault? (decl : Declaration) : Option Failure :=
  if decl.hasUsr then (if decl.usr.isText then none else some .notJoinable)
  else if decl.name.isText then none
  else some .notText

/-- The anchor of a declaration, whose identifier or name has to be a text. -/
def checkedAnchor (decl : Declaration) : Except Failure String :=
  match anchorFault? decl with
  | none => .ok (anchor decl)
  | some failure => .error failure

end Pages
end DocForest
