/-!
# Pieces of a text

## What is here

* `startsWith`, `endsWith`, `holds` — whether one text begins, ends, or stands somewhere in
  another.
* `withoutStart` — a text without a given beginning.
* `piecesBy` — the pieces of a text between its separators.
-/

set_option autoImplicit false

namespace DocForest
namespace Text

/-- Whether the text `s` begins with `start`. -/
def startsWith (start s : String) : Bool :=
  start.toList.isPrefixOf s.toList

/-- Whether the text `s` ends with `ending`. -/
def endsWith (ending s : String) : Bool :=
  ending.toList.isSuffixOf s.toList

/-- Whether `part` stands somewhere in a list of characters. -/
def holdsList (part : List Char) : List Char → Bool
  | [] => part.isEmpty
  | c :: rest => part.isPrefixOf (c :: rest) || holdsList part rest

/-- Whether the text `part` stands somewhere in `s`. -/
def holds (part s : String) : Bool :=
  holdsList part.toList s.toList

/-- The characters `s` without the beginning `start`, or all of them if they begin otherwise. -/
def withoutStart (start s : List Char) : List Char :=
  if start.isPrefixOf s then s.drop start.length else s

/-- The pieces of `s` between the characters of the class `p`; there is one more piece than there
are separators. -/
def piecesBy (p : Char → Bool) : List Char → List (List Char)
  | [] => [[]]
  | c :: rest =>
    if p c then [] :: piecesBy p rest
    else match piecesBy p rest with
      | [] => [[c]]
      | first :: others => (c :: first) :: others

theorem piecesBy_ne_nil (p : Char → Bool) (s : List Char) : piecesBy p s ≠ [] := by
  cases s with
  | nil => simp [piecesBy]
  | cons c rest =>
    rw [piecesBy]
    split
    · simp
    · split <;> simp

end Text
end DocForest
