/-!
# Blank characters and trimming

A text is trimmed before it is shown or compared: blank characters at both ends are dropped, those
inside are kept.

## What is here

* `isBlank` — the twenty-nine blank characters: the ASCII blanks, the four information separators
  U+001C to U+001F, and the space, line and paragraph separators of Unicode.
* `trimList`, `trim` — a text without the blanks at its two ends.
* `trimEndOf` — a text without the trailing characters of a class.
-/

set_option autoImplicit false

namespace DocForest
namespace Text

/-- A blank is a character that trimming removes.  The zero-width space U+200B and the byte order
mark U+FEFF are not blanks. -/
def isBlank (c : Char) : Bool :=
  let n := c.toNat
  (9 ≤ n && n ≤ 13) || (28 ≤ n && n ≤ 32) || n == 0x85 || n == 0xA0 || n == 0x1680
    || (0x2000 ≤ n && n ≤ 0x200A) || n == 0x2028 || n == 0x2029 || n == 0x202F || n == 0x205F
    || n == 0x3000

/-- The characters of `s` up to the last one outside the class `p`. -/
def trimEndOf (p : Char → Bool) (s : List Char) : List Char :=
  (s.reverse.dropWhile p).reverse

/-- The characters of `s` from the first to the last one outside the class `p`. -/
def trimBothOf (p : Char → Bool) (s : List Char) : List Char :=
  trimEndOf p (s.dropWhile p)

/-- The characters of `s` without the blanks at its two ends. -/
def trimList (s : List Char) : List Char :=
  trimBothOf isBlank s

/-- The text `s` without the blanks at its two ends. -/
def trim (s : String) : String :=
  String.ofList (trimList s.toList)

end Text
end DocForest
