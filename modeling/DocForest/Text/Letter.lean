/-!
# Letter case against ASCII words

Names of access levels, endings of words and file names are compared with words of ASCII letters
without regard to case.  Only a few characters outside ASCII take part: those whose capital or
small form is made of ASCII letters.

## What is here

* `capitals`, `capitalized` — capital letters, exact wherever the result is an ASCII word.
* `smalls`, `lowered` — small letters, exact wherever a character of the result is an ASCII letter.
* `foldAscii` — small letters of a text of ASCII characters.
-/

set_option autoImplicit false

namespace DocForest
namespace Text

/-- The capital form of a character.  Outside ASCII only the characters whose capital form is made
of ASCII letters change: the sharp s, the dotless i, the long s and the ligatures of f and s.  All
others have capital forms outside ASCII, so keeping them never makes or breaks an ASCII word. -/
def capitals (c : Char) : List Char :=
  match c.toNat with
  | 0xDF => ['S', 'S']
  | 0x131 => ['I']
  | 0x17F => ['S']
  | 0xFB00 => ['F', 'F']
  | 0xFB01 => ['F', 'I']
  | 0xFB02 => ['F', 'L']
  | 0xFB03 => ['F', 'F', 'I']
  | 0xFB04 => ['F', 'F', 'L']
  | 0xFB05 => ['S', 'T']
  | 0xFB06 => ['S', 'T']
  | _ => [c.toUpper]

/-- The text `s` in capital letters, as far as ASCII words are concerned. -/
def capitalized (s : String) : String :=
  String.ofList (s.toList.flatMap capitals)

/-- The small form of a character.  Outside ASCII only the dotted capital I and the Kelvin sign
have a small form that holds an ASCII letter. -/
def smalls (c : Char) : List Char :=
  match c.toNat with
  | 0x130 => ['i', Char.ofNat 0x307]
  | 0x212A => ['k']
  | _ => [c.toLower]

/-- The characters `s` in small letters, as far as ASCII letters are concerned. -/
def lowered (s : List Char) : List Char :=
  s.flatMap smalls

/-- The text `s` with ASCII capitals made small.  File names are ASCII, so two of them agree under
`foldAscii` exactly when they agree up to case. -/
def foldAscii (s : String) : String :=
  String.ofList (s.toList.map Char.toLower)

/-- The text `s` with ASCII small letters made capital. -/
def upperAscii (s : String) : String :=
  String.ofList (s.toList.map Char.toUpper)

end Text
end DocForest
