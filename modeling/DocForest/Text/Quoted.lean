import DocForest.Text.Printable

/-!
# Quoted text

Messages show a name between quotes, so that blanks and control characters in it can be seen.

## What is here

* `quoteMark` — the quote that encloses a text: the single one, unless the text holds it and does
  not hold the double one.
* `escaped` — one character between given quotes.
* `quoteList`, `quote` — the whole quoted text.
-/

set_option autoImplicit false

namespace DocForest
namespace Text

/-- The single quote. -/
def singleQuote : Char := '\x27'

/-- The double quote. -/
def doubleQuote : Char := '\x22'

/-- The quote that encloses the text `s`. -/
def quoteMark (s : List Char) : Char :=
  if s.contains singleQuote && !s.contains doubleQuote then doubleQuote else singleQuote

/-- `n` in hexadecimal with small letters, filled up with zeros to `width` digits. -/
def hexFilled (width n : Nat) : List Char :=
  (Nat.toDigits 16 n).leftpad width '0'

/-- The character `c` between two quotes `mark`: the backslash and the quote get a backslash in
front, line feed, carriage return and tab have names, other unprintable characters are written as
the shortest hexadecimal escape that has room for them. -/
def escaped (mark c : Char) : List Char :=
  if c = '\\' || c = mark then ['\\', c]
  else if c = '\n' then ['\\', 'n']
  else if c = '\r' then ['\\', 'r']
  else if c = '\t' then ['\\', 't']
  else if isPrintable c then [c]
  else if c.toNat < 0x100 then '\\' :: 'x' :: hexFilled 2 c.toNat
  else if c.toNat < 0x10000 then '\\' :: 'u' :: hexFilled 4 c.toNat
  else '\\' :: 'U' :: hexFilled 8 c.toNat

/-- The characters `s` between quotes. -/
def quoteList (s : List Char) : List Char :=
  quoteMark s :: s.flatMap (escaped (quoteMark s)) ++ [quoteMark s]

/-- The text `s` between quotes. -/
def quote (s : String) : String :=
  String.ofList (quoteList s.toList)

end Text
end DocForest
