/-!
# Percent-encoding

File names keep a conservative set of ASCII characters; every other character is written as the
bytes of its UTF-8 form, each as a percent sign and two hexadecimal digits.

## What is here

* `isPlainChar` — the characters that stand for themselves.
* `utf8` — the UTF-8 form of a character as numbers below 256.
* `percentEncode` — the encoding of a text.
-/

set_option autoImplicit false

namespace DocForest
namespace Text

/-- ASCII letters and digits, and the characters of the text `_.-~()`, stand for themselves. -/
def isPlainChar (c : Char) : Bool :=
  c.isAlphanum || c = '_' || c = '.' || c = '-' || c = '~' || c = '(' || c = ')'

/-- The UTF-8 form of a character: one to four bytes. -/
def utf8 (c : Char) : List Nat :=
  let n := c.toNat
  if n < 0x80 then [n]
  else if n < 0x800 then [0xC0 + n / 0x40, 0x80 + n % 0x40]
  else if n < 0x10000 then [0xE0 + n / 0x1000, 0x80 + n / 0x40 % 0x40, 0x80 + n % 0x40]
  else [0xF0 + n / 0x40000, 0x80 + n / 0x1000 % 0x40, 0x80 + n / 0x40 % 0x40, 0x80 + n % 0x40]

/-- A hexadecimal digit with capital letters. -/
def hexDigit (n : Nat) : Char :=
  if n < 10 then Char.ofNat ('0'.toNat + n) else Char.ofNat ('A'.toNat + (n - 10))

/-- A byte as a percent sign and two hexadecimal digits. -/
def percentByte (byte : Nat) : List Char :=
  ['%', hexDigit (byte / 16), hexDigit (byte % 16)]

/-- A character in percent-encoding. -/
def percentChar (c : Char) : List Char :=
  if isPlainChar c then [c] else (utf8 c).flatMap percentByte

/-- The characters `s` in percent-encoding. -/
def percentEncode (s : List Char) : List Char :=
  s.flatMap percentChar

end Text
end DocForest
