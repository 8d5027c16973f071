import DocForest.Json.Basic
import DocForest.Text.Pieces

/-!
# Reading JSON documents

A document is read from a list of characters; every reader returns what it read and the characters
behind it.

## What is here

* `Json.readString?`, `Json.readNumber?`, `Json.readValue?` — the readers of the three kinds of
  token runs.
* `Json.parse?` — a whole document.
* `Json.parseDocument?` — a document that may also be blank: lines that are empty or hold only a
  comment stand for null.
-/

set_option autoImplicit false

namespace DocForest
namespace Json

/-- The blanks between tokens. -/
def isGap (c : Char) : Bool :=
  c = ' ' || c = '\n' || c = '\t' || c = '\r'

/-- The characters from the first one that is no gap. -/
def skipGap (s : List Char) : List Char :=
  s.dropWhile isGap

/-! ## Strings -/

/-- The value of a hexadecimal digit. -/
def hexValue? (c : Char) : Option Nat :=
  if c.isDigit then some (c.toNat - '0'.toNat)
  else if 'a' ≤ c && c ≤ 'f' then some (c.toNat - 'a'.toNat + 10)
  else if 'A' ≤ c && c ≤ 'F' then some (c.toNat - 'A'.toNat + 10)
  else none

/-- Four hexadecimal digits. -/
def readHex4? : List Char → Option (Nat × List Char)
  | a :: b :: c :: d :: rest => do
    let a ← hexValue? a
    let b ← hexValue? b
    let c ← hexValue? c
    let d ← hexValue? d
    some (((a * 16 + b) * 16 + c) * 16 + d, rest)
  | _ => none

/-- The character of a code unit that may be the first half of a surrogate pair whose second half
follows.  Half a pair alone gives the replacement character. -/
def readUnit (unit : Nat) (rest : List Char) : Char × List Char :=
  if 0xD800 ≤ unit && unit < 0xDC00 then
    match rest with
    | '\\' :: 'u' :: after =>
      match readHex4? after with
      | some (low, after') =>
        if 0xDC00 ≤ low && low < 0xE000 then
          (Char.ofNat (0x10000 + (unit - 0xD800) * 0x400 + (low - 0xDC00)), after')
        else (Char.ofNat 0xFFFD, rest)
      | none => (Char.ofNat 0xFFFD, rest)
    | _ => (Char.ofNat 0xFFFD, rest)
  else if 0xDC00 ≤ unit && unit < 0xE000 then (Char.ofNat 0xFFFD, rest)
  else (Char.ofNat unit, rest)

/-- One character of a string after a backslash. -/
def readEscape? : List Char → Option (Char × List Char)
  | 'n' :: rest => some ('\n', rest)
  | 't' :: rest => some ('\t', rest)
  | 'r' :: rest => some ('\r', rest)
  | 'b' :: rest => some (Char.ofNat 8, rest)
  | 'f' :: rest => some (Char.ofNat 12, rest)
  | 'u' :: rest => (readHex4? rest).map fun (unit, after) => readUnit unit after
  | c :: rest =>
    if c = '\\' || c = '/' || c = Text.doubleQuote then some (c, rest) else none
  | [] => none

/-- The rest of a string up to its closing quote; `read` holds the characters so far, last first.
The first argument bounds the number of steps. -/
def readString? : Nat → List Char → List Char → Option (String × List Char)
  | 0, _, _ => none
  | _, _, [] => none
  | steps + 1, read, c :: rest =>
    if c = Text.doubleQuote then some (String.ofList read.reverse, rest)
    else if c = '\\' then
      match readEscape? rest with
      | some (e, after) => readString? steps (e :: read) after
      | none => none
    else readString? steps (c :: read) rest

/-! ## Numbers -/

/-- The value of a run of digits. -/
def digitsValue (ds : List Char) : Nat :=
  ds.foldl (fun value d => value * 10 + (d.toNat - '0'.toNat)) 0

/-- The exponent of a number, if one follows. -/
def readExponent (s : List Char) : Option Int × List Char :=
  match s with
  | c :: rest =>
    if c = 'e' || c = 'E' then
      let (negative, ds) := match rest with
        | '-' :: ds => (true, ds)
        | '+' :: ds => (false, ds)
        | ds => (false, ds)
      let value : Int := digitsValue (ds.takeWhile Char.isDigit)
      (some (if negative then -value else value), ds.dropWhile Char.isDigit)
    else (none, s)
  | [] => (none, s)

/-- A number: an integer if it has neither a fraction nor an exponent. -/
def readNumber? (s : List Char) : Option (Json × List Char) :=
  let (negative, s) := match s with
    | '-' :: rest => (true, rest)
    | _ => (false, s)
  let whole := s.takeWhile Char.isDigit
  let rest := s.dropWhile Char.isDigit
  if whole.isEmpty then none
  else
    let (fraction, rest') := match rest with
      | '.' :: after => (some (after.takeWhile Char.isDigit), after.dropWhile Char.isDigit)
      | _ => (none, rest)
    match fraction, readExponent rest' with
    | none, (none, after) =>
      let value : Int := digitsValue whole
      some (.int (if negative then -value else value), after)
    | fraction, (exponent, after) =>
      let places := fraction.getD []
      let shift : Int := exponent.getD 0 - places.length
      some (.float (Double.ofDecimal negative (digitsValue (whole ++ places)) shift), after)

/-! ## Values -/

mutual

/-- One value; the first argument bounds the number of steps. -/
def readValue? : Nat → List Char → Option (Json × List Char)
  | 0, _ => none
  | steps + 1, s =>
    match skipGap s with
    | 'n' :: 'u' :: 'l' :: 'l' :: rest => some (.null, rest)
    | 't' :: 'r' :: 'u' :: 'e' :: rest => some (.bool true, rest)
    | 'f' :: 'a' :: 'l' :: 's' :: 'e' :: rest => some (.bool false, rest)
    | '[' :: rest =>
      match skipGap rest with
      | ']' :: after => some (.arr [], after)
      | items => (readItems? steps items).map fun (values, after) => (.arr values, after)
    | '\x7b' :: rest =>
      match skipGap rest with
      | '\x7d' :: after => some (.obj [], after)
      | fields => (readFields? steps fields).map fun (values, after) => (ofFields values, after)
    | '\x22' :: rest =>
      (readString? (rest.length + 1) [] rest).map fun (value, after) => (.str value, after)
    | rest => readNumber? rest

/-- The values of an array up to its closing bracket. -/
def readItems? : Nat → List Char → Option (List Json × List Char)
  | 0, _ => none
  | steps + 1, s => do
    let (value, rest) ← readValue? steps s
    match skipGap rest with
    | ',' :: rest =>
      let (values, rest) ← readItems? steps rest
      some (value :: values, rest)
    | ']' :: rest => some ([value], rest)
    | _ => none

/-- The fields of an object up to its closing brace. -/
def readFields? : Nat → List Char → Option (List (String × Json) × List Char)
  | 0, _ => none
  | steps + 1, s => do
    match skipGap s with
    | '\x22' :: rest =>
      let (key, rest) ← readString? (rest.length + 1) [] rest
      match skipGap rest with
      | ':' :: rest =>
        let (value, rest) ← readValue? steps rest
        match skipGap rest with
        | ',' :: rest =>
          let (fields, rest) ← readFields? steps rest
          some ((key, value) :: fields, rest)
        | '\x7d' :: rest => some ([(key, value)], rest)
        | _ => none
      | _ => none
    | _ => none

end

/-- The value of a whole document. -/
def parse? (text : String) : Option Json :=
  let s := text.toList
  match readValue? (2 * s.length + 2) s with
  | some (value, rest) => if (skipGap rest).isEmpty then some value else none
  | none => none

/-- Whether a line is empty or a comment. -/
def isSilentLine (line : List Char) : Bool :=
  match skipGap line with
  | [] => true
  | c :: _ => c = '#'

/-- The value of a document that may be blank. -/
def parseDocument? (text : String) : Option Json :=
  if (Text.piecesBy (· = '\n') text.toList).all isSilentLine then some .null else parse? text

end Json
end DocForest
