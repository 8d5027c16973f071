import DocForest.Text.Blank
import DocForest.Text.Digit

/-!
# Integers written as text

A number given as text may have blanks around it, a sign, single underscores between its digits,
and decimal digits of any script.

## What is here

* `plainForm` — blanks and digits outside ASCII replaced by the ASCII ones.
* `digitLimit`, `excessDigits?` — how many digits a number may have, and how many it has if these
  are more.
* `digitsValue?` — the value of a run of digits with single underscores between them.
* `readInt?` — the integer that a text stands for, if it stands for one.
-/

set_option autoImplicit false

namespace DocForest
namespace Text

/-- The blanks that may stand around a number once it is in plain form. -/
def isNumberBlank (c : Char) : Bool :=
  c = ' ' || (9 ≤ c.toNat && c.toNat ≤ 13)

/-- A character with blanks and digits outside ASCII replaced by their ASCII counterparts. -/
def plainForm (c : Char) : Char :=
  if c.toNat < 128 then c
  else if isBlank c then ' '
  else match digitValue? c with
    | some d => Nat.digitChar d
    | none => c

/-- A text in plain form, without the blanks around it. -/
def plainDigits (s : String) : List Char :=
  trimBothOf isNumberBlank (s.toList.map plainForm)

/-- The most digits that a number may have. -/
def digitLimit : Nat :=
  4300

/-- The number of digits that a text begins with, where single underscores may stand between two
digits; `afterDigit` says whether one stands right before, and `count` how many came so far. -/
def countDigits? : Nat → Bool → List Char → Option Nat
  | count, afterDigit, [] => if afterDigit then some count else none
  | count, afterDigit, c :: rest =>
    if c.isDigit then countDigits? (count + 1) true rest
    else if c = '_' && afterDigit then countDigits? count false rest
    else if c != '_' && afterDigit then some count
    else none

/-- The characters behind the sign of a number, if it has one. -/
def withoutSign : List Char → List Char
  | '-' :: rest => rest
  | '+' :: rest => rest
  | s => s

/-- The number of digits that a number given as text begins with, if it exceeds the limit.  Digits
count before anything behind them is looked at. -/
def excessDigits? (s : String) : Option Nat :=
  (countDigits? 0 false (withoutSign (plainDigits s))).filter fun count => digitLimit < count

/-- The value of a run of ASCII digits in which single underscores may stand between two digits;
`value` is what the digits before amount to, and `afterDigit` says whether one stands right
before. -/
def digitsValue? : Nat → Bool → List Char → Option Nat
  | value, afterDigit, [] => if afterDigit then some value else none
  | value, afterDigit, c :: rest =>
    if c.isDigit then digitsValue? (value * 10 + (c.toNat - '0'.toNat)) true rest
    else if c = '_' && afterDigit then digitsValue? value false rest
    else none

/-- The value of an optional sign and a run of digits. -/
def signedValue? : List Char → Option Int
  | '-' :: rest => (digitsValue? 0 false rest).map fun n => -(n : Int)
  | '+' :: rest => (digitsValue? 0 false rest).map fun n => (n : Int)
  | s => (digitsValue? 0 false s).map fun n => (n : Int)

/-- The integer that the text `s` stands for. -/
def readInt? (s : String) : Option Int :=
  signedValue? (plainDigits s)

end Text
end DocForest
