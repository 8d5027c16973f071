/-!
# Double-precision numbers

A number of a record that is not written as an integer is a binary fraction of double precision.
It is kept exactly, as a mantissa and a power of two, so that everything said about it is integer
arithmetic.

## What is here

* `Double` — a finite binary fraction or an infinity, each with a sign.
* `Double.ofDecimal` — the fraction nearest to a decimal number, an exact half going to the even
  mantissa.
* `Double.ratio?` — the value as a quotient of integers.
* `Double.truncated?` — the value without its fractional digits.
-/

set_option autoImplicit false

namespace DocForest

/-- A binary fraction of double precision: `mantissa * 2 ^ exponent` with a sign, where a zero
keeps its sign too, or an infinity. -/
inductive Double where
  | finite (negative : Bool) (mantissa : Nat) (exponent : Int)
  | infinite (negative : Bool)
  deriving DecidableEq, Repr

namespace Double

/-- The least exponent of a binary fraction. -/
def minExponent : Int := -1074

/-- The greatest exponent of a binary fraction. -/
def maxExponent : Int := 971

/-- The quotient of two numbers rounded to the nearest integer, an exact half to the even one. -/
def roundQuotient (num den : Nat) : Nat :=
  let low := num / den
  let twice := 2 * (num % den)
  if twice < den then low
  else if den < twice then low + 1
  else low + low % 2

/-- The quotient `num / den` divided by the power `2 ^ exponent`, as a quotient again. -/
def scaleDown (num den : Nat) (exponent : Int) : Nat × Nat :=
  match exponent with
  | .ofNat e => (num, den * Nat.pow 2 e)
  | .negSucc e => (num * Nat.pow 2 (e + 1), den)

/-- The greatest `k` with `2 ^ k ≤ num / den`, for a positive quotient. -/
def floorLog2 (num den : Nat) : Int :=
  let guess : Int := (num.log2 : Int) - (den.log2 : Int)
  let scaled := scaleDown num den guess
  if scaled.2 ≤ scaled.1 then guess else guess - 1

/-- The binary fraction nearest to the positive quotient `num / den`. -/
def ofQuotient (negative : Bool) (num den : Nat) : Double :=
  let exponent := max (floorLog2 num den - 52) minExponent
  let scaled := scaleDown num den exponent
  let mantissa := roundQuotient scaled.1 scaled.2
  let (mantissa, exponent) :=
    if mantissa = Nat.pow 2 53 then (Nat.pow 2 52, exponent + 1) else (mantissa, exponent)
  if maxExponent < exponent then .infinite negative else .finite negative mantissa exponent

/-- The binary fraction nearest to `digits * 10 ^ exponent`.  Numbers that are far out of range
are decided by their size alone. -/
def ofDecimal (negative : Bool) (digits : Nat) (exponent : Int) : Double :=
  let size : Int := (Nat.toDigits 10 digits).length + exponent
  if digits = 0 || size < -400 then .finite negative 0 minExponent
  else if 400 < size then .infinite negative
  else match exponent with
    | .ofNat e => ofQuotient negative (digits * Nat.pow 10 e) 1
    | .negSucc e => ofQuotient negative digits (Nat.pow 10 (e + 1))

/-- Whether the number is a zero of either sign. -/
def isZero : Double → Bool
  | .finite _ mantissa _ => mantissa = 0
  | .infinite _ => false

/-- The value of a finite number as a numerator and a positive denominator. -/
def ratio? : Double → Option (Int × Nat)
  | .infinite _ => none
  | .finite negative mantissa exponent =>
    let signed : Int := if negative then -mantissa else mantissa
    match exponent with
    | .ofNat e => some (signed * Nat.pow 2 e, 1)
    | .negSucc e => some (signed, Nat.pow 2 (e + 1))

/-- The integer that is left when the fractional digits are dropped; an infinity has none. -/
def truncated? (x : Double) : Option Int :=
  x.ratio?.map fun ratio => Int.tdiv ratio.1 ratio.2

end Double
end DocForest
