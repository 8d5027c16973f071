import DocForest.Decimal.Double

/-!
# Shortest decimal text of a number

A binary fraction is written with the fewest decimal digits that read back as the same fraction,
and of those with the digits nearest to it.

If any multiple of a power of ten reads back as a fraction, then one of the two multiples next to
the fraction does.  So it is enough to try these two on grids of one, two and more digits, with all
comparisons made between integers; seventeen digits always suffice.

## What is here

* `Digits` — a decimal number as its digits and the place of its point.
* `shortestDigits` — the digits of a positive binary fraction.
* `Double.text` — positional text for decimal exponents from -4 to 15, otherwise a mantissa and
  an exponent of at least two digits; a whole number keeps one digit after the point.
-/

set_option autoImplicit false

namespace DocForest
namespace Double

/-- The decimal number `0.d₁d₂… * 10 ^ point`, where `coefficient` has the digits `d₁d₂…`. -/
structure Digits where
  /-- The digits as one number. -/
  coefficient : Nat
  /-- How many places the point stands behind the start of the digits. -/
  point : Int
  deriving DecidableEq, Repr

/-- The numbers that round to a fraction, as numerators over one denominator: the two ends, the
fraction itself, and whether the ends belong to it. -/
structure Neighbourhood where
  low : Nat
  value : Nat
  high : Nat
  denominator : Nat
  closed : Bool
  deriving DecidableEq, Repr

/-- The interval around `mantissa * 2 ^ exponent` that rounds to it.  Below a power of two the
next fraction is only half as far away as above it. -/
def neighbourhood (mantissa : Nat) (exponent : Int) : Neighbourhood :=
  let below := if mantissa = Nat.pow 2 52 && minExponent < exponent then 1 else 2
  let scale := match exponent with
    | .ofNat e => (Nat.pow 2 e, 4)
    | .negSucc e => (1, 4 * Nat.pow 2 (e + 1))
  { low := (4 * mantissa - below) * scale.1
    value := 4 * mantissa * scale.1
    high := (4 * mantissa + 2) * scale.1
    denominator := scale.2
    closed := mantissa % 2 = 0 }

/-- Whether the neighbourhood holds the quotient `num / den`. -/
def Neighbourhood.holds (area : Neighbourhood) (num den : Nat) : Bool :=
  let x := num * area.denominator
  if area.closed then area.low * den ≤ x && x ≤ area.high * den
  else area.low * den < x && x < area.high * den

/-- The quotient `k * 10 ^ place` as numerator and denominator. -/
def gridPoint (k : Nat) : Int → Nat × Nat
  | .ofNat e => (k * Nat.pow 10 e, 1)
  | .negSucc e => (k, Nat.pow 10 (e + 1))

/-- The neighbour of the value on the grid of the multiples of `10 ^ place` that reads back.  If both
do, it is the nearer one, and the even one if the value is halfway between them. -/
def onGrid? (area : Neighbourhood) (place : Int) : Option Nat :=
  let unit := gridPoint 1 place
  let scaled := area.value * unit.2
  let step := area.denominator * unit.1
  let low := scaled / step
  let nearest := Double.roundQuotient scaled step
  let fits := fun k => let q := gridPoint k place; area.holds q.1 q.2
  match fits low, fits (low + 1) with
  | true, true => some nearest
  | true, false => some low
  | false, true => some (low + 1)
  | false, false => none

/-- The number of decimal digits before the point of a quotient of at least one, and minus the
number of zeros behind the point of a smaller one. -/
def decimalPoint (num den : Nat) : Int :=
  if den ≤ num then (Nat.toDigits 10 (num / den)).length
  else 1 - (Nat.toDigits 10 ((den - 1) / num)).length

/-- The first grid, from coarse to fine, on which the value reads back. -/
def firstGrid (area : Neighbourhood) (point : Int) : List Nat → Digits
  | [] => ⟨0, 0⟩
  | count :: rest =>
    match onGrid? area (point - count) with
    | some k =>
      if k = Nat.pow 10 count then ⟨k / 10, point + 1⟩ else ⟨k, point⟩
    | none => firstGrid area point rest

/-- The shortest digits of `mantissa * 2 ^ exponent`, for a positive mantissa. -/
def shortestDigits (mantissa : Nat) (exponent : Int) : Digits :=
  let area := neighbourhood mantissa exponent
  firstGrid area (decimalPoint area.value area.denominator) ((List.range 17).map (· + 1))

/-- The digits `ds` with a point behind the first `point` of them, filled up with zeros. -/
def positional (ds : List Char) (point : Int) : List Char :=
  match point with
  | .ofNat p =>
    if p = 0 then '0' :: '.' :: ds
    else
      let fraction := ds.drop p
      ds.take p ++ List.replicate (p - ds.length) '0'
        ++ '.' :: (if fraction.isEmpty then ['0'] else fraction)
  | .negSucc p => '0' :: '.' :: List.replicate (p + 1) '0' ++ ds

/-- The digits `ds` as a mantissa with one digit before the point, and the decimal exponent. -/
def scientific (ds : List Char) (exponent : Int) : List Char :=
  let mantissa := if ds.length ≤ 1 then ds else ds.take 1 ++ '.' :: ds.drop 1
  let sign := if exponent < 0 then '-' else '+'
  mantissa ++ 'e' :: sign :: (Nat.toDigits 10 exponent.natAbs).leftpad 2 '0'

/-- The decimal text of a number. -/
def text (x : Double) : String :=
  match x with
  | .infinite negative => if negative then "-inf" else "inf"
  | .finite negative mantissa exponent =>
    let body :=
      if mantissa = 0 then ['0', '.', '0']
      else
        let digits := shortestDigits mantissa exponent
        let ds := Nat.toDigits 10 digits.coefficient
        if -4 < digits.point && digits.point ≤ 16 then positional ds digits.point
        else scientific ds (digits.point - 1)
    String.ofList (if negative then '-' :: body else body)

end Double
end DocForest
