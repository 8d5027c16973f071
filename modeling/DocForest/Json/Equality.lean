import DocForest.Json.Basic

/-!
# Equality of JSON values

Two values may be the same data, or they may only be equal by value: `true` is one, `false` is zero,
a number equals every other way to write it, and the order of an object's fields does not matter.
For null, numbers and texts the second relation is equality of a normal form, by which such values
are told apart when they name groups.

## What is here

* `Json.decEq` — whether two values are the same data.
* `Json.same` — equality by value.
* `Json.Key`, `Json.key?` — the normal form of a value that is no array and no object.
-/

set_option autoImplicit false

namespace DocForest
namespace Json

/-! ## The same data -/

mutual

/-- Whether two values are the same data. -/
def decEq : (a b : Json) → Decidable (a = b)
  | .null, b => match b with
    | .null => isTrue rfl
    | .bool _ | .int _ | .float _ | .str _ | .arr _ | .obj _ => isFalse nofun
  | .bool x, b => match b with
    | .bool y => decidable_of_iff (x = y) (by simp)
    | .null | .int _ | .float _ | .str _ | .arr _ | .obj _ => isFalse nofun
  | .int x, b => match b with
    | .int y => decidable_of_iff (x = y) (by simp)
    | .null | .bool _ | .float _ | .str _ | .arr _ | .obj _ => isFalse nofun
  | .float x, b => match b with
    | .float y => decidable_of_iff (x = y) (by simp)
    | .null | .bool _ | .int _ | .str _ | .arr _ | .obj _ => isFalse nofun
  | .str x, b => match b with
    | .str y => decidable_of_iff (x = y) (by simp)
    | .null | .bool _ | .int _ | .float _ | .arr _ | .obj _ => isFalse nofun
  | .arr items, b => match b with
    | .arr items' => match decEqItems items items' with
      | isTrue h => isTrue (by rw [h])
      | isFalse h => isFalse (by simpa using h)
    | .null | .bool _ | .int _ | .float _ | .str _ | .obj _ => isFalse nofun
  | .obj fields, b => match b with
    | .obj fields' => match decEqFields fields fields' with
      | isTrue h => isTrue (by rw [h])
      | isFalse h => isFalse (by simpa using h)
    | .null | .bool _ | .int _ | .float _ | .str _ | .arr _ => isFalse nofun

/-- Whether two lists of values are the same data. -/
def decEqItems : (as bs : List Json) → Decidable (as = bs)
  | [], [] => isTrue rfl
  | [], _ :: _ => isFalse nofun
  | _ :: _, [] => isFalse nofun
  | a :: as, b :: bs => match decEq a b with
    | isFalse h => isFalse (by simp [h])
    | isTrue h => match decEqItems as bs with
      | isFalse hrest => isFalse (by simp [hrest])
      | isTrue hrest => isTrue (by rw [h, hrest])

/-- Whether two lists of fields are the same data. -/
def decEqFields : (as bs : List (String × Json)) → Decidable (as = bs)
  | [], [] => isTrue rfl
  | [], _ :: _ => isFalse nofun
  | _ :: _, [] => isFalse nofun
  | (key, a) :: as, (key', b) :: bs =>
    if hkey : key = key' then match decEq a b with
      | isFalse h => isFalse (by simp [h])
      | isTrue h => match decEqFields as bs with
        | isFalse hrest => isFalse (by simp [hrest])
        | isTrue hrest => isTrue (by rw [hkey, h, hrest])
    else isFalse (by simp [hkey])

end

instance : DecidableEq Json := decEq

/-! ## The same value -/

/-- The value of a number or truth value as numerator and denominator; an infinity has the
denominator zero and its sign as numerator. -/
def number? : Json → Option (Int × Nat)
  | .bool value => some (if value then 1 else 0, 1)
  | .int value => some (value, 1)
  | .float value =>
    match value.ratio? with
    | some ratio => some ratio
    | none => some (if value = .infinite true then -1 else 1, 0)
  | _ => none

/-- Whether two quotients are equal. -/
def sameNumber (a b : Int × Nat) : Bool :=
  (a.2 = 0) = (b.2 = 0) && a.1 * (b.2 : Int) = b.1 * (a.2 : Int) && a.1.sign = b.1.sign

mutual

/-- Equality by value. -/
def same : Json → Json → Bool
  | .null, other => other.isNull
  | .bool value, other => (other.number?).any fun n => sameNumber (if value then 1 else 0, 1) n
  | .int value, other => (other.number?).any fun n => sameNumber (value, 1) n
  | .float value, other =>
    match number? (.float value), other.number? with
    | some m, some n => sameNumber m n
    | _, _ => false
  | .str value, other =>
    match other with
    | .str value' => value = value'
    | _ => false
  | .arr items, other =>
    match other with
    | .arr items' => sameItems items items'
    | _ => false
  | .obj fields, other =>
    match other with
    | .obj fields' => fields.length = fields'.length && sameFields fields fields'
    | _ => false

/-- Whether two lists are equal item by item. -/
def sameItems : List Json → List Json → Bool
  | [], [] => true
  | a :: as, b :: bs => same a b && sameItems as bs
  | _, _ => false

/-- Whether every field has an equal counterpart among the fields on the right. -/
def sameFields : List (String × Json) → List (String × Json) → Bool
  | [], _ => true
  | (key, value) :: rest, fields =>
    (match lookup key fields with
      | some value' => same value value'
      | none => false) && sameFields rest fields

end

/-! ## Keys -/

/-- The normal form of null, a number or a text: a number is a quotient in lowest terms. -/
inductive Key where
  | nothing
  | number (numerator : Int) (denominator : Nat)
  | text (value : String)
  deriving DecidableEq, Repr

/-- A quotient in lowest terms. -/
def lowestTerms (quotient : Int × Nat) : Int × Nat :=
  let divisor := Nat.gcd quotient.1.natAbs quotient.2
  (quotient.1 / (divisor : Int), quotient.2 / divisor)

/-- The normal form by which a value names a group.  Arrays and objects name none. -/
def key? : Json → Option Key
  | .null => some .nothing
  | .str value => some (.text value)
  | .arr _ | .obj _ => none
  | value => value.number?.map fun quotient =>
    .number (lowestTerms quotient).1 (lowestTerms quotient).2

/-- Whether a value can name a group. -/
def isKey (value : Json) : Bool :=
  value.key?.isSome

end Json
end DocForest
