import DocForest.Decimal.Shortest
import DocForest.Text.Quoted

/-!
# JSON values

Records, configurations and answers are JSON values.  Numbers written as integers are kept apart
from all others, and the fields of an object keep their order.

## What is here

* `Json` — the values.
* `Json.field`, `Json.ofFields` — one field of an object, and the object of several ones.
* `Json.truthy` — whether a value counts as given: null, false, zero and all empty values do not.
* `Json.plainText` — a value as text, a string unchanged.
* `Json.string?`, `Json.isText` — the text that a value is.
* `Json.elements?` — what a value consists of when it is gone through one by one.
-/

set_option autoImplicit false

namespace DocForest

/-- A JSON value.  An object has its fields in the order of their first occurrence. -/
inductive Json where
  | null
  | bool (value : Bool)
  | int (value : Int)
  | float (value : Double)
  | str (value : String)
  | arr (items : List Json)
  | obj (fields : List (String × Json))
  deriving Repr, Inhabited

namespace Json

/-! ## Fields -/

/-- The value under a key of a list of fields. -/
def lookup (key : String) (fields : List (String × Json)) : Option Json :=
  (fields.find? fun field => field.1 = key).map (·.2)

/-- A list of fields with the value under a key replaced in its place, or added at the end. -/
def assign (key : String) (value : Json) : List (String × Json) → List (String × Json)
  | [] => [(key, value)]
  | field :: rest =>
    if field.1 = key then (key, value) :: rest else field :: assign key value rest

/-- The value of an object's field; what is missing, or has no fields, gives null. -/
def field (value : Json) (key : String) : Json :=
  match value with
  | .obj fields => (lookup key fields).getD .null
  | _ => .null

/-- The object made of a list of fields, where a later value of a key replaces an earlier one. -/
def ofFields (fields : List (String × Json)) : Json :=
  .obj (fields.foldl (fun known field => assign field.1 field.2 known) [])

/-- Whether the value is null. -/
def isNull : Json → Bool
  | .null => true
  | _ => false

/-! ## Truth and text -/

/-- Whether a value counts as given. -/
def truthy : Json → Bool
  | .null => false
  | .bool value => value
  | .int value => value != 0
  | .float value => !value.isZero
  | .str value => !value.isEmpty
  | .arr items => !items.isEmpty
  | .obj fields => !fields.isEmpty

mutual

/-- A value inside an array or object as text: a string is quoted. -/
def nestedText : Json → String
  | .null => "None"
  | .bool true => "True"
  | .bool false => "False"
  | .int value => toString value
  | .float value => value.text
  | .str value => Text.quote value
  | .arr items => "[" ++ String.intercalate ", " (nestedTexts items) ++ "]"
  | .obj fields => "\x7b" ++ String.intercalate ", " (nestedFields fields) ++ "\x7d"

/-- The values of a list as texts. -/
def nestedTexts : List Json → List String
  | [] => []
  | value :: rest => nestedText value :: nestedTexts rest

/-- The fields of an object as texts. -/
def nestedFields : List (String × Json) → List String
  | [] => []
  | (key, value) :: rest => (Text.quote key ++ ": " ++ nestedText value) :: nestedFields rest

end

/-- A value as text: a string stands for itself, null and the truth values have names, and numbers
are written in decimal. -/
def plainText : Json → String
  | .str value => value
  | value => nestedText value

/-- The text of a value that counts as given, otherwise the empty text. -/
def givenText (value : Json) : String :=
  if value.truthy then value.plainText else ""

/-- The value if it counts as given, otherwise null. -/
def given (value : Json) : Json :=
  if value.truthy then value else .null

/-- The string that a value is, if it is one. -/
def string? : Json → Option String
  | .str value => some value
  | _ => none

/-- Whether a value is a string. -/
def isText (value : Json) : Bool :=
  value.string?.isSome

/-! ## Elements -/

/-- What a value consists of: the items of an array, the characters of a string, the keys of an
object.  Numbers, truth values and null consist of nothing that could be gone through. -/
def elements? : Json → Option (List Json)
  | .arr items => some items
  | .str value => some (value.toList.map fun c => .str (String.singleton c))
  | .obj fields => some (fields.map fun field => .str field.1)
  | _ => none

/-- The elements of a value, where a value that does not count as given has none. -/
def givenElements? (value : Json) : Option (List Json) :=
  if value.truthy then value.elements? else some []

end Json
end DocForest
