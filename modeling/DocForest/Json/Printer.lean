import DocForest.Json.Basic

/-!
# Writing JSON documents

## What is here

* `Json.written` — a string between double quotes, with control characters escaped.
* `Json.writtenFloat` — a number that is no integer.
* `Json.render` — the one-line text of a value.
-/

set_option autoImplicit false

namespace DocForest
namespace Json

/-- One character of a written string. -/
def writtenChar (c : Char) : List Char :=
  if c = '\\' || c = Text.doubleQuote then ['\\', c]
  else if c = '\n' then ['\\', 'n']
  else if c = '\r' then ['\\', 'r']
  else if c = '\t' then ['\\', 't']
  else if c.toNat < 0x20 || c.toNat = 0x7F then '\\' :: 'u' :: Text.hexFilled 4 c.toNat
  else [c]

/-- A string as it stands in a document. -/
def written (s : String) : String :=
  String.ofList (Text.doubleQuote :: s.toList.flatMap writtenChar ++ [Text.doubleQuote])

/-- A number that is no integer as it stands in a document. -/
def writtenFloat : Double → String
  | .infinite negative => if negative then "-Infinity" else "Infinity"
  | value => value.text

mutual

/-- The text of a value on one line. -/
def render : Json → String
  | .null => "null"
  | .bool true => "true"
  | .bool false => "false"
  | .int value => toString value
  | .float value => writtenFloat value
  | .str value => written value
  | .arr items => "[" ++ String.intercalate ", " (renderItems items) ++ "]"
  | .obj fields => "\x7b" ++ String.intercalate ", " (renderFields fields) ++ "\x7d"

/-- The texts of the items of an array. -/
def renderItems : List Json → List String
  | [] => []
  | value :: rest => render value :: renderItems rest

/-- The texts of the fields of an object. -/
def renderFields : List (String × Json) → List String
  | [] => []
  | (key, value) :: rest => (written key ++ ": " ++ render value) :: renderFields rest

end

end Json
end DocForest
