import DocForest.Json.Basic
import DocForest.Text.Blank

/-!
# Prose in JSON values

Free text comes as a string, as a list of paragraphs, or wrapped in an object with a `text` field,
in any nesting.

## What is here

* `Json.prose` — the trimmed text of such a value, its paragraphs separated by blank lines.
-/

set_option autoImplicit false

namespace DocForest
namespace Json

mutual

/-- The text of a value that holds prose. -/
def prose : Json → String
  | .null => ""
  | .str value => Text.trim value
  | .arr items => String.intercalate "\n\n" ((paragraphs items).filter fun text => !text.isEmpty)
  | .obj fields => textField fields
  | value => Text.trim value.plainText

/-- The texts of the items of a list. -/
def paragraphs : List Json → List String
  | [] => []
  | value :: rest => prose value :: paragraphs rest

/-- The text of the first field with the key `text`. -/
def textField : List (String × Json) → String
  | [] => ""
  | (key, value) :: rest => if key = "text" then prose value else textField rest

end

end Json
end DocForest
