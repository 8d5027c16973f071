import DocForest.Json.Equality
import DocForest.Text.Integer

/-!
# Causes of failure

## What is here

* `Failure` — why a run, or one step of it, has no result.
* `Failure.message` — the text that says so.
-/

set_option autoImplicit false

namespace DocForest

/-- Why something has no result. -/
inductive Failure where
  /-- Two records have the same identifier. -/
  | duplicateId (id : String)
  /-- A record names a container that no record has as its identifier. -/
  | unknownParent (name : Json) (parent : String)
  /-- A declaration is nested in itself. -/
  | cyclicNesting (name : Json)
  /-- A declaration that is already in a forest is added to one. -/
  | alreadyInForest (name : Json)
  /-- A node gets a second container. -/
  | containerTaken (name : Json)
  /-- A node gets a second list of children. -/
  | childrenTaken (name : Json)
  /-- A child has a parent in the documentation, or is a root. -/
  | parentTaken (name : Json)
  /-- A node is among its own children. -/
  | ownChild (name : Json)
  /-- The roots are given a second time. -/
  | rootsTaken
  /-- A root has a parent in the documentation. -/
  | rootHasParent (name : Json)
  /-- A text names no access level. -/
  | unknownLevel (text : String)
  /-- A configuration hides declarations of an unknown language. -/
  | unknownLanguage (text : String)
  /-- A text is no integer. -/
  | notInteger (text : String)
  /-- A number has too many digits to be read. -/
  | tooManyDigits (count : Nat)
  /-- An infinite number is no integer. -/
  | infiniteInteger
  /-- A value that stands for no number is used as one. -/
  | notNumber
  /-- A value that has no elements is gone through. -/
  | notIterable
  /-- A value that is no text is used as one. -/
  | notText
  /-- A value that is no text is joined to one. -/
  | notJoinable
  /-- An array or an object is used as the name of a group. -/
  | notKey
  /-- A value that is no object is read as a record or as options. -/
  | notObject
  /-- An index is beyond the last node. -/
  | indexOutOfRange
  /-- A chain of containers does not end. -/
  | endlessNesting
  /-- No record file is found. -/
  | noRecordFiles (root : String)
  /-- A configuration file holds something else than an object. -/
  | configNotObject (path : String)
  /-- A directory is read as a file. -/
  | isDirectory (path : String)
  /-- A file holds no JSON document. -/
  | malformedDocument (path : String)
  deriving DecidableEq, Repr

namespace Failure

/-- The text of a failure. -/
def message : Failure → String
  | duplicateId id => "Duplicate declaration id: " ++ Text.quote id
  | unknownParent name parent =>
    "Declaration " ++ name.nestedText ++ " refers to unknown parent " ++ Text.quote parent
  | cyclicNesting name => "Cycle in declaration nesting at " ++ name.nestedText
  | alreadyInForest name => "Declaration " ++ name.nestedText ++ " already belongs to a tree"
  | containerTaken name => name.nestedText ++ " already has a parent in code"
  | childrenTaken name => "Children of " ++ name.nestedText ++ " are already assigned"
  | parentTaken name => name.nestedText ++ " already has a parent in the docs"
  | ownChild name => name.nestedText ++ " cannot be its own child"
  | rootsTaken => "Roots are already assigned"
  | rootHasParent name => "Root " ++ name.nestedText ++ " has a parent in the docs"
  | unknownLevel text => "Unknown access level: " ++ Text.quote text
  | unknownLanguage text =>
    "hide_declarations must be one of ('', 'objc', 'swift'), got " ++ Text.quote text
  | notInteger text =>
    "invalid literal for int() with base 10: "
      ++ String.ofList ((Text.quoteList text.toList).take 200)
  | tooManyDigits count =>
    "Exceeds the limit (" ++ toString Text.digitLimit ++ " digits) for integer string conversion: "
      ++ "value has " ++ toString count
      ++ " digits; use sys.set_int_max_str_digits() to increase the limit"
  | infiniteInteger => "an infinite number is no integer"
  | notNumber => "the value is no number"
  | notIterable => "the value has no elements"
  | notText => "the value is no text"
  | notJoinable => "the value cannot be joined to a text"
  | notKey => "the value cannot name a group"
  | notObject => "the value is no object"
  | indexOutOfRange => "list index out of range"
  | endlessNesting => "the containers of a declaration form a cycle"
  | noRecordFiles root => "No declaration files found under: " ++ root
  | configNotObject path => "Config file " ++ path ++ " must contain a mapping"
  | isDirectory path => path ++ " is a directory"
  | malformedDocument path => path ++ " holds no JSON document"

end Failure
end DocForest
