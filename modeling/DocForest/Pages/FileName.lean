import DocForest.Text.Blank
import DocForest.Text.Letter
import DocForest.Text.Percent

/-!
# File names

## What is here

* `fileName` — a name that is safe in every file system, from which the declaration's name can be
  read again.
* `unusedName` — a file name that no sibling has, a numbered one if need be.
-/

set_option autoImplicit false

namespace DocForest
namespace Pages

/-- The file name for a declaration's name: its trimmed text in percent-encoding.  A blank name and
the two names that stand for directories have forms of their own. -/
def fileName (name : String) : String :=
  let trimmed := Text.trimList name.toList
  if trimmed.isEmpty then "Unknown"
  else if trimmed = ['.'] then "%2E"
  else if trimmed = ['.', '.'] then "%2E%2E"
  else String.ofList (Text.percentEncode trimmed)

/-- The candidate with a number behind it. -/
def numbered (candidate : String) (n : Nat) : String :=
  candidate ++ "-" ++ toString n

/-- The candidate if it is not used, and otherwise the candidate with the least number from 2 on
that is not used.  Case does not matter, and `used` holds small letters only.  There are more names
to try than used ones. -/
def unusedName (candidate : String) (used : List String) : String :=
  let names := candidate :: (List.range used.length).map fun k => numbered candidate (k + 2)
  (names.find? fun name => !used.contains (Text.foldAscii name)).getD candidate

end Pages
end DocForest
