import DocForest.Declaration.OfRecord

/-!
# Layers of configuration

A configuration is laid over another one: nested objects are merged field by field, patterns are
added to those of the lower layer, and every other value replaces the one below.

## What is here

* `isAdditive` — the fields whose lists are extended.
* `extendUnique` — a list with the new ones among further items.
* `overlay` — the fields of one object laid over those of another.
* `Config.defaults` — the lowest layer.
-/

set_option autoImplicit false

namespace DocForest
namespace Json

/-- Whether a field's list extends the one below.  The order of patterns decides which file is
found first, so those of the lower layer stay in front. -/
def isAdditive (key : String) : Bool :=
  key = "abstract_glob"

/-- The items with each further one that is not yet among them. -/
def extendUnique (items further : List Json) : List Json :=
  further.foldl (fun known item => if known.any (same · item) then known else known ++ [item]) items

mutual

/-- The fields of an object with those of another laid over them. -/
def overlay (lower : List (String × Json)) :
    List (String × Json) → Except Failure (List (String × Json))
  | [] => .ok lower
  | (key, value) :: rest => do
    let merged ← overlayValue key (lookup key lower) value
    overlay (assign key merged lower) rest

/-- The value of a field with another laid over it. -/
def overlayValue (key : String) (lower : Option Json) : Json → Except Failure Json
  | .obj fields =>
    match lower with
    | some (.obj known) => return .obj (← overlay known fields)
    | some (.arr known) =>
      if isAdditive key then return .arr (extendUnique known (← readList (.obj fields)))
      else return .obj fields
    | _ => return .obj fields
  | value =>
    match lower with
    | some (.arr known) =>
      if isAdditive key then return .arr (extendUnique known (← readList value)) else return value
    | _ => return value

end

end Json

/-- The fields of a configuration that states nothing. -/
def Config.defaults : List (String × Json) :=
  [("modules", .arr []), ("separate_global_declarations", .bool false),
   ("hide_declarations", .str ""), ("min_acl", .str "public"), ("abstract_glob", .arr []),
   ("api_root", .str "")]

end DocForest
