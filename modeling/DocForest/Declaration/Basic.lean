import DocForest.AccessLevel
import DocForest.Json.Equality
import DocForest.Kind.Family
import DocForest.SectionMark

/-!
# Declarations

## What is here

* `SourceSpan` — where a declaration stands, as its record says it.
* `Declaration` — what is known of one documented entity on its own, without its place among the
  others.
* `Declaration.nameText`, `Declaration.isTask`, `Declaration.hasUsr` — the name as text, and two
  tests.
* `Declaration.group` — a synthetic node that groups others.
-/

set_option autoImplicit false

namespace DocForest

/-- Where a declaration stands.  Nothing is computed from it, so the values of the record are kept
as they are. -/
structure SourceSpan where
  file : Json := .null
  line : Json := .null
  column : Json := .null
  startLine : Json := .null
  endLine : Json := .null
  deriving DecidableEq, Repr

/-- One documented entity.  What a record may give in any form is kept as it is given, with null for
what is not given; whatever needs a text of it says so where it is used. -/
structure Declaration where
  kind : Kind
  /-- The name.  It is a text for every record; a group over a module shows what records give as the
  name of the module. -/
  name : Json
  /-- The text of the declaration, with markup. -/
  declaration : String := ""
  /-- The text of the declaration in the other language, as given. -/
  otherDeclaration : Json := .null
  span : SourceSpan := {}
  /-- The unique identifier that the compiler gives the entity. -/
  usr : Json := .null
  /-- The unique identifier of its type. -/
  typeUsr : Json := .null
  /-- The module of the entity, for an extension that of the extended type. -/
  moduleName : Json := .null
  /-- The documented module that the entity belongs to; guides have none. -/
  docModule : Json := .null
  /-- The name in Objective-C, as given. -/
  objcName : Json := .null
  level : AccessLevel := .publicLevel
  /-- The requirements of a constrained extension; null if there are none. -/
  requirements : Json := .null
  inherited : List String := []
  deprecated : Bool := false
  deprecationMessage : Json := .null
  unavailable : Bool := false
  unavailableMessage : Json := .null
  summary : String := ""
  discussion : String := ""
  /-- What is said of a default implementation, as given. -/
  defaultSummary : Json := .null
  fromProtocolExtension : Bool := false
  isAsync : Bool := false
  parameters : List Json := []
  /-- What is said of the result, never empty. -/
  returns : Option String := none
  /-- The name in addresses, where it is not the name itself. -/
  addressName : Json := .null
  /-- The hint by which siblings are ordered. -/
  hint : Option Int := none
  /-- The section the entity stands in. -/
  mark : SectionMark := {}
  /-- The identifier of its record, if it has one. -/
  id : Option String := none
  deriving DecidableEq, Repr

namespace Declaration

/-- A node that groups others. -/
def group (name addressName : Json) : Declaration :=
  { kind := .overview, name, addressName, level := .openLevel }

/-- The name as text. -/
def nameText (decl : Declaration) : String :=
  decl.name.plainText

/-- Whether the entity opens a section. -/
def isTask (decl : Declaration) : Bool :=
  decl.kind.isTask decl.nameText

/-- Whether the entity has a unique identifier. -/
def hasUsr (decl : Declaration) : Bool :=
  decl.usr.truthy

end Declaration
end DocForest
