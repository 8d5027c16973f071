import DocForest.Declaration.Basic
import DocForest.Failure
import DocForest.Json.Prose
import DocForest.Text.Integer

/-!
# Declarations from records

A record is an object with one field for each thing that is known of a declaration.  Texts may be
wrapped, truth values may be of any type, and numbers may be written as text.  Names, identifiers and
messages are taken over in any form.

## What is here

* `readLevel?`, `readList`, `readInt` — the readers that can fail.
* `Declaration.ofRecord` — the declaration of a record.
* `Record.statesLevel`, `Record.container?` — what else a record says.
-/

set_option autoImplicit false

namespace DocForest

/-- A flat record of the introspection tool. -/
abbrev Record := Json

/-- The access level that a record states, if it states one. -/
def readLevel? (value : Json) : Except Failure (Option AccessLevel) :=
  if !value.truthy then .ok none
  else match value with
    | .str text =>
      let label := String.ofList (Text.withoutStart AccessLevel.recordStart.toList text.toList)
      match AccessLevel.ofLabel? label with
      | some level => .ok (some level)
      | none => .error (.unknownLevel label)
    | _ => .error .notText

/-- The access level of a declaration.  Groups and guides are open to all; Objective-C has no
levels, so that everything in a header is public. -/
def levelOf (kind : Kind) (stated : Json) : Except Failure AccessLevel :=
  if kind.isOverview || kind.isMarkdown then .ok .openLevel
  else do
    let level ← readLevel? stated
    return level.getD (if kind.isSwift then .internalLevel else .publicLevel)

/-- The elements of a list; a value that does not count as given has none. -/
def readList (value : Json) : Except Failure (List Json) :=
  match value.givenElements? with
  | some items => .ok items
  | none => .error .notIterable

/-- An integer: fractional digits are dropped, and a text is read as a number. -/
def readInt : Json → Except Failure Int
  | .bool value => .ok (if value then 1 else 0)
  | .int value => .ok value
  | .float value =>
    match value.truncated? with
    | some n => .ok n
    | none => .error .infiniteInteger
  | .str text =>
    match Text.excessDigits? text, Text.readInt? text with
    | some count, _ => .error (.tooManyDigits count)
    | none, some n => .ok n
    | none, none => .error (.notInteger text)
  | _ => .error .notNumber

/-- The ordering hint of a record, if it has one. -/
def readHint? (value : Json) : Except Failure (Option Int) :=
  if value.isNull then .ok none else (readInt value).map some

/-- The text of a value that is not null. -/
def textUnlessNull (value : Json) : Option String :=
  if value.isNull then none else some value.plainText

/-- A text that is not empty. -/
def nonEmpty? (text : String) : Option String :=
  if text.isEmpty then none else some text

namespace Declaration

/-- The declaration of the fields of a record.  Of several faults the access level comes first, then
the inherited types, the parameters and the hint. -/
def ofFields (record : Record) : Except Failure Declaration := do
  let flag (key : String) : Bool := (record.field key).truthy
  let declaration := (record.field "declaration").prose
  let kind := (Kind.ofRaw (record.field "kind").givenText).corrected declaration
  let level ← levelOf kind (record.field "accessibility")
  let inherited ← readList (record.field "inherited_types")
  let parameters ← readList (record.field "parameters")
  let hint ← readHint? (record.field "nav_order")
  return {
    kind, level, parameters, hint, declaration
    name := .str (record.field "name").givenText
    otherDeclaration := record.field "other_language_declaration"
    span := {
      file := record.field "file"
      line := record.field "line"
      column := record.field "column"
      startLine := record.field "start_line"
      endLine := record.field "end_line" }
    usr := record.field "usr"
    typeUsr := record.field "type_usr"
    moduleName := record.field "module_name"
    docModule := record.field "doc_module_name"
    objcName := record.field "objc_name"
    requirements := (record.field "generic_requirements").given
    inherited := inherited.map Json.plainText
    deprecated := flag "deprecated"
    deprecationMessage := record.field "deprecation_message"
    unavailable := flag "unavailable"
    unavailableMessage := record.field "unavailable_message"
    summary := (record.field "abstract").prose
    discussion := (record.field "discussion").prose
    defaultSummary := record.field "default_impl_abstract"
    fromProtocolExtension := flag "from_protocol_extension"
    isAsync := flag "async"
    returns := nonEmpty? (record.field "return").prose
    addressName := record.field "url_name"
    id := textUnlessNull (record.field "id") }

/-- The declaration of a record, which has to be an object. -/
def ofRecord (record : Record) : Except Failure Declaration :=
  match record with
  | .obj _ => ofFields record
  | _ => .error .notObject

end Declaration

namespace Record

/-- Whether a record states an access level. -/
def statesLevel (record : Record) : Bool :=
  (record.field "accessibility").truthy

/-- The identifier of the container of a record, if it has one. -/
def container? (record : Record) : Option String :=
  textUnlessNull (record.field "parent")

end Record
end DocForest
