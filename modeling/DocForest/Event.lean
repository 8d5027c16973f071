import DocForest.AccessLevel
import DocForest.Json.Equality

/-!
# Events of a run

A run reports what it met on its way.  An event is data; its text is made only when it is shown.

## What is here

* `Severity` — how much an event matters.
* `Event` — what can be reported, with `Event.severity` and `Event.text`.
* `Event.line` — the event as one line.
-/

set_option autoImplicit false

namespace DocForest

/-- How much an event matters. -/
inductive Severity where
  | debug
  | info
  | warning
  deriving DecidableEq, Repr

namespace Severity

/-- The place of a severity, from the least on. -/
def rank : Severity → Nat
  | debug => 0
  | info => 1
  | warning => 2

/-- The name of a severity in front of an event. -/
def title : Severity → String
  | debug => "DEBUG"
  | info => "INFO"
  | warning => "WARNING"

end Severity

/-- Something a run reports. -/
inductive Event where
  /-- A record has a kind without a label. -/
  | unknownKind (kind : String) (name : Json)
  /-- The access filter is through. -/
  | filtered (level : AccessLevel) (subtrees : Nat)
  /-- An extension stands for a type that is not documented. -/
  | undocumentedBase (name : String)
  /-- Types of one name have several kinds. -/
  | mixedKinds (name : String) (kinds : List String)
  /-- An extension fits none of several kinds in particular. -/
  | ambiguousExtension (name kind : String)
  /-- A declaration outside all containers belongs to no category. -/
  | uncategorized (name : Json) (kind : String)
  /-- The forest is finished. -/
  | built (declarations roots : Nat)
  /-- A file name is taken by a sibling. -/
  | nameTaken (candidate name chosen : String)
  /-- All locations are assigned. -/
  | located (locations pages : Nat)
  /-- The documentation is finished. -/
  | documented (modules : List String) (roots : Nat)
  /-- There is no configuration file. -/
  | configMissing (path : String)
  /-- A record file is read. -/
  | recordsRead (count : Nat) (path : String)
  /-- All record files are read. -/
  | recordsLoaded (records files : Nat)
  /-- A file gives the overview text for one of several names. -/
  | abstractUsed (path : String) (names : List Json)
  deriving DecidableEq, Repr

namespace Event

/-- How much an event matters. -/
def severity : Event → Severity
  | unknownKind .. | filtered .. | undocumentedBase .. | uncategorized .. | recordsRead ..
  | abstractUsed .. => .debug
  | built .. | located .. | documented .. | configMissing .. | recordsLoaded .. => .info
  | mixedKinds .. | ambiguousExtension .. | nameTaken .. => .warning

/-- Names between parentheses; a single one has a comma behind it. -/
def nameGroup : List Json → String
  | [name] => "(" ++ name.nestedText ++ ",)"
  | names => "(" ++ String.intercalate ", " (Json.nestedTexts names) ++ ")"

/-- The text of an event. -/
def text : Event → String
  | unknownKind kind name => "Unknown kind " ++ Text.quote kind ++ " for " ++ name.nestedText
  | filtered level subtrees =>
    "Access filter (" ++ level.label ++ ") removed " ++ toString subtrees ++ " subtrees"
  | undocumentedBase name =>
    "Base type of extension " ++ Text.quote name ++ " is not documented"
  | mixedKinds name kinds =>
    "Declarations named " ++ Text.quote name ++ " have different kinds ("
      ++ String.intercalate ", " kinds ++ "); keeping them separate"
  | ambiguousExtension name kind =>
    "Extension of " ++ Text.quote name ++ " matches several kinds; merging into " ++ kind
  | uncategorized name kind =>
    "Skipping top-level " ++ name.nestedText ++ " of unknown kind " ++ Text.quote kind
  | built declarations roots =>
    "Built documentation tree: " ++ toString declarations ++ " declarations, "
      ++ toString roots ++ " roots"
  | nameTaken candidate name chosen =>
    "File name " ++ Text.quote candidate ++ " for " ++ Text.quote name ++ " is taken; using "
      ++ Text.quote chosen
  | located locations pages =>
    "Assigned " ++ toString locations ++ " locations (" ++ toString pages ++ " pages)"
  | documented modules roots =>
    let joined := String.intercalate ", " modules
    "Documentation for " ++ (if joined.isEmpty then "unnamed module" else joined) ++ ": "
      ++ toString roots ++ " roots"
  | configMissing path => "Config file " ++ path ++ " not found; using defaults"
  | recordsRead count path => "Read " ++ toString count ++ " records from " ++ path
  | recordsLoaded records files =>
    "Loaded " ++ toString records ++ " declaration records from " ++ toString files ++ " files"
  | abstractUsed path names => "Using abstract file " ++ path ++ " for " ++ nameGroup names

/-- An event as one line, with its severity in front. -/
def line (event : Event) : String :=
  event.severity.title ++ ": " ++ event.text

end Event
end DocForest
