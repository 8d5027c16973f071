import DocForest.Kind.Info
import DocForest.Text.Pieces

/-!
# Families of kinds

Kinds fall into overlapping families: marks, extensions, types that can be extended, and so on.
Families that are wider than the known kinds are told by the identifier, so that an unknown kind
of extension is an extension too.

## What is here

* the families as tests on `Kind`, from `isMark` to `isMarkdown`;
* `Kind.isTask` — whether a mark with a given text opens a section;
* `Kind.bases` — the kinds of types that an extension kind can extend;
* `Kind.corrected` — the kind after a look at the declaration text, which tells actors from
  classes.
-/

set_option autoImplicit false

namespace DocForest
namespace Kind

/-- Whether records of the kind belong to Swift. -/
def isSwift (kind : Kind) : Bool :=
  Text.holds "swift" kind.raw

/-- Whether the kind describes a declaration, as opposed to comments, imports and synthetic
nodes. -/
def isDeclaration (kind : Kind) : Bool :=
  Text.startsWith "source.lang.swift.decl" kind.raw
    || Text.startsWith "sourcekitten.source.lang.objc.decl" kind.raw

/-- Whether the name of such a node is chosen by hand: guides and navigation groups, not source
code. -/
def namedByHand (kind : Kind) : Bool :=
  !Text.startsWith "source" kind.raw

/-- Whether the kind is a section mark of either language. -/
def isMark (kind : Kind) : Bool :=
  kind = objcMark || kind = swiftMark

/-- Whether a mark with the text `name` opens a section.  Swift marks also cover notes on work to
be done, which do not. -/
def isTask (kind : Kind) (name : String) : Bool :=
  kind = objcMark || (kind = swiftMark && Text.startsWith "MARK: " name)

/-- Whether the kind is a parameter.  Parameters of initializers are reported as local
variables. -/
def isParameter (kind : Kind) : Bool :=
  kind = swiftParameter || kind = swiftLocalVariable

/-- Whether the kind is an extension of a Swift type, of a known sort or not. -/
def isSwiftExtension (kind : Kind) : Bool :=
  Text.startsWith "source.lang.swift.decl.extension" kind.raw

/-- Whether the kind adds members to a type declared elsewhere. -/
def isExtension (kind : Kind) : Bool :=
  kind.isSwiftExtension || kind = objcCategory

/-- Whether the kind is a Swift type that extensions can extend. -/
def isExtensible (kind : Kind) : Bool :=
  kind = swiftClass || kind = swiftStruct || kind = swiftProtocol || kind = swiftEnum
    || kind = swiftActor

/-- Whether the kind is a variable of any sort. -/
def isSwiftVariable (kind : Kind) : Bool :=
  Text.startsWith "source.lang.swift.decl.var" kind.raw

/-- Whether the kind is a grouping node. -/
def isOverview (kind : Kind) : Bool :=
  kind = overview

/-- Whether the kind is a guide. -/
def isMarkdown (kind : Kind) : Bool :=
  kind = markdown

/-- Whether declarations of the kind are documented. -/
def isDocumented (kind : Kind) : Bool :=
  kind.label.isSome && kind.isDeclaration && !kind.isParameter && kind ≠ swiftGenericTypeParam

/-- The kinds of types that an extension of the kind can extend.  An extension of an unspecific
kind names none. -/
def bases : Kind → List Kind
  | swiftClassExtension => [swiftClass, swiftActor]
  | swiftEnumExtension => [swiftEnum]
  | swiftProtocolExtension => [swiftProtocol]
  | swiftStructExtension => [swiftStruct]
  | _ => []

/-- The markup of the keyword that declares an actor. -/
def actorKeyword : String :=
  "<syntaxtype.keyword>actor</syntaxtype.keyword>"

/-- The kind of a declaration with a given text.  Actors are reported as classes; the keyword in
the text tells them apart. -/
def corrected (kind : Kind) (declaration : String) : Kind :=
  if kind = swiftClass && Text.holds actorKeyword declaration then swiftActor else kind

end Kind
end DocForest
