import DocForest.Kind.Basic

/-!
# Labels of kinds

## What is here

* `KindInfo` — how a kind is shown: its label, the label of the search index, the segment of its
  category's address, and whether it gets a page of its own among global declarations.
* `Kind.info` — the entry of every kind of the catalogue; the other kinds have none.
* `Kind.label`, `Kind.searchLabel`, `Kind.addressName`, `Kind.isGlobal` — its parts.
* `Kind.documentable` — the kinds with a label, in the order of the category index.
-/

set_option autoImplicit false

namespace DocForest

/-- How a kind is shown. -/
structure KindInfo where
  /-- The label of one declaration of the kind; a kind without a label is not documented. -/
  label : Option String
  /-- The label in the search index. -/
  searchLabel : String
  /-- The segment of the category's address, where it differs from the label. -/
  address : Option String
  /-- Whether declarations of the kind are global ones, which may get pages of their own. -/
  isGlobal : Bool
  deriving DecidableEq, Repr

namespace Kind

/-- How a kind is shown, for the kinds that are. -/
def info : Kind → Option KindInfo
  | .markdown => some ⟨some "Guide", "Guide", none, false⟩
  | .overview => some ⟨none, "Section", none, false⟩
  | .objcUnexposed => some ⟨some "Unexposed", "Unexposed", none, false⟩
  | .objcCategory => some ⟨some "Category", "Extension", none, true⟩
  | .objcClass => some ⟨some "Class", "Class", none, true⟩
  | .objcConstant => some ⟨some "Constant", "Constant", none, true⟩
  | .objcEnum => some ⟨some "Enumeration", "Enum", some "Enum", true⟩
  | .objcEnumCase => some ⟨some "Enumeration Case", "Case", none, false⟩
  | .objcInitializer => some ⟨some "Initializer", "Initializer", none, false⟩
  | .objcClassMethod => some ⟨some "Class Method", "Method", none, false⟩
  | .objcInstanceMethod => some ⟨some "Instance Method", "Method", none, false⟩
  | .objcProperty => some ⟨some "Property", "Property", none, false⟩
  | .objcProtocol => some ⟨some "Protocol", "Protocol", none, true⟩
  | .objcTypedef => some ⟨some "Type Definition", "Type", none, true⟩
  | .objcMark => some ⟨some "Mark", "Mark", none, false⟩
  | .objcFunction => some ⟨some "Function", "Function", none, true⟩
  | .objcStruct => some ⟨some "Structure", "Struct", some "Struct", true⟩
  | .objcUnion => some ⟨some "Union", "Union", none, true⟩
  | .objcField => some ⟨some "Field", "Field", none, false⟩
  | .objcIvar => some ⟨some "Instance Variable", "Ivar", none, false⟩
  | .objcModuleImport => some ⟨some "Module", "Module", none, false⟩
  | .swiftActor => some ⟨some "Actor", "Actor", none, true⟩
  | .swiftAddressor => some ⟨some "Addressor", "Function", none, false⟩
  | .swiftDidset => some ⟨some "didSet Observer", "Function", none, false⟩
  | .swiftGetter => some ⟨some "Getter", "Function", none, false⟩
  | .swiftMutableAddressor => some ⟨some "Mutable Addressor", "Function", none, false⟩
  | .swiftSetter => some ⟨some "Setter", "Function", none, false⟩
  | .swiftWillset => some ⟨some "willSet Observer", "Function", none, false⟩
  | .swiftOperator => some ⟨some "Operator", "Function", none, false⟩
  | .swiftInfixOperator => some ⟨some "Infix Operator", "Function", none, false⟩
  | .swiftPostfixOperator => some ⟨some "Postfix Operator", "Function", none, false⟩
  | .swiftPrefixOperator => some ⟨some "Prefix Operator", "Function", none, false⟩
  | .swiftClassMethod => some ⟨some "Class Method", "Method", none, false⟩
  | .swiftClassVariable => some ⟨some "Class Variable", "Variable", none, false⟩
  | .swiftClass => some ⟨some "Class", "Class", none, true⟩
  | .swiftConstructor => some ⟨some "Initializer", "Constructor", none, false⟩
  | .swiftDestructor => some ⟨some "Deinitializer", "Method", none, false⟩
  | .swiftGlobalVariable => some ⟨some "Global Variable", "Global", none, true⟩
  | .swiftEnumCase => some ⟨some "Enumeration Case", "Case", none, false⟩
  | .swiftEnumElement => some ⟨some "Enumeration Element", "Element", none, false⟩
  | .swiftEnum => some ⟨some "Enumeration", "Enum", some "Enum", true⟩
  | .swiftExtension => some ⟨some "Extension", "Extension", none, true⟩
  | .swiftClassExtension => some ⟨some "Class Extension", "Extension", none, true⟩
  | .swiftEnumExtension => some ⟨some "Enumeration Extension", "Extension", none, true⟩
  | .swiftProtocolExtension => some ⟨some "Protocol Extension", "Extension", none, true⟩
  | .swiftStructExtension => some ⟨some "Structure Extension", "Extension", none, true⟩
  | .swiftFreeFunction => some ⟨some "Function", "Function", none, true⟩
  | .swiftInstanceMethod => some ⟨some "Instance Method", "Method", none, false⟩
  | .swiftInstanceVariable => some ⟨some "Instance Variable", "Property", none, false⟩
  | .swiftLocalVariable => some ⟨some "Local Variable", "Variable", none, false⟩
  | .swiftParameter => some ⟨some "Parameter", "Parameter", none, false⟩
  | .swiftProtocol => some ⟨some "Protocol", "Protocol", none, true⟩
  | .swiftStaticMethod => some ⟨some "Static Method", "Method", none, false⟩
  | .swiftStaticVariable => some ⟨some "Static Variable", "Variable", none, false⟩
  | .swiftStruct => some ⟨some "Structure", "Struct", some "Struct", true⟩
  | .swiftSubscript => some ⟨some "Subscript", "Method", none, false⟩
  | .swiftTypealias => some ⟨some "Type Alias", "Alias", some "Typealias", true⟩
  | .swiftGenericTypeParam => some ⟨some "Generic Type Parameter", "Parameter", none, false⟩
  | .swiftAssociatedType => some ⟨some "Associated Type", "Alias", none, false⟩
  | .swiftMacro => some ⟨some "Macro", "Macro", none, false⟩
  | _ => none

/-- The label of one declaration of the kind. -/
def label (kind : Kind) : Option String :=
  kind.info.bind (·.label)

/-- The label in the search index. -/
def searchLabel (kind : Kind) : Option String :=
  kind.info.map (·.searchLabel)

/-- The name of the kind in addresses: its own segment, or else its label. -/
def addressName (kind : Kind) : Option String :=
  kind.info.bind fun info => info.address <|> info.label

/-- Whether the kind gets a page of its own among global declarations. -/
def isGlobal (kind : Kind) : Bool :=
  kind.info.any (·.isGlobal)

/-- A text put through a pluralizer; an empty or missing one stays missing. -/
def pluralOf (inflect : String → String) (text : Option String) : Option String :=
  (text.filter fun word => !word.isEmpty).map inflect

/-- The label of several declarations of the kind. -/
def pluralLabel (inflect : String → String) (kind : Kind) : Option String :=
  pluralOf inflect kind.label

/-- The plural of the kind's name in addresses. -/
def pluralAddress (inflect : String → String) (kind : Kind) : Option String :=
  pluralOf inflect kind.addressName

/-- The kinds with a label, in the order of the category index. -/
def documentable : List Kind :=
  catalogue.filter fun kind => kind.label.isSome

end Kind
end DocForest
