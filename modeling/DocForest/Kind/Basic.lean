/-!
# Kinds of declarations

Every record names its kind by a dotted identifier.  The kinds that have a meaning here are the
constructors of `Kind`; any other identifier is kept as it is.

## What is here

* `Kind` — the kinds, and `Kind.raw` — the identifier of each.
* `Kind.catalogue` — the kinds that have an entry of display labels, in the order of the category index.
* `Kind.known` — all kinds with a constructor of their own.
* `Kind.ofRaw` — the kind of an identifier; `raw_ofRaw` says that nothing of it is lost.
-/

set_option autoImplicit false

namespace DocForest

/-- The kind of a declaration, comment or synthetic node. -/
inductive Kind where
  | markdown
  | overview
  | objcUnexposed
  | objcCategory
  | objcClass
  | objcConstant
  | objcEnum
  | objcEnumCase
  | objcInitializer
  | objcClassMethod
  | objcInstanceMethod
  | objcProperty
  | objcProtocol
  | objcTypedef
  | objcMark
  | objcFunction
  | objcStruct
  | objcUnion
  | objcField
  | objcIvar
  | objcModuleImport
  | swiftActor
  | swiftAddressor
  | swiftDidset
  | swiftGetter
  | swiftMutableAddressor
  | swiftSetter
  | swiftWillset
  | swiftOperator
  | swiftInfixOperator
  | swiftPostfixOperator
  | swiftPrefixOperator
  | swiftClassMethod
  | swiftClassVariable
  | swiftClass
  | swiftConstructor
  | swiftDestructor
  | swiftGlobalVariable
  | swiftEnumCase
  | swiftEnumElement
  | swiftEnum
  | swiftExtension
  | swiftClassExtension
  | swiftEnumExtension
  | swiftProtocolExtension
  | swiftStructExtension
  | swiftFreeFunction
  | swiftInstanceMethod
  | swiftInstanceVariable
  | swiftLocalVariable
  | swiftParameter
  | swiftProtocol
  | swiftStaticMethod
  | swiftStaticVariable
  | swiftStruct
  | swiftSubscript
  | swiftTypealias
  | swiftGenericTypeParam
  | swiftAssociatedType
  | swiftMacro
  | swiftMark
  | other (identifier : String)
  deriving DecidableEq, Repr

namespace Kind

/-- The identifier that records use for a kind. -/
def raw : Kind → String
  | .markdown => "document.markdown"
  | .overview => "Overview"
  | .objcUnexposed => "sourcekitten.source.lang.objc.decl.unexposed"
  | .objcCategory => "sourcekitten.source.lang.objc.decl.category"
  | .objcClass => "sourcekitten.source.lang.objc.decl.class"
  | .objcConstant => "sourcekitten.source.lang.objc.decl.constant"
  | .objcEnum => "sourcekitten.source.lang.objc.decl.enum"
  | .objcEnumCase => "sourcekitten.source.lang.objc.decl.enumcase"
  | .objcInitializer => "sourcekitten.source.lang.objc.decl.initializer"
  | .objcClassMethod => "sourcekitten.source.lang.objc.decl.method.class"
  | .objcInstanceMethod => "sourcekitten.source.lang.objc.decl.method.instance"
  | .objcProperty => "sourcekitten.source.lang.objc.decl.property"
  | .objcProtocol => "sourcekitten.source.lang.objc.decl.protocol"
  | .objcTypedef => "sourcekitten.source.lang.objc.decl.typedef"
  | .objcMark => "sourcekitten.source.lang.objc.mark"
  | .objcFunction => "sourcekitten.source.lang.objc.decl.function"
  | .objcStruct => "sourcekitten.source.lang.objc.decl.struct"
  | .objcUnion => "sourcekitten.source.lang.objc.decl.union"
  | .objcField => "sourcekitten.source.lang.objc.decl.field"
  | .objcIvar => "sourcekitten.source.lang.objc.decl.ivar"
  | .objcModuleImport => "sourcekitten.source.lang.objc.module.import"
  | .swiftActor => "source.lang.swift.decl.actor"
  | .swiftAddressor => "source.lang.swift.decl.function.accessor.address"
  | .swiftDidset => "source.lang.swift.decl.function.accessor.didset"
  | .swiftGetter => "source.lang.swift.decl.function.accessor.getter"
  | .swiftMutableAddressor => "source.lang.swift.decl.function.accessor.mutableaddress"
  | .swiftSetter => "source.lang.swift.decl.function.accessor.setter"
  | .swiftWillset => "source.lang.swift.decl.function.accessor.willset"
  | .swiftOperator => "source.lang.swift.decl.function.operator"
  | .swiftInfixOperator => "source.lang.swift.decl.function.operator.infix"
  | .swiftPostfixOperator => "source.lang.swift.decl.function.operator.postfix"
  | .swiftPrefixOperator => "source.lang.swift.decl.function.operator.prefix"
  | .swiftClassMethod => "source.lang.swift.decl.function.method.class"
  | .swiftClassVariable => "source.lang.swift.decl.var.class"
  | .swiftClass => "source.lang.swift.decl.class"
  | .swiftConstructor => "source.lang.swift.decl.function.constructor"
  | .swiftDestructor => "source.lang.swift.decl.function.destructor"
  | .swiftGlobalVariable => "source.lang.swift.decl.var.global"
  | .swiftEnumCase => "source.lang.swift.decl.enumcase"
  | .swiftEnumElement => "source.lang.swift.decl.enumelement"
  | .swiftEnum => "source.lang.swift.decl.enum"
  | .swiftExtension => "source.lang.swift.decl.extension"
  | .swiftClassExtension => "source.lang.swift.decl.extension.class"
  | .swiftEnumExtension => "source.lang.swift.decl.extension.enum"
  | .swiftProtocolExtension => "source.lang.swift.decl.extension.protocol"
  | .swiftStructExtension => "source.lang.swift.decl.extension.struct"
  | .swiftFreeFunction => "source.lang.swift.decl.function.free"
  | .swiftInstanceMethod => "source.lang.swift.decl.function.method.instance"
  | .swiftInstanceVariable => "source.lang.swift.decl.var.instance"
  | .swiftLocalVariable => "source.lang.swift.decl.var.local"
  | .swiftParameter => "source.lang.swift.decl.var.parameter"
  | .swiftProtocol => "source.lang.swift.decl.protocol"
  | .swiftStaticMethod => "source.lang.swift.decl.function.method.static"
  | .swiftStaticVariable => "source.lang.swift.decl.var.static"
  | .swiftStruct => "source.lang.swift.decl.struct"
  | .swiftSubscript => "source.lang.swift.decl.function.subscript"
  | .swiftTypealias => "source.lang.swift.decl.typealias"
  | .swiftGenericTypeParam => "source.lang.swift.decl.generic_type_param"
  | .swiftAssociatedType => "source.lang.swift.decl.associatedtype"
  | .swiftMacro => "source.lang.swift.decl.macro"
  | .swiftMark => "source.lang.swift.syntaxtype.comment.mark"
  | .other identifier => identifier

/-- The kinds that have an entry of display labels, in the order in which categories are listed. -/
def catalogue : List Kind :=
  [.markdown, .overview, .objcUnexposed, .objcCategory, .objcClass, .objcConstant, .objcEnum,
   .objcEnumCase, .objcInitializer, .objcClassMethod, .objcInstanceMethod, .objcProperty,
   .objcProtocol, .objcTypedef, .objcMark, .objcFunction, .objcStruct, .objcUnion, .objcField,
   .objcIvar, .objcModuleImport, .swiftActor, .swiftAddressor, .swiftDidset, .swiftGetter,
   .swiftMutableAddressor, .swiftSetter, .swiftWillset, .swiftOperator, .swiftInfixOperator,
   .swiftPostfixOperator, .swiftPrefixOperator, .swiftClassMethod, .swiftClassVariable,
   .swiftClass, .swiftConstructor, .swiftDestructor, .swiftGlobalVariable, .swiftEnumCase,
   .swiftEnumElement, .swiftEnum, .swiftExtension, .swiftClassExtension, .swiftEnumExtension,
   .swiftProtocolExtension, .swiftStructExtension, .swiftFreeFunction, .swiftInstanceMethod,
   .swiftInstanceVariable, .swiftLocalVariable, .swiftParameter, .swiftProtocol,
   .swiftStaticMethod, .swiftStaticVariable, .swiftStruct, .swiftSubscript, .swiftTypealias,
   .swiftGenericTypeParam, .swiftAssociatedType, .swiftMacro]

/-- The kinds with a constructor of their own. -/
def known : List Kind :=
  catalogue ++ [.swiftMark]

/-- The kind of an identifier. -/
def ofRaw (identifier : String) : Kind :=
  (known.find? fun kind => kind.raw = identifier).getD (.other identifier)

theorem raw_ofRaw (identifier : String) : (ofRaw identifier).raw = identifier := by
  unfold ofRaw
  cases h : known.find? fun kind => kind.raw = identifier with
  | none => rfl
  | some kind => simpa using List.find?_some h

end Kind
end DocForest
