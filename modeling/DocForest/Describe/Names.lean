import DocForest.Forest.Walk

/-!
# Names of a declaration

## What is here

* `Declaration.categoryParts`, `Declaration.baseName` — the type that a category extends.
* `Declaration.fileTitle` — the name from which a file name is made.
* `Declaration.extendedObjcName`, `Declaration.extendsObjc` — the Objective-C side of a Swift
  extension, which its identifier gives if it is a text.
* `Forest.qualifiedModuleParts`, `Forest.qualifiedModuleName` — the qualified name with the module
  in front.
-/

set_option autoImplicit false

namespace DocForest
namespace Declaration

/-- The parts of a category's name: `NSString(MyMethods)` has the parts `NSString` and
`MyMethods`.  Other declarations have none. -/
def categoryParts (decl : Declaration) : Option (List String) :=
  if decl.kind = .objcCategory then
    let pieces := Text.piecesBy (fun c => c = '(' || c = ')') decl.nameText.toList
    some ((pieces.reverse.dropWhile List.isEmpty).reverse.map String.ofList)
  else none

/-- The name of the type that a declaration extends, or its own name. -/
def baseName (decl : Declaration) : String :=
  ((decl.categoryParts.getD []).head?).getD decl.nameText

/-- The name from which a file name is made.  Free functions may share a name and differ in the
types of their arguments, so the type is added. -/
def fileTitle (decl : Declaration) : Json :=
  let title := if decl.addressName.truthy then decl.addressName else decl.name
  if decl.kind = .swiftFreeFunction then .str (title.plainText ++ "_" ++ decl.typeUsr.givenText)
  else title

/-- What stands behind the last occurrence of `part`. -/
def afterLast? (part : List Char) : List Char → Option (List Char)
  | [] => none
  | c :: rest =>
    match afterLast? part rest with
    | some found => some found
    | none => if part.isPrefixOf (c :: rest) then some ((c :: rest).drop part.length) else none

/-- The identifier of the type that a Swift extension extends, if there is one; it has to be a text. -/
def extendedUsr (decl : Declaration) : Except Failure (Option String) :=
  if decl.kind.isSwiftExtension && decl.hasUsr then
    match decl.usr.string? with
    | some usr => .ok (some usr)
    | none => .error .notText
  else .ok none

/-- Whether a Swift extension extends a type of Objective-C. -/
def extendsObjc (decl : Declaration) : Except Failure Bool :=
  decl.extendedUsr.map fun usr => usr.any (Text.startsWith "c:objc")

/-- The Objective-C name of the type that a Swift extension extends, as its identifier gives it. -/
def extendedObjcName (decl : Declaration) : Except Failure (Option String) :=
  decl.extendedUsr.map fun usr => usr.map fun usr =>
    String.ofList ((afterLast? "(cs)".toList usr.toList).getD usr.toList)

end Declaration

namespace Forest

/-- The module of the outermost container, if it is known, and the names from there on. -/
def qualifiedModuleParts (forest : Forest) (i : Nat) : List Json :=
  let path := forest.namespacePath i
  let module := ((path.head?.bind forest.decl?).map (·.moduleName)).getD .null
  (module :: path.map forest.nameOf).filter fun part => !part.isNull

/-- The qualified name with the module in front, all of which has to be text. -/
def qualifiedModuleName (forest : Forest) (i : Nat) : Except Failure String :=
  let parts := forest.qualifiedModuleParts i
  if parts.all Json.isText then .ok (String.intercalate "." (parts.map Json.plainText))
  else .error .notJoinable

end Forest
end DocForest
