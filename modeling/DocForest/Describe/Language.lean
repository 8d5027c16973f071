import DocForest.Config.Basic

/-!
# The languages of a declaration

## What is here

* `Declaration.isSwift`, `Declaration.highlighter` — the language a declaration is written in.
* `Declaration.shownLanguage`, `Declaration.shownText`, `Declaration.shownOtherText` — what is
  shown of it under a configuration.
-/

set_option autoImplicit false

namespace DocForest
namespace Declaration

/-- Whether a declaration is written in Swift. -/
def isSwift (decl : Declaration) : Bool :=
  decl.kind.isSwift

/-- The name of the declaration's language for a syntax highlighter. -/
def highlighter (decl : Declaration) : String :=
  if decl.isSwift then "swift" else "objective_c"

/-- The language in which a declaration is shown: where Objective-C is hidden, all is Swift. -/
def shownLanguage (decl : Declaration) (config : Config) : String :=
  if decl.isSwift || config.hidesObjc then "Swift" else "Objective-C"

/-- The text of a declaration in the language in which it is shown. -/
def shownText (decl : Declaration) (config : Config) : Json :=
  if !decl.isSwift && config.hidesObjc then decl.otherDeclaration else .str decl.declaration

/-- The text of a declaration in the other language, unless a language is hidden. -/
def shownOtherText (decl : Declaration) (config : Config) : Json :=
  if config.hidesObjc || config.hidesSwift then .null else decl.otherDeclaration

end Declaration
end DocForest
