import DocForest.Declaration.OfRecord

/-!
# Configurations

## What is here

* `HiddenLanguage` — which language's declarations are hidden.
* `Config` — the options of a run.
* `Config.ofJson` — the options that an object states.
-/

set_option autoImplicit false

namespace DocForest

/-- The language whose declarations are not shown. -/
inductive HiddenLanguage where
  | neither
  | objc
  | swift
  deriving DecidableEq, Repr

namespace HiddenLanguage

/-- The name of the choice in a configuration. -/
def label : HiddenLanguage → String
  | neither => ""
  | objc => "objc"
  | swift => "swift"

/-- The choice with a given name. -/
def ofLabel? (text : String) : Option HiddenLanguage :=
  [neither, objc, swift].find? fun choice => choice.label = text

end HiddenLanguage

/-- The options of a run. -/
structure Config where
  /-- The documented modules. -/
  modules : List String := []
  /-- Whether global declarations get pages of their own. -/
  separateGlobals : Bool := false
  hidden : HiddenLanguage := .neither
  /-- The least access level that is documented. -/
  minLevel : AccessLevel := .publicLevel
  /-- The patterns of files with overview texts. -/
  abstractPatterns : List String := []
  /-- What stands in front of all addresses. -/
  addressRoot : String := ""
  deriving Repr

namespace Config

/-- Whether the declarations of Objective-C are hidden. -/
def hidesObjc (config : Config) : Bool :=
  config.hidden = .objc

/-- Whether the declarations of Swift are hidden. -/
def hidesSwift (config : Config) : Bool :=
  config.hidden = .swift

/-- Whether several modules are documented. -/
def multipleModules (config : Config) : Bool :=
  1 < config.modules.length

/-- Whether a module is documented, which it can only be under a name that is a text. -/
def documents (config : Config) (moduleName : Json) : Bool :=
  moduleName.string?.any config.modules.contains

/-- The options that the fields of an object state; what they do not state is left at the defaults.
Of several faults the modules come first, then the access level, the patterns and the hidden
language. -/
def ofFields (options : Json) : Except Failure Config := do
  let modules ← readList (options.field "modules")
  let levelText :=
    let stated := options.field "min_acl"
    if stated.truthy then stated.plainText else "public"
  let minLevel ← match AccessLevel.ofLabel? levelText with
    | some level => .ok level
    | none => .error (.unknownLevel levelText)
  let patterns ← readList (options.field "abstract_glob")
  let hiddenText := (options.field "hide_declarations").givenText
  let hidden ← match HiddenLanguage.ofLabel? hiddenText with
    | some choice => .ok choice
    | none => .error (.unknownLanguage hiddenText)
  let root := (options.field "api_root").givenText
  return {
    modules := modules.map Json.plainText
    separateGlobals := (options.field "separate_global_declarations").truthy
    hidden, minLevel
    abstractPatterns := patterns.map Json.plainText
    addressRoot := String.ofList (Text.trimEndOf (· = '/') root.toList) }

/-- The options of a value, which has to be an object if it is given. -/
def ofJson (options : Json) : Except Failure Config :=
  match options with
  | .obj _ => ofFields options
  | _ => if options.truthy then .error .notObject else ofFields options

end Config
end DocForest
