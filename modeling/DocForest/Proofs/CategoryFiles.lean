import DocForest.Describe.Names
import DocForest.Pages.Location
import DocForest.Proofs.FileNames
import DocForest.Proofs.Headings
import Mathlib.Data.List.Pairwise

/-!
# Files of categories

The page of a category is named after the plural of its label.  There are finitely many labels, and their
file names are known: none is a numbered one, none is the name of index pages, and **different categories
have different ones**, whatever the case of their letters.

## What is here

* `Declaration.fileKey`, `Forest.fileKey?` — the file name that a node asks for, in small letters.
* `Kind.categoryKey` — the one that a category asks for; `Kind.categoryKey_plain`,
  `Kind.label_eq_of_categoryKey_eq` — what is known of them.
* `Forest.OverCategories` — a node over categories, each of them with a file name of its own.
* `Built.headed` — **the roots are guides and nodes over categories**.
-/

set_option autoImplicit false

namespace DocForest

open Pages

/-! ## File names that are asked for -/

/-- The file name that a declaration asks for, in small letters. -/
def Declaration.fileKey (decl : Declaration) : String :=
  Text.foldAscii (fileName decl.fileTitle.plainText)

/-- The file name that a node asks for, in small letters. -/
def Forest.fileKey? (forest : Forest) (i : Nat) : Option String :=
  (forest.decl? i).map Declaration.fileKey

/-- The file name of the category that is named after a kind, in small letters. -/
def Kind.categoryKey (kind : Kind) : String :=
  (ModuleSection.groupOf Text.pluralize ⟨.null, []⟩ ⟨kind, []⟩).fileKey

/-! ## The table of categories

The table is read character by character, since texts are slow to take apart. -/

/-- The characters of a plural. -/
def Text.pluralChars (word : List Char) : List Char :=
  if word.isEmpty then []
  else if endsInConsonantY word then word.dropLast ++ ['i', 'e', 's']
  else if hissingEndings.any fun ending => ending.toList.isSuffixOf (word.map Char.toLower) then
    word ++ ['e', 's']
  else word ++ ['s']

theorem Text.toList_pluralize (word : String) : (pluralize word).toList = pluralChars word.toList := by
  have hempty : word.isEmpty = word.toList.isEmpty := by
    rw [Bool.eq_iff_iff, String.isEmpty_iff, List.isEmpty_iff, String.toList_eq_nil_iff]
  unfold pluralize pluralChars
  rw [hempty]
  split
  · next h => exact List.isEmpty_iff.1 h
  · split
    · exact String.toList_ofList
    · simp only [endsWith, String.toList_ofList]
      split
      · exact String.toList_append
      · exact String.toList_append

theorem Text.pluralize_ne_empty {word : String} (h : word ≠ "") : pluralize word ≠ "" := by
  intro hempty
  have hchars := congrArg String.toList hempty
  rw [toList_pluralize, pluralChars] at hchars
  split at hchars
  · next hword => exact h (String.toList_eq_nil_iff.1 (List.isEmpty_iff.1 hword))
  · split at hchars
    · simp at hchars
    · split at hchars <;> simp at hchars

/-- The characters of a file name. -/
def Pages.fileChars (name : List Char) : List Char :=
  let trimmed := Text.trimList name
  if trimmed.isEmpty then "Unknown".toList
  else if trimmed = ['.'] then "%2E".toList
  else if trimmed = ['.', '.'] then "%2E%2E".toList
  else Text.percentEncode trimmed

theorem Pages.toList_fileName (name : String) : (fileName name).toList = fileChars name.toList := by
  simp only [fileName, fileChars, apply_ite String.toList, String.toList_ofList]

namespace Kind

variable {kind other : Kind}

/-- The characters of the file name of a category. -/
def categoryChars (kind : Kind) : List Char :=
  (fileChars (Text.pluralChars (kind.addressName.getD "").toList)).map Char.toLower

theorem addressName_ne_empty : ∀ kind ∈ documentable, kind.addressName.getD "" ≠ "" := by
  decide +kernel

theorem toList_categoryKey (h : kind ∈ documentable) :
    kind.categoryKey.toList = kind.categoryChars := by
  have hne := addressName_ne_empty kind h
  cases haddress : kind.addressName with
  | none => exact absurd (by rw [haddress]; rfl) hne
  | some word =>
    rw [haddress, Option.getD_some] at hne
    have hfull : ∀ {text : String}, text ≠ "" → (!text.isEmpty) = true := by simp
    have hplural : kind.pluralAddress Text.pluralize = some (Text.pluralize word) := by
      rw [pluralAddress, pluralOf, haddress, Option.filter_some, if_pos (hfull hne), Option.map_some]
    have htitle : (ModuleSection.groupOf Text.pluralize ⟨.null, []⟩ ⟨kind, []⟩).fileTitle =
        .str (Text.pluralize word) := by
      simp only [ModuleSection.groupOf, Declaration.fileTitle, Declaration.group, hplural, Option.map_some,
        Option.getD_some, Json.truthy, if_pos (hfull (Text.pluralize_ne_empty hne))]
      rfl
    rw [categoryKey, Declaration.fileKey, htitle, Text.toList_foldAscii, toList_fileName, categoryChars,
      haddress]
    exact congrArg (fun chars => (fileChars chars).map Char.toLower) (Text.toList_pluralize word)

/-- No category is named like a numbered page or like an index page, and no two are named alike. -/
theorem categoryChars_table :
    (∀ kind ∈ documentable, '-' ∉ kind.categoryChars ∧ kind.categoryChars ≠ indexName.toList) ∧
      (documentable.map fun kind => (kind.categoryChars, kind.label)).Pairwise fun entry other =>
        entry.1 = other.1 → entry.2 = other.2 := by
  decide +kernel

/-- **No category is named like a numbered page, or like an index page.** -/
theorem categoryKey_plain (h : kind.label.isSome = true) :
    '-' ∉ kind.categoryKey.toList ∧ kind.categoryKey ≠ indexName := by
  have hkind := mem_documentable h
  have hplain := categoryChars_table.1 kind hkind
  rw [← toList_categoryKey hkind] at hplain
  exact ⟨hplain.1, fun heq => hplain.2 (congrArg String.toList heq)⟩

/-- **Categories with different labels have different file names.** -/
theorem label_eq_of_categoryKey_eq (h : kind.label.isSome = true) (h' : other.label.isSome = true)
    (heq : kind.categoryKey = other.categoryKey) : kind.label = other.label := by
  have hkind := mem_documentable h
  have hother := mem_documentable h'
  have hchars : kind.categoryChars = other.categoryChars := by
    rw [← toList_categoryKey hkind, ← toList_categoryKey hother, heq]
  by_contra hne
  have hsymm : Std.Symm fun entry other : List Char × Option String =>
      entry.1 = other.1 → entry.2 = other.2 := ⟨fun _ _ h heq => (h heq.symm).symm⟩
  refine hne (categoryChars_table.2.forall (List.mem_map_of_mem hkind) (List.mem_map_of_mem hother)
    (fun hsame => hne (congrArg Prod.snd hsame)) hchars)

end Kind

/-! ## Nodes over categories -/

namespace Forest

variable {config : Config} {records : List Record} {loaded : Loaded} {forest : Forest}
  {part : ModuleSection} {guides heads : List Nat} {r : Nat}

/-- A group over categories.  These have pages, as they list something, and ask for file names that no
other page is given for want of a better one, each of them for one of its own. -/
structure OverCategories (forest : Forest) (r : Nat) : Prop where
  group : forest.isGroup r = true
  plain : ∀ c ∈ forest.childrenOf r, ∃ key, forest.fileKey? c = some key ∧ '-' ∉ key.toList ∧
    key ≠ indexName
  apart : ((forest.childrenOf r).map forest.fileKey?).Nodup
  full : ∀ c ∈ forest.childrenOf r, forest.childrenOf c ≠ []

/-- The roots are guides, and behind them groups over categories. -/
structure Headed (forest : Forest) (guides heads : List Nat) : Prop where
  rootList : forest.rootList = guides ++ heads
  guide : ∀ g ∈ guides, forest.isGuide g = true
  head : ∀ r ∈ heads, forest.OverCategories r

theorem Heads.overCategories (h : Heads Text.pluralize part forest forest.childrenOf r)
    (hlabel : ∀ category ∈ part.categories, category.kind.label.isSome = true)
    (hpairwise : part.categories.Pairwise fun category other => category.kind.label ≠ other.kind.label) :
    forest.OverCategories r where
  group := by
    rw [isGroup, satisfies, h.root]
    rfl
  plain c hc := by
    obtain ⟨category, hcategory, hdecl⟩ := h.exists_category hc
    exact ⟨_, congrArg (Option.map Declaration.fileKey) hdecl,
      Kind.categoryKey_plain (hlabel category hcategory)⟩
  apart := by
    have hkeys : (forest.childrenOf r).map forest.fileKey? =
        part.categories.map fun category => some category.kind.categoryKey := by
      have hdecls := congrArg (List.map (Option.map Declaration.fileKey)) h.categories
      rwa [List.map_map, List.map_map] at hdecls
    rw [hkeys]
    refine List.pairwise_map.2 (hpairwise.imp_of_mem fun {category other} hcategory hother hne heq => ?_)
    exact hne (Kind.label_eq_of_categoryKey_eq (hlabel category hcategory) (hlabel other hother)
      (Option.some.inj heq))
  full := h.nonempty

/-- **The roots are guides, and behind them groups over categories.** -/
theorem Built.headed (h : Built config Text.pluralize records loaded forest) :
    ∃ guides heads, forest.Headed guides heads := by
  obtain ⟨guides, heads, hroots, hguide, hheads⟩ := exists_heads h.frozen h.prepared
  refine ⟨guides, heads, hroots, hguide, fun r hr => ?_⟩
  obtain ⟨part, hpart, hhead⟩ := hheads r hr
  have hcategories := (mem_moduleSections hpart).2
  refine hhead.overCategories (fun category hcategory => ?_) ?_
  · rw [hcategories] at hcategory
    exact (of_mem_categoriesOf hcategory).1
  · rw [hcategories]
    exact pairwise_categoriesOf _ _

theorem not_isGroup_of_isGuide {i : Nat} (h : forest.isGuide i = true) : forest.isGroup i = false := by
  rw [isGuide, satisfies] at h
  rw [isGroup, satisfies]
  cases hdecl : forest.decl? i with
  | none => rfl
  | some decl =>
    rw [hdecl, Option.any_some, Kind.isMarkdown] at h
    rw [Option.any_some]
    cases hkind : decl.kind <;> simp_all [Kind.isOverview]

namespace Headed

theorem guide_or_over (h : forest.Headed guides heads) (hr : r ∈ forest.rootList) :
    r ∈ guides ∧ forest.isGuide r = true ∨ forest.OverCategories r := by
  rw [h.rootList, List.mem_append] at hr
  exact hr.imp (fun hr => ⟨hr, h.guide r hr⟩) (h.head r)

theorem over_of_isGroup (h : forest.Headed guides heads) (hr : r ∈ forest.rootList)
    (hgroup : forest.isGroup r = true) : forest.OverCategories r := by
  refine (h.guide_or_over hr).resolve_left fun hguide => ?_
  rw [not_isGroup_of_isGuide hguide.2] at hgroup
  cases hgroup

end Headed
end Forest
end DocForest
