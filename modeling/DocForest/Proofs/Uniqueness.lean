import DocForest.Proofs.FileNames
import DocForest.Proofs.Placing
import Mathlib.Data.List.Pairwise

/-!
# Pages that differ

Siblings take different names in the directory of their scope, and what is below each of them stands in a
directory of that name.  Going down from the roots, **two places that differ nowhere regardless of case are
the same place**, as a name holds no slash.

Two things are left out of this.  With one module its root takes no name, so that its children stand in the
directory of the roots; and the page of a root over a module is the index of the directory below it.  What
has to be known of the names there is stated as `Site.Clear`, and it is enough.

## What is here

* `Takes` — the name that a placement takes in the directory of its scope; `pairwise_placeAll` — **siblings
  take different names**.
* `Row.orderly` — the directories of all rows.
* `Site.Clear` — which names in the top directory and beside index pages have to differ.
* `Clear.takenOnce` — names are taken once; `Clear.eq_of_address` — **so pages have different addresses**.
-/

set_option autoImplicit false

namespace DocForest
namespace Pages
namespace Site

open Text

variable {site : Site} {scope scope' inner inner' : Scope} {used : List String}
  {siblings siblings' : List Nat} {placement above above' p q : Placement} {i depth depth' : Nat}
  {name a b : String}

/-! ## Names of siblings -/

/-- A placement takes a name in the directory of its scope if what is below it stands in a directory of
that name. -/
def Takes (scope : Scope) (placement : Placement) (name : String) : Prop :=
  placement.below.map Scope.directory = some (scope.directory ++ name ++ "/")

theorem Takes.unique (h : Takes scope placement a) (h' : Takes scope placement b) : a = b := by
  have heq := congrArg String.toList (Option.some.inj (h.symm.trans h'))
  simp only [String.toList_append, List.append_cancel_right_eq, List.append_cancel_left_eq] at heq
  exact String.toList_inj.1 heq

theorem Takes.directory (h : Takes scope placement name) (hbelow : placement.below = some inner) :
    inner.directory = scope.directory ++ name ++ "/" := by
  rw [Takes, hbelow] at h
  exact Option.some.inj h

theorem ne_of_takes (h : Takes scope placement name) (hbelow : placement.below = some inner) :
    inner.directory ≠ "" := by
  rw [h.directory hbelow]
  intro hempty
  have hlength := congrArg (fun s => s.toList.length) hempty
  simp at hlength

/-- What is known of the scopes of all rows. -/
structure Orderly (scope : Scope) : Prop where
  isDirectory : IsDirectory scope.directory
  isAscii : IsAscii scope.directory
  /-- The roots have no directory. -/
  root : scope.parent = none → scope.directory = ""

theorem orderly_rootScope : Orderly rootScope :=
  ⟨.inl rfl, fun _ hc => (List.not_mem_nil hc).elim, fun _ => rfl⟩

namespace PlacedAs

variable {next : List String}

theorem subset (h : PlacedAs site scope used i placement next) : used ⊆ next := by
  cases h with
  | overModule => exact List.subset_cons_self _ _
  | asPage => exact List.subset_cons_self _ _
  | onPage => exact List.Subset.refl _

/-- **A name that is taken is new, and is used from then on.** -/
theorem takes (h : PlacedAs site scope used i placement next) (hscope : Orderly scope)
    (htakes : Takes scope placement name) :
    (∀ c ∈ name.toList, isFileChar c = true) ∧ foldAscii name ∉ used ∧
      next = foldAscii name :: used := by
  cases h with
  | overModule _ hroot =>
    by_cases hmany : site.config.multipleModules = true
    · have hown : Takes scope (site.placeModule used i).1 (site.placeModule used i).2 := by
        rw [Takes, placeModule, hscope.root hroot]
        dsimp only
        rw [if_pos hmany, if_pos hmany, Option.map_some, String.empty_append]
      obtain rfl := htakes.unique hown
      dsimp only [placeModule]
      rw [if_pos hmany]
      exact ⟨unusedName_chars (fileName_chars _) _, foldAscii_unusedName_not_mem _ _, rfl⟩
    · refine absurd ?_ (ne_of_takes htakes rfl)
      dsimp only [placeModule]
      rw [if_neg hmany]
  | @asPage decl =>
    have hown : Takes scope (site.placePage scope used i decl).1
        (site.placePage scope used i decl).2 := rfl
    obtain rfl := htakes.unique hown
    exact ⟨unusedName_chars (fileName_chars _) _, foldAscii_unusedName_not_mem _ _, rfl⟩
  | onPage => cases htakes

end PlacedAs

theorem subset_place (scope : Scope) (used : List String) (i : Nat) :
    used ⊆ (site.place scope used i).2 := by
  cases hdecl : site.forest.decl? i with
  | none =>
    rw [place, hdecl]
    exact List.Subset.refl _
  | some decl =>
    obtain ⟨placement, hplace⟩ := exists_place hdecl scope used
    exact (placedAs_of_place hplace).subset

theorem not_mem_used_of_takes (hscope : Orderly scope)
    (h : placement ∈ site.placeAll scope used siblings) (htakes : Takes scope placement name) :
    foldAscii name ∉ used := by
  induction siblings generalizing used with
  | nil => cases h
  | cons i rest ih =>
    rw [placeAll_cons, List.mem_append, Option.mem_toList] at h
    rcases h with h | h
    · exact ((placedAs_of_place h).takes hscope htakes).2.1
    · exact fun hmem => ih h (subset_place scope used i hmem)

/-- **Siblings take different names.** -/
theorem pairwise_placeAll (hscope : Orderly scope) (site : Site) (used : List String)
    (siblings : List Nat) : (site.placeAll scope used siblings).Pairwise fun p q =>
      ∀ a b, Takes scope p a → Takes scope q b → foldAscii a ≠ foldAscii b := by
  induction siblings generalizing used with
  | nil => exact List.Pairwise.nil
  | cons i rest ih =>
    rw [placeAll_cons]
    refine List.pairwise_append.2 ⟨?_, ih _, fun p hp q hq a b ha hb heq => ?_⟩
    · cases (site.place scope used i).1 with
      | none => exact List.Pairwise.nil
      | some first => exact List.pairwise_singleton _ _
    · obtain ⟨-, -, hnext⟩ := (placedAs_of_place (Option.mem_toList.1 hp)).takes hscope ha
      refine not_mem_used_of_takes hscope hq hb ?_
      rw [hnext, ← heq]
      exact List.mem_cons_self

theorem eq_of_siblings (hscope : Orderly scope) (hp : p ∈ site.placeAll scope used siblings)
    (hq : q ∈ site.placeAll scope used siblings) (ha : Takes scope p a) (hb : Takes scope q b)
    (heq : foldAscii a = foldAscii b) : p = q := by
  by_contra hne
  have hsymm : Std.Symm fun p q : Placement =>
      ∀ a b, Takes scope p a → Takes scope q b → foldAscii a ≠ foldAscii b :=
    ⟨fun p q h a b ha hb heq => h b a hb ha heq.symm⟩
  exact (pairwise_placeAll hscope site used siblings).forall hp hq hne a b ha hb heq

/-! ## Directories of rows -/

/-- The placement of a root over a module, whose page is the index of the directory below it. -/
structure OverModule (site : Site) (scope : Scope) (placement : Placement) (inner : Scope) : Prop where
  root : scope.parent = none
  group : site.forest.isGroup placement.index = true
  below : placement.below = some inner
  address : placement.location.address = site.rooted (inner.directory ++ indexName ++ ".html")
  /-- One of several modules takes a name for its directory. -/
  named : site.config.multipleModules = true → ∃ name, Takes scope placement name
  /-- The only module has no directory of its own. -/
  bare : site.config.multipleModules = false → inner.directory = ""

/-- **A page takes the name of its file, unless it is the index page over a module.** -/
theorem page_cases (hscope : Orderly scope) (h : placement ∈ site.placeAll scope used siblings)
    (hpage : placement.location.isPage = true) :
    (∃ name, Takes scope placement name ∧
        placement.location.address = site.rooted (scope.directory ++ name ++ ".html")) ∨
      ∃ inner, OverModule site scope placement inner := by
  obtain ⟨used', next, hplaced⟩ := placedAs_of_mem_placeAll h
  generalize hindex : placement.index = j at hplaced
  cases hplaced with
  | @overModule decl hdecl hroot hgroup =>
    refine .inr ⟨_, hroot, ?_, rfl, rfl, fun hmany => ⟨(site.placeModule used' j).2, ?_⟩, fun hsingle => ?_⟩
    · rw [hindex, Forest.isGroup, Forest.satisfies, hdecl]
      exact hgroup
    · rw [Takes, placeModule, hscope.root hroot]
      dsimp only
      rw [if_pos hmany, if_pos hmany, Option.map_some, String.empty_append]
    · rw [hsingle]
      rfl
  | @asPage decl => exact .inl ⟨(site.placePage scope used' j decl).2, rfl, rfl⟩
  | onPage => cases hpage

theorem isPage_of_below (h : placement ∈ site.placeAll scope used siblings)
    (hbelow : placement.below = some inner) : placement.location.isPage = true := by
  obtain ⟨used', next, hplaced⟩ := placedAs_of_mem_placeAll h
  generalize placement.index = j at hplaced
  cases hplaced with
  | overModule => rfl
  | asPage => rfl
  | onPage => cases hbelow

/-- What is below a placement stands in the directory of its name, or in that of the roots. -/
theorem directory_of_below (hscope : Orderly scope) (h : placement ∈ site.placeAll scope used siblings)
    (hbelow : placement.below = some inner) :
    (∃ name, Takes scope placement name ∧ inner.directory = scope.directory ++ name ++ "/") ∨
      inner.directory = "" ∧ site.config.multipleModules = false ∧
        OverModule site scope placement inner := by
  rcases page_cases hscope h (isPage_of_below h hbelow) with ⟨name, hname, -⟩ | ⟨inner', hmodule⟩
  · exact .inl ⟨name, hname, hname.directory hbelow⟩
  · obtain rfl := Option.some.inj (hmodule.below.symm.trans hbelow)
    cases hmany : site.config.multipleModules with
    | true =>
      obtain ⟨name, hname⟩ := hmodule.named hmany
      exact .inl ⟨name, hname, hname.directory hbelow⟩
    | false => exact .inr ⟨hmodule.bare hmany, rfl, hmodule⟩

theorem chars_of_takes (hscope : Orderly scope) (h : placement ∈ site.placeAll scope used siblings)
    (htakes : Takes scope placement name) : ∀ c ∈ name.toList, isFileChar c = true := by
  obtain ⟨used', next, hplaced⟩ := placedAs_of_mem_placeAll h
  exact (hplaced.takes hscope htakes).1

/-- **The directories of all rows are made of names and slashes.** -/
theorem Row.orderly (h : Row site depth scope siblings) : Orderly scope := by
  induction h with
  | roots => exact orderly_rootScope
  | @children depth scope inner siblings above hrow habove hbelow ih =>
    have hparent := parent_ne_none_of_below habove hbelow
    rcases directory_of_below ih habove hbelow with ⟨name, htakes, hdirectory⟩ | ⟨hempty, -⟩
    · refine ⟨hdirectory ▸ .inr ⟨_, rfl⟩, ?_, fun hnone => absurd hnone hparent⟩
      rw [hdirectory]
      exact (ih.isAscii.append (isAscii_of_isFileChar (chars_of_takes ih habove htakes))).append
        (by decide)
    · refine ⟨.inl hempty, ?_, fun hnone => absurd hnone hparent⟩
      rw [hempty]
      exact fun c hc => (List.not_mem_nil hc).elim

/-! ## Different places have different names -/

theorem foldAscii_empty_iff {s : String} : foldAscii s = "" ↔ s = "" := by
  rw [← String.toList_inj, toList_foldAscii, ← String.toList_inj]
  exact List.map_eq_nil_iff

/-- Directories are the same regardless of case only if the last names in them are, and what is in front
of these. -/
theorem foldAscii_directory_inj {directory directory' : String} (hd : IsDirectory directory)
    (hd' : IsDirectory directory') (ha : ∀ c ∈ a.toList, isFileChar c = true)
    (hb : ∀ c ∈ b.toList, isFileChar c = true) (ending : String)
    (h : foldAscii (directory ++ a ++ ending) = foldAscii (directory' ++ b ++ ending)) :
    foldAscii directory = foldAscii directory' ∧ foldAscii a = foldAscii b := by
  rw [foldAscii_append, foldAscii_append _ ending] at h
  have hlists := congrArg String.toList h
  rw [String.toList_append, String.toList_append, List.append_cancel_right_eq, String.toList_inj,
    foldAscii_append, foldAscii_append] at hlists
  exact directory_append_inj hd.foldAscii hd'.foldAscii (slash_not_mem_foldAscii ha)
    (slash_not_mem_foldAscii hb) hlists

/-- Names that have to differ: those in the top directory, whoever takes them; those of pages beside the
index page over a module; and the directories of the modules. -/
structure Clear (site : Site) : Prop where
  takes : ∀ {depth depth' scope scope' siblings siblings' p q a b}, Row site depth scope siblings →
    Row site depth' scope' siblings' → scope.directory = "" → scope'.directory = "" →
    p ∈ site.placeAll scope [] siblings → q ∈ site.placeAll scope' [] siblings' →
    Takes scope p a → Takes scope' q b → foldAscii a = foldAscii b → p = q
  index : ∀ {depth depth' scope scope' siblings siblings' p q inner b}, Row site depth scope siblings →
    Row site depth' scope' siblings' → p ∈ site.placeAll scope [] siblings →
    q ∈ site.placeAll scope' [] siblings' → OverModule site scope p inner →
    foldAscii inner.directory = foldAscii scope'.directory → Takes scope' q b →
    foldAscii b ≠ indexName
  modules : ∀ {depth depth' scope scope' siblings siblings' p q inner inner'},
    Row site depth scope siblings → Row site depth' scope' siblings' →
    p ∈ site.placeAll scope [] siblings → q ∈ site.placeAll scope' [] siblings' →
    OverModule site scope p inner → OverModule site scope' q inner' →
    foldAscii inner.directory = foldAscii inner'.directory → p = q

/-- Names are taken once in the directory of a row. -/
def TakenOnce (site : Site) (scope : Scope) (siblings : List Nat) : Prop :=
  ∀ ⦃depth scope' siblings' p q a b⦄, Row site depth scope' siblings' →
    foldAscii scope.directory = foldAscii scope'.directory → p ∈ site.placeAll scope [] siblings →
    q ∈ site.placeAll scope' [] siblings' → Takes scope p a → Takes scope' q b →
    foldAscii a = foldAscii b → p = q

/-- What stands in the directory below a placement is what is below it. -/
theorem TakenOnce.eq_below (h : TakenOnce site scope siblings) (hrow : Row site depth scope siblings)
    (habove : above ∈ site.placeAll scope [] siblings) (hbelow : above.below = some inner)
    (hinner : inner.directory ≠ "") (hrow' : Row site depth' scope' siblings')
    (hdirectory : foldAscii inner.directory = foldAscii scope'.directory) :
    scope' = inner ∧ siblings' = site.forest.childrenOf above.index := by
  obtain ⟨a, ha, hname⟩ : ∃ a, Takes scope above a ∧ inner.directory = scope.directory ++ a ++ "/" :=
    (directory_of_below hrow.orderly habove hbelow).resolve_right fun hempty => hinner hempty.1
  have hne : scope'.directory ≠ "" := fun hempty =>
    hinner (foldAscii_empty_iff.1 (hdirectory.trans (foldAscii_empty_iff.2 hempty)))
  cases hrow' with
  | roots => exact absurd rfl hne
  | @children _ scope'' _ siblings'' above' hrow' habove' hbelow' =>
    obtain ⟨b, hb, hname'⟩ : ∃ b, Takes scope'' above' b ∧
        scope'.directory = scope''.directory ++ b ++ "/" :=
      (directory_of_below hrow'.orderly habove' hbelow').resolve_right fun hempty => hne hempty.1
    rw [hname, hname'] at hdirectory
    obtain ⟨hparents, hnames⟩ := foldAscii_directory_inj hrow.orderly.isDirectory
      hrow'.orderly.isDirectory (chars_of_takes hrow.orderly habove ha)
      (chars_of_takes hrow'.orderly habove' hb) "/" hdirectory
    obtain rfl := h hrow' hparents habove habove' ha hb hnames
    exact ⟨Option.some.inj (hbelow'.symm.trans hbelow), rfl⟩

/-- **Names are taken once**, in the top directory because it is clear, and further down because no two
rows share a directory. -/
theorem Clear.takenOnce (h : Clear site) (hrow : Row site depth scope siblings) :
    TakenOnce site scope siblings := by
  have htop : ∀ {depth scope siblings}, Row site depth scope siblings → scope.directory = "" →
      TakenOnce site scope siblings := by
    intro depth scope siblings hrow hempty depth' scope' siblings' p q a b hrow' hdirectory
    rw [hempty] at hdirectory
    exact h.takes hrow hrow' hempty (foldAscii_empty_iff.1 hdirectory.symm)
  induction hrow with
  | roots => exact htop .roots rfl
  | @children depth scope inner siblings above hrow habove hbelow ih =>
    by_cases hinner : inner.directory = ""
    · exact htop (.children hrow habove hbelow) hinner
    · intro depth' scope' siblings' p q a b hrow' hdirectory hp hq ha hb hnames
      obtain ⟨rfl, rfl⟩ := ih.eq_below hrow habove hbelow hinner hrow' hdirectory
      exact eq_of_siblings hrow'.orderly hp hq ha hb hnames

theorem rooted_eq (site : Site) (address : String) :
    site.rooted address = site.rooted "" ++ address := by
  rw [← rooted_append, String.empty_append]

/-- The directory and the file name of a page can be told from its address, up to case. -/
theorem fold_address_inj (folding : CaseFolding) {directory directory' : String}
    (hd : IsDirectory directory) (hd' : IsDirectory directory') (hascii : IsAscii directory)
    (hascii' : IsAscii directory') (ha : ∀ c ∈ a.toList, isFileChar c = true)
    (hb : ∀ c ∈ b.toList, isFileChar c = true)
    (h : folding.fold (site.rooted (directory ++ a ++ ".html")) =
      folding.fold (site.rooted (directory' ++ b ++ ".html"))) :
    foldAscii directory = foldAscii directory' ∧ foldAscii a = foldAscii b := by
  have hending : IsAscii ".html" := by decide
  rw [rooted_eq, rooted_eq _ (directory' ++ b ++ ".html"), folding.fold_append _ (directory ++ a ++ ".html"),
    folding.fold_append _ (directory' ++ b ++ ".html"), List.append_cancel_left_eq, folding.fold_eq_iff
      ((hascii.append (isAscii_of_isFileChar ha)).append hending)
      ((hascii'.append (isAscii_of_isFileChar hb)).append hending)] at h
  exact foldAscii_directory_inj hd hd' ha hb ".html" h

theorem OverModule.orderly (h : OverModule site scope p inner) (hrow : Row site depth scope siblings)
    (hp : p ∈ site.placeAll scope [] siblings) : Orderly inner :=
  (Row.children hrow hp h.below).orderly

theorem indexName_chars : ∀ c ∈ indexName.toList, isFileChar c = true :=
  List.all_eq_true.1 (by decide +kernel)

theorem foldAscii_indexName : foldAscii indexName = indexName := by decide +kernel

/-- **Different pages have different addresses.** -/
theorem Clear.eq_of_address (h : Clear site) (hrow : Row site depth scope siblings)
    (hrow' : Row site depth' scope' siblings') (hp : p ∈ site.placeAll scope [] siblings)
    (hq : q ∈ site.placeAll scope' [] siblings') (hpage : p.location.isPage = true)
    (hpage' : q.location.isPage = true) (folding : CaseFolding)
    (haddress : folding.fold p.location.address = folding.fold q.location.address) : p = q := by
  have hs := hrow.orderly
  have hs' := hrow'.orderly
  rcases page_cases hs hp hpage with ⟨a, ha, haddr⟩ | ⟨inner, hmodule⟩ <;>
    rcases page_cases hs' hq hpage' with ⟨b, hb, haddr'⟩ | ⟨inner', hmodule'⟩
  · rw [haddr, haddr'] at haddress
    obtain ⟨hdirectory, hnames⟩ := fold_address_inj folding hs.isDirectory hs'.isDirectory hs.isAscii
      hs'.isAscii (chars_of_takes hs hp ha) (chars_of_takes hs' hq hb) haddress
    exact h.takenOnce hrow hrow' hdirectory hp hq ha hb hnames
  · have hinner' := hmodule'.orderly hrow' hq
    rw [haddr, hmodule'.address] at haddress
    obtain ⟨hdirectory, hnames⟩ := fold_address_inj folding hs.isDirectory hinner'.isDirectory
      hs.isAscii hinner'.isAscii (chars_of_takes hs hp ha) indexName_chars haddress
    exact absurd (hnames.trans foldAscii_indexName) (h.index hrow' hrow hq hp hmodule' hdirectory.symm ha)
  · have hinner := hmodule.orderly hrow hp
    rw [hmodule.address, haddr'] at haddress
    obtain ⟨hdirectory, hnames⟩ := fold_address_inj folding hinner.isDirectory hs'.isDirectory
      hinner.isAscii hs'.isAscii indexName_chars (chars_of_takes hs' hq hb) haddress
    exact absurd (hnames.symm.trans foldAscii_indexName) (h.index hrow hrow' hp hq hmodule hdirectory hb)
  · have hinner := hmodule.orderly hrow hp
    have hinner' := hmodule'.orderly hrow' hq
    rw [hmodule.address, hmodule'.address] at haddress
    obtain ⟨hdirectory, -⟩ := fold_address_inj folding hinner.isDirectory hinner'.isDirectory
      hinner.isAscii hinner'.isAscii indexName_chars indexName_chars haddress
    exact h.modules hrow hrow' hp hq hmodule hmodule' hdirectory

end Site
end Pages
end DocForest
