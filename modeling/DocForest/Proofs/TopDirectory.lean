import DocForest.Documentation
import DocForest.Proofs.Coverage
import DocForest.Proofs.Requests
import DocForest.Proofs.TopLevel

/-!
# The top directory

With several modules the roots are alone in the top directory, and their names differ.  With one module
its categories stand there too, beside the guides and the index page, and nobody compares the names of
these three.  **The pages of one module differ exactly if no guide is to be named like the index page or
like a category**, and if there are no groups over further modules, which would have the same index page.

## What is here

* `Forest.ClearTop` — nobody asks twice for a name in the top directory of one module.
* `Row.topRow` — who stands in the top directory; `category_takes`, `guide_takes` — the names there.
* `clear_of_several` — with several modules all names differ that have to; `clear_of_single`,
  `clearTop_of_differ` — with one module they do if the top directory is clear, and only then.
* `Documentation.PagesDiffer` — no two pages have the same address up to case.
* `Documentation.ofRecords_pages_differ`, `Documentation.ofRecords_pages_differ_iff` — **when they do not**.
-/

set_option autoImplicit false

namespace DocForest

open Forest Text

/-! ## The top directory of one module -/

/-- What guides ask for in the top directory of a single module, and the groups there. -/
structure Forest.ClearTop (forest : Forest) : Prop where
  /-- There is one group over a module at most. -/
  group : ∀ r ∈ forest.rootList, ∀ r' ∈ forest.rootList, forest.isGroup r = true →
    forest.isGroup r' = true → r = r'
  /-- No guide asks for the name of the index page. -/
  index : ∀ g ∈ forest.rootList, ∀ r ∈ forest.rootList, forest.isGuide g = true →
    forest.isGroup r = true → forest.fileKey? g ≠ some Pages.indexName
  /-- No guide asks for the name of a category. -/
  category : ∀ g ∈ forest.rootList, ∀ r ∈ forest.rootList, forest.isGuide g = true →
    forest.isGroup r = true → ∀ c ∈ forest.childrenOf r, forest.fileKey? g ≠ forest.fileKey? c

instance (forest : Forest) : Decidable forest.ClearTop :=
  decidable_of_iff
    ((∀ r ∈ forest.rootList, ∀ r' ∈ forest.rootList, forest.isGroup r = true →
        forest.isGroup r' = true → r = r') ∧
      (∀ g ∈ forest.rootList, ∀ r ∈ forest.rootList, forest.isGuide g = true →
        forest.isGroup r = true → forest.fileKey? g ≠ some Pages.indexName) ∧
      ∀ g ∈ forest.rootList, ∀ r ∈ forest.rootList, forest.isGuide g = true →
        forest.isGroup r = true → ∀ c ∈ forest.childrenOf r, forest.fileKey? g ≠ forest.fileKey? c)
    ⟨fun ⟨hgroup, hindex, hcategory⟩ => ⟨hgroup, hindex, hcategory⟩,
      fun h => ⟨h.group, h.index, h.category⟩⟩

namespace Pages.Site

variable {site : Site} {scope inner : Scope} {siblings guides heads : List Nat} {above p q : Placement}
  {i depth : Nat} {a b : String}

/-! ## Who stands in the top directory -/

theorem Row.eq_roots (h : Row site depth scope siblings) (hparent : scope.parent = none) :
    scope = rootScope ∧ siblings = site.forest.rootList := by
  cases h with
  | roots => exact ⟨rfl, rfl⟩
  | children _ habove hbelow => exact absurd hparent (parent_ne_none_of_below habove hbelow)

/-- The rows in the top directory: the roots and, with one module, its categories. -/
inductive TopRow (site : Site) : Scope → List Nat → Prop
  | roots : TopRow site rootScope site.forest.rootList
  | categories {above : Placement} {inner : Scope} (hsingle : site.config.multipleModules = false)
      (habove : above ∈ site.placeAll rootScope [] site.forest.rootList)
      (hmodule : OverModule site rootScope above inner) :
      TopRow site inner (site.forest.childrenOf above.index)

theorem Row.topRow (h : Row site depth scope siblings) (hempty : scope.directory = "") :
    TopRow site scope siblings := by
  cases h with
  | roots => exact .roots
  | @children _ outer _ _ above hrow habove hbelow =>
    rcases directory_of_below hrow.orderly habove hbelow with ⟨name, htakes, -⟩ | ⟨-, hsingle, hmodule⟩
    · exact absurd hempty (ne_of_takes htakes hbelow)
    · obtain ⟨rfl, rfl⟩ := hrow.eq_roots hmodule.root
      exact .categories hsingle habove hmodule

theorem OverModule.mem_roots (h : OverModule site scope p inner) (hrow : Row site depth scope siblings)
    (hp : p ∈ site.placeAll scope [] siblings) :
    p ∈ site.placeAll rootScope [] site.forest.rootList ∧ p.index ∈ site.forest.rootList := by
  obtain ⟨rfl, rfl⟩ := hrow.eq_roots h.root
  exact ⟨hp, (index_of_mem_placeAll hp).1⟩

theorem isPlain_of_category {r c : Nat} (hover : site.forest.OverCategories r)
    (hc : c ∈ site.forest.childrenOf r) (hparent : scope.parent ≠ none) : site.IsPlain scope c where
  isPage := by
    rw [isPage, rendersAsPage]
    simp [hover.full c hc]
  other hnone := absurd hnone hparent

theorem isPlain_of_guide (hguide : site.forest.isGuide i = true) : site.IsPlain rootScope i where
  isPage := by
    rw [isPage, hguide, Bool.or_true, Bool.true_or]
  other _ := not_isGroup_of_isGuide hguide

/-- **Below the page over a module the names are those of the categories.** -/
theorem category_takes (h : site.forest.Headed guides heads)
    (habove : above ∈ site.placeAll rootScope [] site.forest.rootList)
    (hmodule : OverModule site rootScope above inner)
    (hq : q ∈ site.placeAll inner [] (site.forest.childrenOf above.index)) (hb : Takes inner q b) :
    site.forest.fileKey? q.index = some (foldAscii b) ∧ '-' ∉ (foldAscii b).toList ∧
      foldAscii b ≠ indexName := by
  have hover := h.over_of_isGroup (index_of_mem_placeAll habove).1 hmodule.group
  have hparent := parent_ne_none_of_below habove hmodule.below
  have hkey : site.forest.fileKey? q.index = some (foldAscii b) := by
    refine fileKey?_of_takes (fun c hc => isPlain_of_category hover hc hparent) (fun c hc => ?_)
      hover.apart hparent hq hb
    obtain ⟨key, hkey, hdash, -⟩ := hover.plain c hc
    exact ⟨key, hkey, hdash⟩
  obtain ⟨key, hkey', hplain⟩ := hover.plain _ (index_of_mem_placeAll hq).1
  obtain rfl := Option.some.inj (hkey.symm.trans hkey')
  exact ⟨hkey, hplain⟩

/-! ## Several modules -/

/-- With several modules the roots are alone in the top directory. -/
theorem Row.eq_roots_of_several (h : Row site depth scope siblings)
    (hmany : site.config.multipleModules = true) (hempty : scope.directory = "") :
    scope = rootScope ∧ siblings = site.forest.rootList := by
  cases h.topRow hempty with
  | roots => exact ⟨rfl, rfl⟩
  | categories hsingle =>
    rw [hmany] at hsingle
    cases hsingle

/-- Modules with directories of the same name are the same. -/
theorem OverModule.eq_of_directory {inner' : Scope} (hmany : site.config.multipleModules = true)
    (hp : p ∈ site.placeAll rootScope [] site.forest.rootList)
    (hq : q ∈ site.placeAll rootScope [] site.forest.rootList) (h : OverModule site rootScope p inner)
    (h' : OverModule site rootScope q inner')
    (hdirectory : foldAscii inner.directory = foldAscii inner'.directory) : p = q := by
  obtain ⟨a, ha⟩ := h.named hmany
  obtain ⟨b, hb⟩ := h'.named hmany
  rw [ha.directory h.below, hb.directory h'.below] at hdirectory
  have hnames := foldAscii_directory_inj orderly_rootScope.isDirectory orderly_rootScope.isDirectory
    (chars_of_takes orderly_rootScope hp ha) (chars_of_takes orderly_rootScope hq hb) "/" hdirectory
  exact eq_of_siblings orderly_rootScope hp hq ha hb hnames.2

/-- **With several modules all names differ that have to.** -/
theorem clear_of_several (h : site.forest.Headed guides heads)
    (hmany : site.config.multipleModules = true) : Clear site := by
  have htop : TakenOnce site rootScope site.forest.rootList := by
    intro depth scope' siblings' p q a b hrow' hdirectory hp hq ha hb hnames
    obtain ⟨rfl, rfl⟩ := hrow'.eq_roots_of_several hmany (foldAscii_empty_iff.1 hdirectory.symm)
    exact eq_of_siblings orderly_rootScope hp hq ha hb hnames
  refine ⟨?_, ?_, ?_⟩
  · intro depth depth' scope scope' siblings siblings' p q a b hrow hrow' hd hd' hp hq ha hb hnames
    obtain ⟨rfl, rfl⟩ := hrow.eq_roots_of_several hmany hd
    obtain ⟨rfl, rfl⟩ := hrow'.eq_roots_of_several hmany hd'
    exact eq_of_siblings orderly_rootScope hp hq ha hb hnames
  · intro depth depth' scope scope' siblings siblings' p q inner b hrow hrow' hp hq hmodule hdirectory hb
    obtain ⟨rfl, rfl⟩ := hrow.eq_roots hmodule.root
    obtain ⟨name, htakes⟩ := hmodule.named hmany
    obtain ⟨rfl, rfl⟩ := htop.eq_below hrow hp hmodule.below (ne_of_takes htakes hmodule.below) hrow'
      hdirectory
    exact (category_takes h hp hmodule hq hb).2.2
  · intro depth depth' scope scope' siblings siblings' p q inner inner' hrow hrow' hp hq hmodule hmodule'
      hdirectory
    obtain ⟨rfl, rfl⟩ := hrow.eq_roots hmodule.root
    obtain ⟨rfl, rfl⟩ := hrow'.eq_roots hmodule'.root
    exact hmodule.eq_of_directory hmany hp hq hmodule' hdirectory

/-! ## One module -/

/-- No two pages have the same address up to case. -/
def Differ (folding : CaseFolding) (site : Site) : Prop :=
  ∀ p ∈ site.placements, ∀ q ∈ site.placements, p.location.isPage = true → q.location.isPage = true →
    folding.fold p.location.address = folding.fold q.location.address → p = q

theorem exists_root_placement (hrooted : site.forest.Rooted) {r : Nat} (hr : r ∈ site.forest.rootList) :
    ∃ p ∈ site.placeAll rootScope [] site.forest.rootList, p.index = r := by
  rw [← map_index_placeAll (fun i hi => hrooted.exists_decl (.start hi)) rootScope []] at hr
  exact List.mem_map.1 hr

/-- The group over a single module is the index page of the top directory. -/
theorem exists_overModule (hrooted : site.forest.Rooted)
    (hsingle : site.config.multipleModules = false) {r : Nat} (hr : r ∈ site.forest.rootList)
    (hgroup : site.forest.isGroup r = true) :
    ∃ p ∈ site.placeAll rootScope [] site.forest.rootList, p.index = r ∧
      ∃ inner, OverModule site rootScope p inner := by
  obtain ⟨p, hp, rfl⟩ := exists_root_placement hrooted hr
  have hpage : p.location.isPage = true := by
    obtain ⟨used', next, hplaced⟩ := placedAs_of_mem_placeAll hp
    generalize p.index = j at hplaced
    cases hplaced with
    | overModule => rfl
    | asPage => rfl
    | onPage _ hpage => simp [isPage, rootScope] at hpage
  refine ⟨p, hp, rfl, (page_cases orderly_rootScope hp hpage).resolve_left ?_⟩
  rintro ⟨name, htakes, -⟩
  rw [(plain_of_takes hp htakes (.inr hsingle)).1 rfl] at hgroup
  cases hgroup

/-- Pages in one directory whose names agree up to case have addresses that do. -/
theorem fold_page_congr (folding : CaseFolding) {directory : String} (hascii : IsAscii directory)
    (ha : ∀ c ∈ a.toList, isFileChar c = true) (hb : ∀ c ∈ b.toList, isFileChar c = true)
    (h : foldAscii a = foldAscii b) :
    folding.fold (site.rooted (directory ++ a ++ ".html")) =
      folding.fold (site.rooted (directory ++ b ++ ".html")) := by
  have hending : IsAscii ".html" := by decide
  rw [rooted_eq, rooted_eq _ (directory ++ b ++ ".html"), folding.fold_append _ (directory ++ a ++ ".html"),
    folding.fold_append _ (directory ++ b ++ ".html"), List.append_cancel_left_eq, folding.fold_eq_iff
      ((hascii.append (isAscii_of_isFileChar ha)).append hending)
      ((hascii.append (isAscii_of_isFileChar hb)).append hending)]
  rw [foldAscii_append, foldAscii_append directory, h, ← foldAscii_append, ← foldAscii_append]

/-- There is one group over a module, hence one row of categories. -/
theorem OverModule.eq_of_clearTop {inner' : Scope} (hrooted : site.forest.Rooted)
    (hclear : site.forest.ClearTop) (hp : p ∈ site.placeAll rootScope [] site.forest.rootList)
    (hq : q ∈ site.placeAll rootScope [] site.forest.rootList) (h : OverModule site rootScope p inner)
    (h' : OverModule site rootScope q inner') : p = q := by
  have hindex := hclear.group _ (index_of_mem_placeAll hp).1 _ (index_of_mem_placeAll hq).1 h.group h'.group
  exact eq_of_sibling_index hrooted.onePlace.roots_nodup (fun i hi => hrooted.exists_decl (.start hi)) hp hq
    hindex

section Single

variable (hrooted : site.forest.Rooted) (h : site.forest.Headed guides heads)
  (hsingle : site.config.multipleModules = false)

include hsingle h

/-- A root that takes a name is a guide. -/
theorem guide_takes (hp : p ∈ site.placeAll rootScope [] site.forest.rootList)
    (ha : Takes rootScope p a) : site.forest.isGuide p.index = true ∧
      ('-' ∉ (foldAscii a).toList → site.forest.fileKey? p.index = some (foldAscii a)) := by
  obtain ⟨hgroup, -, -, hkey⟩ := plain_of_takes hp ha (.inr hsingle)
  refine ⟨?_, hkey⟩
  rcases h.guide_or_over (index_of_mem_placeAll hp).1 with hguide | hover
  · exact hguide.2
  · exact absurd ((hgroup rfl).symm.trans hover.group) Bool.false_ne_true

/-- No guide takes the name of a category, if none asks for it. -/
theorem guide_ne_category (hclear : site.forest.ClearTop)
    (habove : above ∈ site.placeAll rootScope [] site.forest.rootList)
    (hmodule : OverModule site rootScope above inner)
    (hp : p ∈ site.placeAll rootScope [] site.forest.rootList)
    (hq : q ∈ site.placeAll inner [] (site.forest.childrenOf above.index)) (ha : Takes rootScope p a)
    (hb : Takes inner q b) : foldAscii a ≠ foldAscii b := by
  intro heq
  obtain ⟨hkey, hdash, -⟩ := category_takes h habove hmodule hq hb
  obtain ⟨hguide, hkey'⟩ := guide_takes h hsingle hp ha
  refine hclear.category _ (index_of_mem_placeAll hp).1 _ (index_of_mem_placeAll habove).1 hguide
    hmodule.group _ (index_of_mem_placeAll hq).1 ?_
  rw [hkey, hkey' (heq ▸ hdash), heq]

/-- What a guide asks for is taken by the page of a root. -/
theorem exists_guide_page {g : Nat} {key : String} (hg : g ∈ site.forest.rootList)
    (hguide : site.forest.isGuide g = true) (hkey : site.forest.fileKey? g = some key) :
    ∃ p ∈ site.placeAll rootScope [] site.forest.rootList, p.location.isPage = true ∧
      ∃ name, Takes rootScope p name ∧ foldAscii name = key ∧
        p.location.address = site.rooted (rootScope.directory ++ name ++ ".html") := by
  have hmem : g ∈ guides := by
    rcases h.guide_or_over hg with hmem | hover
    · exact hmem.1
    · exact absurd ((not_isGroup_of_isGuide hguide).symm.trans hover.group) Bool.false_ne_true
  rw [h.rootList]
  exact exists_page (fun i hi => isPlain_of_guide (h.guide i hi)) hmem hkey heads (.inr hsingle)

include hrooted

/-- **With one module the names in the top directory differ if they are asked for only once.** -/
theorem clear_of_single (hclear : site.forest.ClearTop) : Clear site := by
  refine ⟨?_, ?_, ?_⟩
  · intro depth depth' scope scope' siblings siblings' p q a b hrow hrow' hd hd' hp hq ha hb hnames
    cases hrow.topRow hd with
    | roots =>
      cases hrow'.topRow hd' with
      | roots => exact eq_of_siblings hrow.orderly hp hq ha hb hnames
      | categories _ habove hmodule =>
        exact absurd hnames (guide_ne_category h hsingle hclear habove hmodule hp hq ha hb)
    | categories _ habove hmodule =>
      cases hrow'.topRow hd' with
      | roots => exact absurd hnames.symm (guide_ne_category h hsingle hclear habove hmodule hq hp hb ha)
      | categories _ habove' hmodule' =>
        obtain rfl := hmodule.eq_of_clearTop hrooted hclear habove habove' hmodule'
        obtain rfl := Option.some.inj (hmodule.below.symm.trans hmodule'.below)
        exact eq_of_siblings hrow.orderly hp hq ha hb hnames
  · intro depth depth' scope scope' siblings siblings' p q inner b hrow hrow' hp hq hmodule hdirectory hb
    rw [hmodule.bare hsingle] at hdirectory
    cases hrow'.topRow (foldAscii_empty_iff.1 hdirectory.symm) with
    | roots =>
      intro hname
      obtain ⟨hisGuide, hkey⟩ := guide_takes h hsingle hq hb
      rw [hname] at hkey
      exact hclear.index _ (index_of_mem_placeAll hq).1 _ (hmodule.mem_roots hrow hp).2 hisGuide
        hmodule.group (hkey (by decide +kernel))
    | categories _ habove hmodule' => exact (category_takes h habove hmodule' hq hb).2.2
  · intro depth depth' scope scope' siblings siblings' p q inner inner' hrow hrow' hp hq hmodule hmodule' _
    obtain ⟨rfl, rfl⟩ := hrow.eq_roots hmodule.root
    obtain ⟨rfl, rfl⟩ := hrow'.eq_roots hmodule'.root
    exact hmodule.eq_of_clearTop hrooted hclear hp hq hmodule'

/-- **Pages that differ ask for different names in the top directory.** -/
theorem clearTop_of_differ {folding : CaseFolding} (hdiffer : Differ folding site) :
    site.forest.ClearTop := by
  have hplaced : ∀ {p}, p ∈ site.placeAll rootScope [] site.forest.rootList → p ∈ site.placements :=
    fun hp => (mem_placements_iff hrooted).2 ⟨0, rootScope, site.forest.rootList, .roots, hp⟩
  refine ⟨?_, ?_, ?_⟩
  · intro r hr r' hr' hgroup hgroup'
    obtain ⟨p, hp, rfl, inner, hmodule⟩ := exists_overModule hrooted hsingle hr hgroup
    obtain ⟨q, hq, rfl, inner', hmodule'⟩ := exists_overModule hrooted hsingle hr' hgroup'
    have heq : p.location.address = q.location.address := by
      rw [hmodule.address, hmodule'.address, hmodule.bare hsingle, hmodule'.bare hsingle]
    rw [hdiffer p (hplaced hp) q (hplaced hq) (isPage_of_below hp hmodule.below)
      (isPage_of_below hq hmodule'.below) (by rw [heq])]
  · intro g hg r hr hguide hgroup hkey
    obtain ⟨p, hp, rfl, inner, hmodule⟩ := exists_overModule hrooted hsingle hr hgroup
    obtain ⟨q, hq, hpage, name, htakes, hname, haddress⟩ := exists_guide_page h hsingle hg hguide hkey
    have hchars := chars_of_takes orderly_rootScope hq htakes
    obtain rfl := hdiffer p (hplaced hp) q (hplaced hq) (isPage_of_below hp hmodule.below) hpage (by
      rw [hmodule.address, hmodule.bare hsingle, haddress]
      exact fold_page_congr folding orderly_rootScope.isAscii indexName_chars hchars
        (foldAscii_indexName.trans hname.symm))
    exact ne_of_takes htakes hmodule.below (hmodule.bare hsingle)
  · intro g hg r hr hguide hgroup c hc hkeys
    obtain ⟨above, habove, rfl, inner, hmodule⟩ := exists_overModule hrooted hsingle hr hgroup
    have hover := h.over_of_isGroup hr hgroup
    have hparent := parent_ne_none_of_below habove hmodule.below
    have hrow : Row site 1 inner (site.forest.childrenOf above.index) :=
      .children .roots habove hmodule.below
    obtain ⟨key, hkey, -⟩ := hover.plain c hc
    obtain ⟨p, hp, hpage, a, ha, hname, haddress⟩ := exists_guide_page h hsingle hg hguide (hkeys.trans hkey)
    obtain ⟨q, hq, hpage', b, hb, hname', haddress'⟩ := exists_page
      (fun i hi => isPlain_of_category hover hi hparent) hc hkey [] (.inl hparent)
    rw [List.append_nil] at hq
    obtain rfl := hdiffer p (hplaced hp) q ((mem_placements_iff hrooted).2 ⟨_, _, _, hrow, hq⟩) hpage
      hpage' (by
        rw [haddress, haddress', hmodule.bare hsingle]
        exact fold_page_congr folding orderly_rootScope.isAscii
          (chars_of_takes orderly_rootScope hp ha) (chars_of_takes hrow.orderly hq hb)
          (hname.trans hname'.symm))
    exact hrooted.onePlace.root_free (index_of_mem_placeAll hp).1 (index_of_mem_placeAll hq).1

end Single

/-- **Pages differ if the names do that have to.** -/
theorem Clear.differ (h : Clear site) (hrooted : site.forest.Rooted) (folding : CaseFolding) :
    Differ folding site := by
  intro p hp q hq hpage hpage' haddress
  obtain ⟨depth, scope, siblings, hrow, hp⟩ := (mem_placements_iff hrooted).1 hp
  obtain ⟨depth', scope', siblings', hrow', hq⟩ := (mem_placements_iff hrooted).1 hq
  exact h.eq_of_address hrow hrow' hp hq hpage hpage' folding haddress

end Pages.Site

/-! ## Whole documentations -/

namespace Documentation

variable {config : Config} {records : List Record} {documentation : Documentation}
  {folding : CaseFolding}

/-- What the nodes of a documentation are placed by. -/
def site (documentation : Documentation) : Pages.Site :=
  ⟨documentation.forest, documentation.config, pluralize⟩

/-- No two pages have the same address, whatever the case of their letters. -/
def PagesDiffer (folding : CaseFolding) (documentation : Documentation) : Prop :=
  ∀ i j here there, (i, here) ∈ documentation.locations → (j, there) ∈ documentation.locations →
    here.isPage = true → there.isPage = true → i ≠ j →
      folding.fold here.address ≠ folding.fold there.address

theorem built_of_ofRecords (h : (ofRecords config records).outcome = .ok documentation) :
    (∃ loaded, Built config pluralize records loaded documentation.forest) ∧
      documentation.config = config ∧ documentation.locations = documentation.site.located := by
  simp only [ofRecords, Logged.outcome_bind, Outcome.bind_eq_ok] at h
  obtain ⟨forest, hforest, located, hlocated, -, -, h⟩ := h
  obtain rfl := Except.ok.inj h
  exact ⟨built_of_build hforest, rfl, Pages.Site.eq_located hlocated⟩

theorem pagesDiffer_iff (hrooted : documentation.forest.Rooted)
    (hlocated : documentation.locations = documentation.site.located) :
    documentation.PagesDiffer folding ↔ Pages.Site.Differ folding documentation.site := by
  have hmem : ∀ {i location}, (i, location) ∈ documentation.locations ↔
      ∃ p ∈ documentation.site.placements, p.index = i ∧ p.location = location := by
    intro i location
    rw [hlocated]
    exact Pages.Site.mem_located_iff hrooted
  constructor
  · intro hdiffer p hp q hq hpage hpage' haddress
    by_contra hne
    refine hdiffer p.index q.index _ _ (hmem.2 ⟨p, hp, rfl, rfl⟩) (hmem.2 ⟨q, hq, rfl, rfl⟩) hpage hpage'
      (fun hindex => hne ?_) haddress
    exact Pages.Site.eq_of_index_eq hrooted hp hq hindex
  · rintro hdiffer i j _ _ hi hj hpage hpage' hne haddress
    obtain ⟨p, hp, rfl, rfl⟩ := hmem.1 hi
    obtain ⟨q, hq, rfl, rfl⟩ := hmem.1 hj
    exact hne (congrArg _ (hdiffer p hp q hq hpage hpage' haddress))

/-- **With several modules no two pages have the same address**, whatever the case of their letters. -/
theorem ofRecords_pages_differ (folding : CaseFolding) (hmany : 2 ≤ config.modules.length)
    (h : (ofRecords config records).outcome = .ok documentation) : documentation.PagesDiffer folding := by
  obtain ⟨⟨loaded, hbuilt⟩, rfl, hlocated⟩ := built_of_ofRecords h
  obtain ⟨guides, heads, hheaded⟩ := hbuilt.headed
  have hmodules : documentation.site.config.multipleModules = true := decide_eq_true hmany
  have hclear : Pages.Site.Clear documentation.site := Pages.Site.clear_of_several hheaded hmodules
  exact (pagesDiffer_iff hbuilt.rooted hlocated).2 (hclear.differ hbuilt.rooted folding)

/-- A guide, and declarations in two modules, with names that differ in case at most. -/
def kitRecords : List Record :=
  [Forest.guideRecord "kit" .null, Forest.moduleRecord "struct" "Index" "Kit",
   Forest.moduleRecord "struct" "index" "Kit", Forest.moduleRecord "class" "Kit" "KIT"]

/-- The modules have directories with other names than the guide and each other. -/
theorem ofRecords_pages_differ_kits : ∃ (config : Config) (documentation : Documentation),
    2 ≤ config.modules.length ∧ (ofRecords config kitRecords).outcome = .ok documentation ∧
      documentation.locations.map (fun entry => (entry.1, entry.2.address)) =
        [(0, "docs/kit.html"), (1, "docs/Kit-2/Structs/Index.html"), (2, "docs/Kit-2/Structs/index-2.html"),
         (3, "docs/KIT-3/Classes/Kit.html"), (4, "docs/Kit-2/Structs.html"), (5, "docs/Kit-2/index.html"),
         (6, "docs/KIT-3/Classes.html"), (7, "docs/KIT-3/index.html")] ∧
        ∀ folding, documentation.PagesDiffer folding := by
  let config : Config := { modules := ["Kit", "KIT"], separateGlobals := true, addressRoot := "docs" }
  obtain ⟨documentation, hrun, haddresses⟩ := Outcome.exists_ok_of_map
    (o := (ofRecords config kitRecords).outcome)
    (f := fun documentation => documentation.locations.map fun entry => (entry.1, entry.2.address))
    (b := [(0, "docs/kit.html"), (1, "docs/Kit-2/Structs/Index.html"), (2, "docs/Kit-2/Structs/index-2.html"),
      (3, "docs/KIT-3/Classes/Kit.html"), (4, "docs/Kit-2/Structs.html"), (5, "docs/Kit-2/index.html"),
      (6, "docs/KIT-3/Classes.html"), (7, "docs/KIT-3/index.html")]) (by decide +kernel)
  have hmany : 2 ≤ config.modules.length := Nat.le_refl 2
  exact ⟨config, documentation, hmany, hrun, haddresses,
    fun folding => ofRecords_pages_differ folding hmany hrun⟩

/-- **With one module, or none, pages have different addresses exactly if nobody asks twice for a name in
the top directory.** -/
theorem ofRecords_pages_differ_iff (folding : CaseFolding) (hfew : config.modules.length ≤ 1)
    (h : (ofRecords config records).outcome = .ok documentation) :
    documentation.PagesDiffer folding ↔ documentation.forest.ClearTop := by
  obtain ⟨⟨loaded, hbuilt⟩, rfl, hlocated⟩ := built_of_ofRecords h
  obtain ⟨guides, heads, hheaded⟩ := hbuilt.headed
  have hmodules : documentation.site.config.multipleModules = false :=
    decide_eq_false (Nat.not_lt.2 hfew)
  have hrooted : documentation.site.forest.Rooted := hbuilt.rooted
  rw [pagesDiffer_iff hrooted hlocated]
  exact ⟨fun hdiffer => Pages.Site.clearTop_of_differ hrooted hheaded hmodules hdiffer,
    fun hclear => (Pages.Site.clear_of_single hrooted hheaded hmodules hclear).differ hrooted folding⟩

/-- Two guides and a structure, with names that nobody else asks for. -/
def clearRecords : List Record :=
  [Forest.guideRecord "Read me" .null, Forest.guideRecord "READ ME" .null,
   Forest.moduleRecord "struct" "Index" "M"]

/-- The second guide has a number in its name, and all pages differ. -/
theorem ofRecords_pages_differ_guides : ∃ (config : Config) (documentation : Documentation),
    config.modules.length ≤ 1 ∧ (ofRecords config clearRecords).outcome = .ok documentation ∧
      documentation.locations.map (fun entry => (entry.1, entry.2.address)) =
        [(0, "Read%20me.html"), (1, "READ%20ME-2.html"), (2, "Structs.html#/index"), (3, "Structs.html"),
         (4, "index.html")] ∧
        documentation.forest.ClearTop ∧ ∀ folding, documentation.PagesDiffer folding := by
  let config : Config := { modules := ["M"] }
  obtain ⟨documentation, hrun, hvalues⟩ := Outcome.exists_ok_of_map
    (o := (ofRecords config clearRecords).outcome)
    (f := fun documentation => (documentation.locations.map fun entry => (entry.1, entry.2.address),
      decide documentation.forest.ClearTop))
    (b := ([(0, "Read%20me.html"), (1, "READ%20ME-2.html"), (2, "Structs.html#/index"), (3, "Structs.html"),
      (4, "index.html")], true)) (by decide +kernel)
  obtain ⟨haddresses, hclear⟩ := Prod.mk.inj hvalues
  have hclear := of_decide_eq_true hclear
  have hfew : config.modules.length ≤ 1 := Nat.le_refl 1
  exact ⟨config, documentation, hfew, hrun, haddresses, hclear,
    fun folding => (ofRecords_pages_differ_iff folding hfew hrun).2 hclear⟩

/-- A guide with the name of the index page, and a structure. -/
def indexRecords : List Record :=
  [Forest.guideRecord "index" .null, Forest.moduleRecord "struct" "S" "M"]

/-- **A guide named `index` and the page over the only module have the same address.** -/
theorem ofRecords_repeats_index : ∃ documentation,
    (ofRecords { modules := ["M"] } indexRecords).outcome = .ok documentation ∧
      ∀ folding, ¬documentation.PagesDiffer folding := by
  obtain ⟨documentation, hrun, hpages⟩ := Outcome.exists_ok_of_map
    (o := (ofRecords { modules := ["M"] } indexRecords).outcome)
    (f := fun documentation => documentation.locations.map fun entry =>
      (entry.1, entry.2.address, entry.2.isPage))
    (b := [(0, "index.html", true), (1, "Structs.html#/s", false), (2, "Structs.html", true),
      (3, "index.html", true)]) (by decide +kernel)
  have hlocated : ∀ i, (i, "index.html", true) ∈ documentation.locations.map (fun entry =>
      (entry.1, entry.2.address, entry.2.isPage)) → ∃ location, (i, location) ∈ documentation.locations ∧
        location.address = "index.html" ∧ location.isPage = true := by
    intro i hi
    obtain ⟨⟨j, location⟩, hlocation, heq⟩ := List.mem_map.1 hi
    simp only [Prod.mk.injEq] at heq
    exact ⟨location, heq.1 ▸ hlocation, heq.2⟩
  rw [hpages] at hlocated
  obtain ⟨here, hhere, haddress, hpage⟩ := hlocated 0 (by decide)
  obtain ⟨there, hthere, haddress', hpage'⟩ := hlocated 3 (by decide)
  refine ⟨documentation, hrun, fun folding hdiffer => ?_⟩
  exact hdiffer 0 3 here there hhere hthere hpage hpage' (by decide) (by rw [haddress, haddress'])

end Documentation
end DocForest
