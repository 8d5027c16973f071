import DocForest.Proofs.Assembling
import DocForest.Proofs.Locating

/-!
# Where siblings are placed

The placements are made row by row: the roots first, and the children of every placed node in a scope
of their own.  A node without a page has no children, so that **the rows miss no node of the walk**.
What holds of all placements is shown along the rows.

## What is here

* `Site.PlacedAs`, `Site.placedAs_of_place` — the three ways to place a node: as the root over a module,
  as a page, and on the page of its parent.
* `Forest.Rooted` — what is known of the roots and of all nodes below them; `Built.rooted`.
* `Site.Row` — the siblings that are placed in one scope; `Site.mem_placements_iff` — **the placements
  are those of the rows**.
* `Site.map_index_placements` — **the placed nodes are those of the walk**, in its order.
* `Site.mem_located_iff` — the locations are those of the placements.
-/

set_option autoImplicit false

namespace DocForest

open Forest

/-! ## The finished forest -/

namespace Forest

variable {config : Config} {inflect : String → String} {records : List Record} {forest : Forest} {i : Nat}

/-- Nobody has two places below the roots, all nodes there exist, and children know their parents. -/
structure Rooted (forest : Forest) : Prop where
  onePlace : OnePlace forest.childrenOf forest.rootList
  lt_size : ∀ {i}, Below forest.childrenOf forest.rootList i → i < forest.size
  mem_childrenOf_iff : ∀ {p c}, c ∈ forest.childrenOf p ↔ forest.docsParent? c = some p

/-- **The documentation is a forest of its own.** -/
theorem Built.rooted {loaded : Loaded} (h : Built config inflect records loaded forest) :
    forest.Rooted where
  onePlace := h.frozen.onePlace (arranged_grown h.prepared inflect).tidy
  lt_size hi := by
    have htidy := (arranged_grown h.prepared inflect).tidy
    rw [size_frozen h.frozen]
    exact htidy.within.below ((h.frozen.below_iff htidy).1 hi)
  mem_childrenOf_iff := h.frozen.mem_childrenOf_iff

namespace Rooted

theorem mem_walk_iff (h : forest.Rooted) :
    i ∈ forest.walk ↔ Below forest.childrenOf forest.rootList i :=
  h.onePlace.acyclic.mem_preorder_iff_of_lt fun _ => h.lt_size

theorem nodup_walk (h : forest.Rooted) : forest.walk.Nodup :=
  h.onePlace.nodup_preorder _

theorem exists_decl (h : forest.Rooted) (hi : Below forest.childrenOf forest.rootList i) :
    ∃ decl, forest.decl? i = some decl :=
  exists_decl? (h.lt_size hi)

end Rooted
end Forest

namespace Pages.Site

variable {site : Site} {scope inner : Scope} {used : List String} {siblings : List Nat}
  {placement above : Placement} {i depth : Nat} {location : Location}

/-! ## One node -/

/-- What stands in front of all addresses does not depend on their ends. -/
theorem rooted_append (site : Site) (address rest : String) :
    site.rooted (address ++ rest) = site.rooted address ++ rest := by
  rw [rooted, rooted]
  split
  · rfl
  · rw [String.append_assoc, String.append_assoc, String.append_assoc]

/-- The ways to place a node in a scope where some names are used, and the names that are used behind
it. -/
inductive PlacedAs (site : Site) (scope : Scope) (used : List String) (i : Nat) :
    Placement → List String → Prop
  | overModule {decl : Declaration} (hdecl : site.forest.decl? i = some decl)
      (hroot : scope.parent = none) (hgroup : decl.kind.isOverview = true) :
      PlacedAs site scope used i (site.placeModule used i).1
        (Text.foldAscii (site.placeModule used i).2 :: used)
  | asPage {decl : Declaration} (hdecl : site.forest.decl? i = some decl)
      (hother : (scope.parent.isNone && decl.kind.isOverview) = false)
      (hpage : site.isPage scope i = true) :
      PlacedAs site scope used i (site.placePage scope used i decl).1
        (Text.foldAscii (site.placePage scope used i decl).2 :: used)
  | onPage {decl : Declaration} (hdecl : site.forest.decl? i = some decl)
      (hpage : site.isPage scope i = false) :
      PlacedAs site scope used i (site.placeMember scope i decl) used

theorem placedAs_of_place (h : (site.place scope used i).1 = some placement) :
    PlacedAs site scope used i placement (site.place scope used i).2 := by
  rw [place] at h ⊢
  cases hdecl : site.forest.decl? i with
  | none =>
    rw [hdecl] at h
    cases h
  | some decl =>
    rw [hdecl] at h
    dsimp only at h ⊢
    split at h
    · next hmodule =>
      obtain rfl := Option.some.inj h
      rw [if_pos hmodule]
      rw [Bool.and_eq_true, Option.isNone_iff_eq_none] at hmodule
      exact .overModule hdecl hmodule.1 hmodule.2
    · next hother =>
      rw [if_neg hother]
      split at h
      · next hpage =>
        obtain rfl := Option.some.inj h
        rw [if_pos hpage]
        exact .asPage hdecl (Bool.not_eq_true _ ▸ hother) hpage
      · next hpage =>
        obtain rfl := Option.some.inj h
        rw [if_neg hpage]
        exact .onPage hdecl (Bool.not_eq_true _ ▸ hpage)

theorem exists_place {decl : Declaration} (hdecl : site.forest.decl? i = some decl) (scope : Scope)
    (used : List String) : ∃ placement, (site.place scope used i).1 = some placement := by
  rw [place, hdecl]
  dsimp only
  split
  · exact ⟨_, rfl⟩
  · split
    · exact ⟨_, rfl⟩
    · exact ⟨_, rfl⟩

theorem placeAll_cons (site : Site) (scope : Scope) (used : List String) (i : Nat) (rest : List Nat) :
    site.placeAll scope used (i :: rest) = (site.place scope used i).1.toList ++
      site.placeAll scope (site.place scope used i).2 rest := rfl

/-- Every placement among siblings is that of one of them, behind the names used so far. -/
theorem placedAs_of_mem_placeAll (h : placement ∈ site.placeAll scope used siblings) :
    ∃ used' next, PlacedAs site scope used' placement.index placement next := by
  induction siblings generalizing used with
  | nil => cases h
  | cons i rest ih =>
    rw [placeAll_cons, List.mem_append, Option.mem_toList] at h
    rcases h with h | h
    · obtain ⟨rfl, -⟩ := index_of_place h
      exact ⟨used, _, placedAs_of_place h⟩
    · exact ih h

/-- **A node without a page has no children.** -/
theorem childrenOf_of_below (h : placement ∈ site.placeAll scope used siblings)
    (hbelow : placement.below = none) : site.forest.childrenOf placement.index = [] := by
  obtain ⟨used', next, hplaced⟩ := placedAs_of_mem_placeAll h
  generalize placement.index = i at hplaced
  cases hplaced with
  | overModule => cases hbelow
  | asPage => cases hbelow
  | onPage _ hpage =>
    simp only [isPage, rendersAsPage, Bool.or_eq_false_iff, Bool.not_eq_false',
      List.isEmpty_iff] at hpage
    exact hpage.1.1.1

theorem parent_ne_none_of_below (h : placement ∈ site.placeAll scope used siblings)
    (hbelow : placement.below = some inner) : inner.parent ≠ none := by
  obtain ⟨used', next, hplaced⟩ := placedAs_of_mem_placeAll h
  generalize placement.index = j at hplaced
  cases hplaced with
  | overModule => exact Option.some.inj hbelow ▸ Option.some_ne_none _
  | asPage => exact Option.some.inj hbelow ▸ Option.some_ne_none _
  | onPage => cases hbelow

/-- Siblings that exist are all placed. -/
theorem map_index_placeAll (h : ∀ i ∈ siblings, ∃ decl, site.forest.decl? i = some decl)
    (scope : Scope) (used : List String) :
    (site.placeAll scope used siblings).map (·.index) = siblings := by
  induction siblings generalizing used with
  | nil => rfl
  | cons i rest ih =>
    obtain ⟨⟨decl, hdecl⟩, hrest⟩ := List.forall_mem_cons.1 h
    obtain ⟨placement, hplace⟩ := exists_place hdecl scope used
    rw [placeAll_cons, List.map_append, ih hrest, hplace, Option.toList_some, List.map_singleton,
      (index_of_place hplace).1]
    rfl

/-! ## Rows -/

/-- The siblings that are placed in one scope, with the number of nodes above them. -/
inductive Row (site : Site) : Nat → Scope → List Nat → Prop
  | roots : Row site 0 rootScope site.forest.rootList
  | children {depth : Nat} {scope inner : Scope} {siblings : List Nat} {above : Placement}
      (hrow : Row site depth scope siblings) (habove : above ∈ site.placeAll scope [] siblings)
      (hbelow : above.below = some inner) :
      Row site (depth + 1) inner (site.forest.childrenOf above.index)

/-- The ways down from the siblings of a row go on from a way down to them. -/
theorem Row.exists_trail (h : Row site depth scope siblings) : ∃ up : List Nat, up.length = depth ∧
    ∀ i path, Trail site.forest.childrenOf siblings i path →
      Trail site.forest.childrenOf site.forest.rootList i (path ++ up) := by
  induction h with
  | roots => exact ⟨[], rfl, fun i path hpath => by rwa [List.append_nil]⟩
  | @children depth scope inner siblings above hrow habove hbelow ih =>
    obtain ⟨up, hup, htrail⟩ := ih
    refine ⟨above.index :: up, by rw [List.length_cons, hup], fun i path hpath => ?_⟩
    rw [List.append_cons]
    exact htrail i _ (hpath.extend (index_of_mem_placeAll habove).1)

theorem Row.depth_lt (h : Row site depth scope siblings) (hrooted : site.forest.Rooted)
    (hi : i ∈ siblings) : depth < site.forest.size := by
  obtain ⟨up, hup, htrail⟩ := h.exists_trail
  have hle := hrooted.onePlace.acyclic.length_trail_le (fun _ => hrooted.lt_size) (htrail i [i] (.start hi))
  rw [List.length_append, hup, List.length_singleton] at hle
  omega

theorem Row.locate_subset (h : Row site depth scope siblings) {left : Nat}
    (hleft : left + depth = site.forest.size) :
    site.locate left scope siblings ⊆ site.placements := by
  induction h generalizing left with
  | roots =>
    obtain rfl : left = site.forest.size := hleft
    exact List.Subset.refl _
  | @children depth scope inner siblings above hrow habove hbelow ih =>
    have hleft' : left + 1 + depth = site.forest.size := by omega
    refine List.Subset.trans ?_ (ih hleft')
    intro placement hplacement
    rw [locate, List.mem_flatMap]
    exact ⟨above, habove, List.mem_cons_of_mem _ (by rw [hbelow]; exact hplacement)⟩

theorem exists_row_of_mem_locate (h : Row site depth scope siblings) {left : Nat}
    (hplacement : placement ∈ site.locate left scope siblings) :
    ∃ depth scope siblings, Row site depth scope siblings ∧
      placement ∈ site.placeAll scope [] siblings := by
  induction left generalizing depth scope siblings with
  | zero => cases hplacement
  | succ left ih =>
    rw [locate, List.mem_flatMap] at hplacement
    obtain ⟨above, habove, hplacement⟩ := hplacement
    rcases List.mem_cons.1 hplacement with rfl | hplacement
    · exact ⟨depth, scope, siblings, h, habove⟩
    · split at hplacement
      · cases hplacement
      · next inner hbelow => exact ih (.children h habove hbelow) hplacement

/-- **The placements are those of all rows.** -/
theorem mem_placements_iff (hrooted : site.forest.Rooted) :
    placement ∈ site.placements ↔ ∃ depth scope siblings, Row site depth scope siblings ∧
      placement ∈ site.placeAll scope [] siblings := by
  refine ⟨exists_row_of_mem_locate .roots, ?_⟩
  rintro ⟨depth, scope, siblings, hrow, hplacement⟩
  have hlt := hrow.depth_lt hrooted (index_of_mem_placeAll hplacement).1
  obtain ⟨left, hleft⟩ : ∃ left, left + 1 + depth = site.forest.size :=
    ⟨site.forest.size - depth - 1, by omega⟩
  refine hrow.locate_subset hleft ?_
  rw [locate, List.mem_flatMap]
  exact ⟨placement, hplacement, List.mem_cons_self⟩

/-! ## The walk -/

/-- Siblings and all nodes below them are placed in the order of the walk. -/
theorem map_index_locate (h : ∀ i, Below site.forest.childrenOf siblings i →
    ∃ decl, site.forest.decl? i = some decl) :
    (site.locate depth scope siblings).map (·.index) =
      preorder site.forest.childrenOf depth siblings := by
  induction depth generalizing scope siblings with
  | zero => rfl
  | succ depth ih =>
    have hindices := map_index_placeAll (fun i hi => h i (.start hi)) scope []
    rw [locate, preorder, List.map_flatMap]
    conv_rhs => rw [← hindices, List.flatMap_map]
    refine List.flatMap_congr fun placement hplacement => ?_
    rw [List.map_cons]
    refine congrArg _ ?_
    split
    · next hbelow => rw [childrenOf_of_below hplacement hbelow, preorder_nil, List.map_nil]
    · refine ih fun i hi => h i ?_
      obtain ⟨path, hpath⟩ := below_iff_exists_trail.1 hi
      exact (hpath.extend (index_of_mem_placeAll hplacement).1).isBelow

/-- **The placed nodes are those of the walk.** -/
theorem map_index_placements (hrooted : site.forest.Rooted) :
    site.placements.map (·.index) = site.forest.walk :=
  map_index_locate fun _ => hrooted.exists_decl

theorem eq_of_index_eq (hrooted : site.forest.Rooted) {other : Placement}
    (h : placement ∈ site.placements) (h' : other ∈ site.placements)
    (hindex : placement.index = other.index) : placement = other := by
  have hnodup := hrooted.nodup_walk
  rw [← map_index_placements hrooted] at hnodup
  exact List.inj_on_of_nodup_map hnodup h h' hindex

/-- **The locations are those of the placements.** -/
theorem mem_located_iff (hrooted : site.forest.Rooted) :
    (i, location) ∈ site.located ↔
      ∃ placement ∈ site.placements, placement.index = i ∧ placement.location = location := by
  have hfind : ∀ {placement}, placement ∈ site.placements →
      location? site.placements placement.index = some placement.location := by
    intro placement hplacement
    cases hfound : site.placements.reverse.find? fun other => other.index = placement.index with
    | none =>
      have hall := List.find?_eq_none.1 hfound placement (List.mem_reverse.2 hplacement)
      simp at hall
    | some other =>
      have hother := List.mem_reverse.1 (List.mem_of_find?_eq_some hfound)
      have hindex : other.index = placement.index := by simpa using List.find?_some hfound
      rw [location?, hfound, Option.map_some, eq_of_index_eq hrooted hother hplacement hindex]
  rw [located, List.mem_filterMap]
  constructor
  · rintro ⟨j, -, hj⟩
    obtain ⟨found, hfound, heq⟩ := Option.map_eq_some_iff.1 hj
    obtain ⟨rfl, rfl⟩ := Prod.mk.inj heq
    obtain ⟨placement, hplacement, rfl⟩ := Option.map_eq_some_iff.1 hfound
    exact ⟨placement, List.mem_reverse.1 (List.mem_of_find?_eq_some hplacement),
      by simpa using List.find?_some hplacement, rfl⟩
  · rintro ⟨placement, hplacement, rfl, rfl⟩
    refine ⟨placement.index, List.mem_range.2 (index_lt_of_mem_locate hplacement), ?_⟩
    rw [hfind hplacement, Option.map_some]

end Pages.Site
end DocForest
