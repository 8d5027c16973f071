import DocForest.Pages.Location
import DocForest.Proofs.Regrouping

/-!
# Locations under new numbers

A node is located by its declaration, by the siblings in front of it and by the place of its parent.  So
**the same documentation has the same locations**, whatever other nodes there are that it does not show.

## What is here

* `Site.locate_of_le` — more levels than the documentation has do not matter.
* `Nested.checkedName_eq` — which nodes have a qualified name.
* `Placement.renumbered`, `SamePlaces.placements` — the same placements under new numbers.
* `Pages.SameLocations`, `SamePlaces.sameLocations` — the same locations, or the same failure;
  `SameLinks.locations` — in the same order, if the numbers keep it.
-/

set_option autoImplicit false

namespace DocForest

open Forest

variable {e : Nat → Nat} {part whole forest : Forest} {config : Config} {inflect : String → String} {i j : Nat}

/-! ## Levels -/

namespace Pages

/-- The placement of a node under a new number. -/
def Placement.renumbered (e : Nat → Nat) (placement : Placement) : Placement :=
  { placement with index := e placement.index }

namespace Site

variable {site : Site} {scope : Scope} {used : List String} {siblings : List Nat} {placement : Placement}

theorem index_of_place (h : (site.place scope used i).1 = some placement) :
    placement.index = i ∧ i < site.forest.size := by
  rw [place] at h
  split at h
  · cases h
  · next decl hdecl =>
    refine ⟨?_, lt_of_decl? hdecl⟩
    split at h
    · obtain rfl := Option.some.inj h
      rfl
    · split at h
      · obtain rfl := Option.some.inj h
        rfl
      · obtain rfl := Option.some.inj h
        rfl

theorem index_of_mem_placeAll (h : placement ∈ site.placeAll scope used siblings) :
    placement.index ∈ siblings ∧ placement.index < site.forest.size := by
  induction siblings generalizing used with
  | nil => cases h
  | cons i rest ih =>
    rw [placeAll, List.mem_append, Option.mem_toList] at h
    rcases h with h | h
    · obtain ⟨rfl, hlt⟩ := index_of_place h
      exact ⟨List.mem_cons_self, hlt⟩
    · obtain ⟨hmem, hlt⟩ := ih h
      exact ⟨List.mem_cons_of_mem _ hmem, hlt⟩

theorem index_lt_of_mem_locate {depth : Nat} (h : placement ∈ site.locate depth scope siblings) :
    placement.index < site.forest.size := by
  induction depth generalizing scope siblings with
  | zero => cases h
  | succ depth ih =>
    rw [locate, List.mem_flatMap] at h
    obtain ⟨first, hfirst, h⟩ := h
    rcases List.mem_cons.1 h with rfl | h
    · exact (index_of_mem_placeAll hfirst).2
    · split at h
      · cases h
      · exact ih h

/-- **More levels than there are below the siblings do not matter.** -/
theorem locate_of_le {depth depth' : Nat}
    (hshort : ∀ i path, Trail site.forest.childrenOf siblings i path → path.length ≤ depth)
    (hle : depth ≤ depth') : site.locate depth' scope siblings = site.locate depth scope siblings := by
  induction depth generalizing depth' scope siblings with
  | zero =>
    have hnil : siblings = [] := List.eq_nil_iff_forall_not_mem.2 fun i hi =>
      absurd (hshort i [i] (.start hi)) (by simp)
    subst hnil
    cases depth' <;> rfl
  | succ depth ih =>
    obtain ⟨more, rfl⟩ : ∃ more, depth' = more + 1 := ⟨depth' - 1, by omega⟩
    rw [locate, locate]
    refine List.flatMap_congr fun placement hplacement => congrArg _ ?_
    split
    · rfl
    · refine ih (fun i path htrail => ?_) (Nat.le_of_succ_le_succ hle)
      have hlong := hshort i _ (htrail.extend (index_of_mem_placeAll hplacement).1)
      rw [List.length_append, List.length_singleton] at hlong
      omega

/-- All locations, if nothing keeps a node from having one. -/
def located (site : Site) : List (Nat × Location) :=
  (List.range site.forest.size).filterMap fun i =>
    (location? site.placements i).map fun location => (i, location)

theorem mem_located {site : Site} {location : Location} :
    (i, location) ∈ site.located ↔
      i < site.forest.size ∧ location? site.placements i = some location := by
  simp only [located, List.mem_filterMap, List.mem_range, Option.map_eq_some_iff, Prod.mk.injEq]
  constructor
  · rintro ⟨j, hj, found, hfound, rfl, rfl⟩
    exact ⟨hj, hfound⟩
  · rintro ⟨hi, hlocation⟩
    exact ⟨i, hi, location, hlocation, rfl, rfl⟩

/-- **The locations are those of the placements, or the first of their faults.** -/
theorem outcome_locations (site : Site) :
    site.locations.outcome =
      (site.placements.forM fun placement => (site.renameEvents placement).map fun _ => ()).map
        fun _ => site.located := by
  have hstep : ∀ placement, (do
      let events ← Logged.ofExcept (site.renameEvents placement)
      Logged.reportAll events : Logged Unit).outcome =
        (site.renameEvents placement).map fun _ => () := by
    intro placement
    rw [Logged.outcome_bind, Logged.outcome_ofExcept]
    cases site.renameEvents placement <;> rfl
  rw [locations, Logged.outcome_bind, Logged.outcome_forM]
  simp only [hstep]
  cases site.placements.forM fun placement => (site.renameEvents placement).map fun _ => () <;> rfl

theorem eq_located {site : Site} {located : List (Nat × Location)}
    (h : site.locations.outcome = .ok located) : located = site.located := by
  rw [outcome_locations] at h
  cases hcheck : site.placements.forM fun placement => (site.renameEvents placement).map fun _ => () with
  | error failure =>
    rw [hcheck] at h
    cases h
  | ok =>
    rw [hcheck] at h
    exact (Except.ok.inj h).symm

theorem nodup_located (site : Site) : site.located.Nodup := by
  refine List.Nodup.filterMap (fun i j entry hi hj => ?_) List.nodup_range
  obtain ⟨_, -, rfl⟩ := Option.map_eq_some_iff.1 (Option.mem_def.1 hi)
  obtain ⟨_, -, heq⟩ := Option.map_eq_some_iff.1 (Option.mem_def.1 hj)
  exact (congrArg Prod.fst heq).symm

end Site

/-- **The same nodes have the same locations** under new numbers, in whatever order they are listed, or there
are none for the same reason. -/
def SameLocations (e : Nat → Nat) :
    Except Failure (List (Nat × Location)) → Except Failure (List (Nat × Location)) → Prop
  | .ok located, .ok located' => located'.Perm (located.map fun entry => (e entry.1, entry.2))
  | .error failure, .error failure' => failure' = failure
  | _, _ => False

end Pages

/-! ## Qualified names -/

namespace Forest

theorem Nested.checkedName_eq (h : forest.Nested) (hi : i < forest.size) :
    forest.checkedName i =
      if (forest.namespacePath i).all fun j => (forest.nameOf j).isText
      then .ok (forest.dotted (forest.namespacePath i)) else .error .notJoinable := by
  rw [checkedName, h.checkedPath_eq hi, Outcome.ok_bind]
  rfl

/-- **A node has the same qualified name.** -/
theorem Relabels.checkedName (h : Relabels e part whole) (hpart : part.Nested) (hwhole : whole.Nested)
    (hi : i < part.size) : whole.checkedName (e i) = part.checkedName i := by
  have htexts : (fun j => whole.nameTextOf (e j)) = part.nameTextOf := by
    funext j
    rw [nameTextOf, nameTextOf, h.nameOf]
  rw [hwhole.checkedName_eq (h.lt_iff.2 hi), hpart.checkedName_eq hi, h.namespacePath hpart hi,
    List.all_map, dotted, dotted, List.map_map]
  simp only [Function.comp_def, htexts, h.nameOf]

/-! ## Placements -/

section Placements

open Pages

namespace SamePlaces

variable (h : SamePlaces e part whole)

include h

theorem isPage (config : Config) (inflect : String → String) (scope : Scope) (i : Nat) :
    Site.isPage ⟨whole, config, inflect⟩ scope (e i) = Site.isPage ⟨part, config, inflect⟩ scope i := by
  have hguide : whole.isGuide (e i) = part.isGuide i := congrFun h.isGuide i
  rw [Site.isPage, Site.isPage, rendersAsPage, rendersAsPage, h.childrenOf, List.isEmpty_map, h.satisfies,
    hguide]

/-- **A node is placed in the same way.** -/
theorem place (config : Config) (inflect : String → String) (scope : Scope) (used : List String)
    (i : Nat) :
    Site.place ⟨whole, config, inflect⟩ scope used (e i) =
      (((Site.place ⟨part, config, inflect⟩ scope used i).1.map (Placement.renumbered e)),
        (Site.place ⟨part, config, inflect⟩ scope used i).2) := by
  rw [Site.place, Site.place, h.decl?, h.isPage]
  dsimp only
  cases part.decl? i with
  | none => rfl
  | some decl =>
    dsimp only
    split
    · rw [Site.placeModule, Site.placeModule]
      dsimp only
      rw [h.nameOf]
      rfl
    · split <;> rfl

theorem placeAll (config : Config) (inflect : String → String) (scope : Scope) (used : List String)
    (siblings : List Nat) :
    Site.placeAll ⟨whole, config, inflect⟩ scope used (siblings.map e) =
      (Site.placeAll ⟨part, config, inflect⟩ scope used siblings).map (Placement.renumbered e) := by
  induction siblings generalizing used with
  | nil => rfl
  | cons i rest ih =>
    rw [List.map_cons, Site.placeAll, Site.placeAll, h.place, List.map_append]
    dsimp only
    rw [ih]
    cases (Site.place ⟨part, config, inflect⟩ scope used i).1 <;> rfl

theorem locate (config : Config) (inflect : String → String) (depth : Nat) (scope : Scope)
    (siblings : List Nat) :
    Site.locate ⟨whole, config, inflect⟩ depth scope (siblings.map e) =
      (Site.locate ⟨part, config, inflect⟩ depth scope siblings).map (Placement.renumbered e) := by
  induction depth generalizing scope siblings with
  | zero => rfl
  | succ depth ih =>
    rw [Site.locate, Site.locate, h.placeAll, List.flatMap_map, List.map_flatMap]
    refine List.flatMap_congr fun placement _ => ?_
    rw [List.map_cons]
    refine congrArg _ ?_
    rw [Placement.renumbered]
    dsimp only
    split
    · rfl
    · rw [h.childrenOf, ih]

/-- **The same nodes are placed in the same way**, as none is deeper than there are nodes. -/
theorem placements (hplace : OnePlace part.childrenOf part.rootList)
    (hlt : ∀ i, Below part.childrenOf part.rootList i → i < part.size) (config : Config)
    (inflect : String → String) :
    Site.placements ⟨whole, config, inflect⟩ =
      (Site.placements ⟨part, config, inflect⟩).map (Placement.renumbered e) := by
  rw [Site.placements, Site.placements, h.rootList, h.locate]
  refine congrArg _ (Site.locate_of_le (fun i path htrail => ?_) h.size_le)
  exact hplace.acyclic.length_trail_le hlt htrail

omit h in
theorem location?_renumbered (he : Function.Injective e) (placements : List Placement) (i : Nat) :
    Site.location? (placements.map (Placement.renumbered e)) (e i) = Site.location? placements i := by
  rw [Site.location?, Site.location?, ← List.map_reverse, List.find?_map, Option.map_map]
  simp only [Function.comp_def, Placement.renumbered, he.eq_iff]

omit h in
theorem location?_others (placements : List Placement) (hj : ∀ i, e i ≠ j) :
    Site.location? (placements.map (Placement.renumbered e)) j = none := by
  rw [Site.location?, Option.map_eq_none_iff, List.find?_eq_none]
  intro placement hplacement heq
  obtain ⟨old, -, rfl⟩ := List.mem_map.1 (List.mem_reverse.1 hplacement)
  exact hj old.index (of_decide_eq_true heq)

/-- **Whether there are locations** is the same, and so is the failure if there are none. -/
theorem outcome_locations (hpart : part.Nested) (hwhole : whole.Nested)
    (hplace : OnePlace part.childrenOf part.rootList)
    (hlt : ∀ i, Below part.childrenOf part.rootList i → i < part.size) (config : Config)
    (inflect : String → String) :
    (Site.locations ⟨whole, config, inflect⟩).outcome =
      (Site.locations ⟨part, config, inflect⟩).outcome.map fun _ =>
        Site.located ⟨whole, config, inflect⟩ := by
  have hevents : ∀ placement ∈ Site.placements ⟨part, config, inflect⟩,
      Site.renameEvents ⟨whole, config, inflect⟩ (placement.renumbered e) =
        Site.renameEvents ⟨part, config, inflect⟩ placement := by
    intro placement hplacement
    have hi : placement.index < part.size := Site.index_lt_of_mem_locate hplacement
    have hname := h.checkedName hpart hwhole hi
    rw [Site.renameEvents, Site.renameEvents]
    dsimp only [Placement.renumbered]
    rw [hname]
  have hfaults : (Site.placements ⟨whole, config, inflect⟩).forM (fun placement =>
      (Site.renameEvents ⟨whole, config, inflect⟩ placement).map fun _ => ()) =
        (Site.placements ⟨part, config, inflect⟩).forM fun placement =>
          (Site.renameEvents ⟨part, config, inflect⟩ placement).map fun _ => () := by
    rw [h.placements hplace hlt]
    exact Outcome.forM_map_congr fun placement hplacement => by rw [hevents placement hplacement]
  rw [Site.outcome_locations, Site.outcome_locations, hfaults]
  cases (Site.placements ⟨part, config, inflect⟩).forM fun placement =>
    (Site.renameEvents ⟨part, config, inflect⟩ placement).map fun _ => () <;> rfl

theorem located_perm (hplace : OnePlace part.childrenOf part.rootList)
    (hlt : ∀ i, Below part.childrenOf part.rootList i → i < part.size) (config : Config)
    (inflect : String → String) :
    (Site.located ⟨whole, config, inflect⟩).Perm
      ((Site.located ⟨part, config, inflect⟩).map fun entry => (e entry.1, entry.2)) := by
  have hinjective : Function.Injective fun entry : Nat × Location => (e entry.1, entry.2) :=
    h.injective.prodMap Function.injective_id
  have hmem : ∀ i location, (e i, location) ∈ Site.located ⟨whole, config, inflect⟩ ↔
      (i, location) ∈ Site.located ⟨part, config, inflect⟩ := by
    intro i location
    rw [Site.mem_located, Site.mem_located, h.placements hplace hlt, location?_renumbered h.injective]
    exact and_congr_left fun _ => h.lt_iff
  refine (List.perm_ext_iff_of_nodup (Site.nodup_located _)
    ((Site.nodup_located _).map hinjective)).2 fun ⟨j, location⟩ => ?_
  rw [List.mem_map]
  constructor
  · intro hentry
    obtain ⟨i, rfl⟩ : ∃ i, e i = j := by
      by_contra hj
      obtain ⟨-, hlocation⟩ := Site.mem_located.1 hentry
      rw [h.placements hplace hlt, location?_others _ (not_exists.1 hj)] at hlocation
      cases hlocation
    exact ⟨(i, location), (hmem i location).1 hentry, rfl⟩
  · rintro ⟨⟨i, location⟩, hentry, heq⟩
    obtain ⟨rfl, rfl⟩ := Prod.mk.inj heq
    exact (hmem i location).2 hentry

/-- **The same nodes have the same locations**, or fail to have them in the same way. -/
theorem sameLocations (hpart : part.Nested) (hwhole : whole.Nested)
    (hplace : OnePlace part.childrenOf part.rootList)
    (hlt : ∀ i, Below part.childrenOf part.rootList i → i < part.size) (config : Config)
    (inflect : String → String) :
    SameLocations e (Site.locations ⟨part, config, inflect⟩).outcome
      (Site.locations ⟨whole, config, inflect⟩).outcome := by
  rw [h.outcome_locations hpart hwhole hplace hlt]
  cases hlocations : (Site.locations ⟨part, config, inflect⟩).outcome with
  | error failure => rfl
  | ok located =>
    rw [Site.eq_located hlocations]
    exact h.located_perm hplace hlt config inflect

end SamePlaces

/-- **The same documentation has the same locations**, or fails to have them in the same way. -/
theorem SameLinks.locations (h : SameLinks e part whole) (hpart : part.Nested) (hwhole : whole.Nested)
    (hplace : OnePlace part.childrenOf part.rootList)
    (hlt : ∀ i, Below part.childrenOf part.rootList i → i < part.size) (config : Config)
    (inflect : String → String) :
    (Site.locations ⟨whole, config, inflect⟩).outcome =
      (Site.locations ⟨part, config, inflect⟩).outcome.map fun located =>
        located.map fun entry => (e entry.1, entry.2) := by
  have hplaces := h.samePlaces
  have hlocated : Site.located ⟨whole, config, inflect⟩ =
      (Site.located ⟨part, config, inflect⟩).map fun entry => (e entry.1, entry.2) := by
    rw [Site.located, Site.located, hplaces.placements hplace hlt]
    exact filterMap_range_map h.strictMono (fun _ => hplaces.lt_iff)
      (SamePlaces.location?_renumbered hplaces.injective _) fun _ => SamePlaces.location?_others _
  rw [hplaces.outcome_locations hpart hwhole hplace hlt, hlocated]
  cases hlocations : (Site.locations ⟨part, config, inflect⟩).outcome with
  | error failure => rfl
  | ok located =>
    rw [Site.eq_located hlocations]
    rfl

end Placements
end Forest
end DocForest
