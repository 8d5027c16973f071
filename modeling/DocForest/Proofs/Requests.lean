import DocForest.Proofs.CategoryFiles
import DocForest.Proofs.Uniqueness

/-!
# File names that siblings ask for

A page asks for a file name, and gets a numbered one if a sibling in front of it has that name.  So **a name
that is asked for is taken**, and a name without a number by someone who asked for it.

## What is here

* `IsPlain` — a page that is named after its declaration.
* `exists_takes`, `exists_page` — a file name that a page asks for is taken; `plain_of_takes` — by whom.
* `fileKey?_of_takes` — pages that ask for different names without numbers get them.
-/

set_option autoImplicit false

namespace DocForest
namespace Pages.Site

open Forest Text

variable {site : Site} {scope : Scope} {used : List String} {siblings front : List Nat}
  {p q : Placement} {i : Nat} {name key : String}

/-- A node whose page is named after its declaration. -/
structure IsPlain (site : Site) (scope : Scope) (i : Nat) : Prop where
  isPage : site.isPage scope i = true
  other : scope.parent = none → site.forest.isGroup i = false

theorem place_of_isPlain (h : site.IsPlain scope i) {decl : Declaration}
    (hdecl : site.forest.decl? i = some decl) (used : List String) :
    site.place scope used i = (some (site.placePage scope used i decl).1,
      foldAscii (site.placePage scope used i decl).2 :: used) := by
  have hother : ¬(scope.parent.isNone && decl.kind.isOverview) = true := by
    intro hmodule
    rw [Bool.and_eq_true, Option.isNone_iff_eq_none] at hmodule
    have hgroup := h.other hmodule.1
    rw [isGroup, satisfies, hdecl, Option.any_some, hmodule.2] at hgroup
    cases hgroup
  rw [place, hdecl]
  dsimp only
  rw [if_neg hother, if_pos h.isPage]

theorem placeAll_cons_of_isPlain (h : site.IsPlain scope i) {decl : Declaration}
    (hdecl : site.forest.decl? i = some decl) (used : List String) (rest : List Nat) :
    site.placeAll scope used (i :: rest) = (site.placePage scope used i decl).1 ::
      site.placeAll scope (foldAscii (site.placePage scope used i decl).2 :: used) rest := by
  rw [placeAll_cons, place_of_isPlain h hdecl]
  rfl

/-- **A file name that a page asks for is taken**, if not by the page, then by a sibling in front of it. -/
theorem exists_takes (hfront : ∀ i ∈ front, site.IsPlain scope i) (hi : i ∈ front)
    (hkey : site.forest.fileKey? i = some key) (rest : List Nat) : key ∈ used ∨
      ∃ p ∈ site.placeAll scope used (front ++ rest), ∃ name, Takes scope p name ∧
        foldAscii name = key := by
  induction front generalizing used with
  | nil => cases hi
  | cons j front ih =>
    obtain ⟨hplain, hfront⟩ := List.forall_mem_cons.1 hfront
    rw [List.cons_append]
    cases hdecl : site.forest.decl? j with
    | none =>
      have hne : i ≠ j := by
        rintro rfl
        rw [fileKey?, hdecl] at hkey
        cases hkey
      rw [placeAll_cons, place, hdecl]
      exact ih hfront ((List.mem_cons.1 hi).resolve_left hne)
    | some decl =>
      rw [placeAll_cons_of_isPlain hplain hdecl]
      by_cases hused : key ∈ used
      · exact .inl hused
      by_cases hname : foldAscii (site.placePage scope used j decl).2 = key
      · exact .inr ⟨_, List.mem_cons_self, _, rfl, hname⟩
      have hi : i ∈ front := by
        refine (List.mem_cons.1 hi).resolve_left ?_
        rintro rfl
        -- nobody has the name yet, so that it would be chosen
        rw [fileKey?, hdecl, Option.map_some, Declaration.fileKey, Option.some_inj] at hkey
        exact hname (by rw [placePage, unusedName_eq_self (hkey ▸ hused), hkey])
      rcases ih hfront hi with hmem | ⟨p, hp, hname'⟩
      · exact absurd ((List.mem_cons.1 hmem).resolve_right hused).symm hname
      · exact .inr ⟨p, List.mem_cons_of_mem _ hp, hname'⟩

/-- **Who takes a name is a page of that name**, roots over several modules apart, and a name without a
number is taken by someone who asked for it. -/
theorem plain_of_takes (h : p ∈ site.placeAll scope used siblings) (htakes : Takes scope p name)
    (hplain : scope.parent ≠ none ∨ site.config.multipleModules = false) :
    (scope.parent = none → site.forest.isGroup p.index = false) ∧ p.location.isPage = true ∧
      p.location.address = site.rooted (scope.directory ++ name ++ ".html") ∧
        ('-' ∉ (foldAscii name).toList → site.forest.fileKey? p.index = some (foldAscii name)) := by
  obtain ⟨used', next, hplaced⟩ := placedAs_of_mem_placeAll h
  generalize p.index = j at hplaced
  cases hplaced with
  | overModule _ hroot =>
    have hsingle := hplain.resolve_left fun hne => hne hroot
    refine absurd ?_ (ne_of_takes htakes rfl)
    dsimp only [placeModule]
    rw [hsingle]
    rfl
  | @asPage decl hdecl hother =>
    have hown : Takes scope (site.placePage scope used' j decl).1
        (site.placePage scope used' j decl).2 := rfl
    obtain rfl := htakes.unique hown
    refine ⟨fun hroot => ?_, rfl, rfl, fun hdash => ?_⟩
    · rw [isGroup, satisfies, hdecl, Option.any_some]
      rwa [hroot, Option.isNone_none, Bool.true_and] at hother
    · rw [fileKey?, hdecl, Option.map_some, Declaration.fileKey]
      exact congrArg some (foldAscii_candidate_eq hdash rfl)
  | onPage => cases htakes

/-- What a page among siblings asks for is the name of a page, up to case. -/
theorem exists_page (hfront : ∀ i ∈ front, site.IsPlain scope i) (hi : i ∈ front)
    (hkey : site.forest.fileKey? i = some key) (rest : List Nat)
    (hplain : scope.parent ≠ none ∨ site.config.multipleModules = false) :
    ∃ p ∈ site.placeAll scope [] (front ++ rest), p.location.isPage = true ∧ ∃ name,
      Takes scope p name ∧ foldAscii name = key ∧
        p.location.address = site.rooted (scope.directory ++ name ++ ".html") := by
  obtain ⟨p, hp, name, htakes, hname⟩ :=
    (exists_takes hfront hi hkey rest).resolve_left List.not_mem_nil
  obtain ⟨-, hpage, haddress, -⟩ := plain_of_takes hp htakes hplain
  exact ⟨p, hp, hpage, name, htakes, hname, haddress⟩

theorem eq_of_sibling_index (hnodup : siblings.Nodup)
    (hdecl : ∀ i ∈ siblings, ∃ decl, site.forest.decl? i = some decl)
    (hp : p ∈ site.placeAll scope used siblings) (hq : q ∈ site.placeAll scope used siblings)
    (hindex : p.index = q.index) : p = q := by
  rw [← map_index_placeAll hdecl scope used] at hnodup
  exact List.inj_on_of_nodup_map hnodup hp hq hindex

/-- Pages that ask for different names without numbers get them. -/
theorem fileKey?_of_takes (hsiblings : ∀ i ∈ siblings, site.IsPlain scope i)
    (hkeys : ∀ i ∈ siblings, ∃ key, site.forest.fileKey? i = some key ∧ '-' ∉ key.toList)
    (hapart : (siblings.map site.forest.fileKey?).Nodup) (hparent : scope.parent ≠ none)
    (hp : p ∈ site.placeAll scope [] siblings) (htakes : Takes scope p name) :
    site.forest.fileKey? p.index = some (foldAscii name) := by
  have hdecl : ∀ i ∈ siblings, ∃ decl, site.forest.decl? i = some decl := by
    intro i hi
    obtain ⟨key, hkey, -⟩ := hkeys i hi
    obtain ⟨decl, hdecl, -⟩ := Option.map_eq_some_iff.1 hkey
    exact ⟨decl, hdecl⟩
  have hmem := (index_of_mem_placeAll hp).1
  obtain ⟨key, hkey, hdash⟩ := hkeys _ hmem
  obtain ⟨q, hq, other, htakes', rfl⟩ :=
    (exists_takes hsiblings hmem hkey []).resolve_left List.not_mem_nil
  rw [List.append_nil] at hq
  -- whoever has the name asked for it, and nobody else did
  have hkey' := (plain_of_takes hq htakes' (.inl hparent)).2.2.2 hdash
  have hindex := List.inj_on_of_nodup_map hapart (index_of_mem_placeAll hq).1 hmem (hkey'.trans hkey.symm)
  obtain rfl := eq_of_sibling_index hapart.of_map hdecl hq hp hindex
  rw [hkey, htakes.unique htakes']

end Pages.Site
end DocForest
