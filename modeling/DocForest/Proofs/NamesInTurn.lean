import DocForest.Proofs.FileNames
import DocForest.Proofs.Halting
import DocForest.Proofs.Placing

/-!
# Names chosen one after the other

A sibling that asks for a used file name gets a numbered one.  The loop that looks for it has no bound of
its own: it stops because no name is tried twice and only finitely many are used.  A numbered name can be
what another sibling asks for, so that the used names have to grow with each one that is given.

Nothing here depends on how characters outside ASCII are folded.  File names are ASCII texts, on which the
search that is run and the loop agree for every folding.

## What is here

* `Attempt.round`, `chosenName` — the loop, and the name it stops at; `exists_chosenName` — **the loop
  ends** at the first name to try that is not used; `FirstUnused` — which name that is.
* `chosenName_eq_unusedName` — the search among one name more than there are used ones finds the same name.
* `namesInTurn` — the names for candidates that come one after the other; `exists_inTurn` — **they differ**,
  and those in front do not depend on what comes behind.
* `Site.asks?`, `Site.chosen?` — the names that siblings ask for and get; `Site.namesInTurn_asked` — **they
  are chosen in turn**; `Site.PlacedAs.namedAfter` — what for.
* `names_differ_in_scope` — all of this together.
-/

set_option autoImplicit false

namespace DocForest
namespace Pages

open Forest StateTransition Text

variable {folding : CaseFolding} {candidate name : String} {used : List (List Char)} {k : Nat}

/-! ## The loop -/

/-- A name that is tried, with the number for the next one. -/
structure Attempt where
  name : String
  next : Nat

/-- The first name to try is the one that is asked for. -/
def Attempt.first (candidate : String) : Attempt :=
  { name := candidate, next := 2 }

/-- As long as the name is used, another number is put behind what is asked for. -/
def Attempt.round (folding : CaseFolding) (candidate : String) (used : List (List Char))
    (attempt : Attempt) : Option Attempt :=
  if folding.fold attempt.name ∈ used then
    some { name := numbered candidate attempt.next, next := attempt.next + 1 }
  else none

/-- The name that the loop stops at, if it does. -/
def chosenName (folding : CaseFolding) (candidate : String) (used : List (List Char)) : Part String :=
  (eval (Attempt.round folding candidate used) (.first candidate)).map Attempt.name

/-- The attempt behind `k` rounds. -/
def Attempt.nth (candidate : String) (k : Nat) : Attempt :=
  { name := tried candidate k, next := k + 2 }

theorem Attempt.round_nth (folding : CaseFolding) (candidate : String) (used : List (List Char))
    (k : Nat) : (nth candidate k).round folding candidate used =
      if folding.fold (tried candidate k) ∈ used then some (nth candidate (k + 1)) else none := rfl

/-- Between the rounds all names in front of the one that is tried are used. -/
def Attempt.InVain (folding : CaseFolding) (candidate : String) (used : List (List Char))
    (attempt : Attempt) : Prop :=
  ∃ k, attempt = nth candidate k ∧ ∀ l < k, folding.fold (tried candidate l) ∈ used

/-- **A round keeps this**, and brings the loop closer to its end: there are only so many used names. -/
theorem Attempt.InVain.round {attempt after : Attempt} (h : attempt.InVain folding candidate used)
    (hround : attempt.round folding candidate used = some after) :
    after.InVain folding candidate used ∧
      used.length + 3 - after.next < used.length + 3 - attempt.next := by
  obtain ⟨k, rfl, hused⟩ := h
  rw [round_nth] at hround
  split at hround
  · next hmem =>
    obtain rfl := Option.some.inj hround
    have hnext : ∀ l < k + 1, folding.fold (tried candidate l) ∈ used := fun l hl => by
      rcases Nat.lt_succ_iff_lt_or_eq.1 hl with hlt | rfl
      · exact hused l hlt
      · exact hmem
    have hle := le_length_of_tried_mem hnext
    refine ⟨⟨k + 1, rfl, hnext⟩, ?_⟩
    show used.length + 3 - (k + 1 + 2) < used.length + 3 - (k + 2)
    omega
  · cases hround

/-- **The loop ends** at the first name to try that is not used. -/
theorem exists_chosenName (folding : CaseFolding) (candidate : String) (used : List (List Char)) :
    ∃ k, chosenName folding candidate used = Part.some (tried candidate k) ∧
      IsLeast {k | folding.fold (tried candidate k) ∉ used} k := by
  have hfirst : (Attempt.first candidate).InVain folding candidate used :=
    ⟨0, rfl, fun l hl => absurd hl (Nat.not_lt_zero l)⟩
  obtain ⟨last, heval, ⟨k, rfl, hused⟩, hround⟩ :=
    exists_eval_eq_some (fun attempt : Attempt => used.length + 3 - attempt.next)
      (fun _ _ h => h.round) hfirst
  rw [Attempt.round_nth, ite_eq_right_iff] at hround
  refine ⟨k, by rw [chosenName, heval, Part.map_some]; rfl, fun hmem => ?_, fun l hl => ?_⟩
  · exact Option.some_ne_none _ (hround hmem)
  · by_contra hlt
    exact hl (hused l (Nat.lt_of_not_le hlt))

/-- The name that is asked for if it is not used, and otherwise the one with the least number. -/
structure FirstUnused (folding : CaseFolding) (used : List (List Char)) (candidate name : String) :
    Prop where
  eq_self : folding.fold candidate ∉ used → name = candidate
  eq_numbered : folding.fold candidate ∈ used → ∃ n, name = numbered candidate n ∧
    IsLeast {n | 2 ≤ n ∧ folding.fold (numbered candidate n) ∉ used} n

theorem firstUnused_of_isLeast (h : IsLeast {k | folding.fold (tried candidate k) ∉ used} k) :
    FirstUnused folding used candidate (tried candidate k) := by
  obtain ⟨hunused, hleast⟩ := h
  refine ⟨fun hcandidate => ?_, fun hcandidate => ?_⟩
  · obtain rfl : k = 0 := Nat.le_zero.1 (hleast hcandidate)
    rfl
  · cases k with
    | zero => exact absurd hcandidate hunused
    | succ k =>
      refine ⟨k + 2, rfl, ⟨by omega, hunused⟩, ?_⟩
      rintro n ⟨htwo, hn⟩
      obtain ⟨l, rfl⟩ : ∃ l, n = l + 2 := ⟨n - 2, by omega⟩
      have hle : k + 1 ≤ l + 1 := hleast hn
      omega

/-! ## The search that is run -/

/-- If all names to try are folded like ASCII texts, the search finds what the loop stops at. -/
theorem chosenName_eq_unusedName (hfold : folding.fold candidate = (foldAscii candidate).toList)
    (used : List String) : chosenName folding candidate (used.map String.toList) =
      Part.some (unusedName candidate used) := by
  have htried : ∀ k, folding.fold (tried candidate k) ∈ used.map String.toList ↔
      foldAscii (tried candidate k) ∈ used := fun k => by
    have heq : folding.fold (tried candidate k) = (foldAscii (tried candidate k)).toList := by
      cases k with
      | zero => exact hfold
      | succ k => rw [tried, fold_numbered, foldAscii_numbered, hfold]
    rw [heq, List.mem_map_of_injective fun _ _ => String.toList_injective]
  obtain ⟨k, hchosen, hleast⟩ := exists_chosenName folding candidate (used.map String.toList)
  obtain ⟨l, hname, hleast'⟩ := exists_unusedName_eq_tried candidate used
  simp only [htried] at hleast
  rw [hchosen, hname, hleast.unique hleast']

/-! ## One scope -/

/-- The names for candidates that come one after the other.  Each name is used from then on. -/
def namesInTurn (folding : CaseFolding) : List (List Char) → List String → Part (List String)
  | _, [] => Part.some []
  | used, candidate :: rest =>
    (chosenName folding candidate used).bind fun name =>
      (namesInTurn folding (folding.fold name :: used) rest).map (name :: ·)

theorem namesInTurn_cons {names rest : List String}
    (hname : chosenName folding candidate used = Part.some name)
    (hrest : namesInTurn folding (folding.fold name :: used) rest = Part.some names) :
    namesInTurn folding used (candidate :: rest) = Part.some (name :: names) := by
  rw [namesInTurn, hname, Part.bind_some, hrest, Part.map_some]

theorem exists_namesInTurn (folding : CaseFolding) (used : List (List Char)) (candidates : List String) :
    ∃ names, namesInTurn folding used candidates = Part.some names := by
  induction candidates generalizing used with
  | nil => exact ⟨[], rfl⟩
  | cons candidate rest ih =>
    obtain ⟨k, hname, -⟩ := exists_chosenName folding candidate used
    obtain ⟨names, hnames⟩ := ih (folding.fold (tried candidate k) :: used)
    exact ⟨_, namesInTurn_cons hname hnames⟩

/-- What is known of the names for the candidates of a scope where some names are used. -/
structure InTurn (folding : CaseFolding) (used : List (List Char)) (candidates names : List String) :
    Prop where
  chosen : namesInTurn folding used candidates = Part.some names
  length_eq : names.length = candidates.length
  new : ∀ name ∈ names, folding.fold name ∉ used
  different : names.Pairwise fun a b => folding.fold a ≠ folding.fold b
  /-- Further candidates do not change the names of those in front of them. -/
  stable : ∀ later, ∃ rest, namesInTurn folding used (candidates ++ later) = Part.some (names ++ rest)

theorem inTurn_nil (folding : CaseFolding) (used : List (List Char)) : InTurn folding used [] [] where
  chosen := rfl
  length_eq := rfl
  new _ hname := nomatch hname
  different := .nil
  stable := exists_namesInTurn folding used

/-- One more name in front: the names behind it differ from it, as it is used for them. -/
theorem InTurn.cons {candidates names : List String}
    (hname : chosenName folding candidate used = Part.some name) (hnew : folding.fold name ∉ used)
    (h : InTurn folding (folding.fold name :: used) candidates names) :
    InTurn folding used (candidate :: candidates) (name :: names) where
  chosen := namesInTurn_cons hname h.chosen
  length_eq := congrArg (· + 1) h.length_eq
  new := List.forall_mem_cons.2 ⟨hnew, fun other hother hused =>
    h.new other hother (List.mem_cons_of_mem _ hused)⟩
  different := List.pairwise_cons.2 ⟨fun other hother heq =>
    h.new other hother (heq ▸ List.mem_cons_self), h.different⟩
  stable later := by
    obtain ⟨rest, hrest⟩ := h.stable later
    exact ⟨rest, namesInTurn_cons hname hrest⟩

/-- **Names that are chosen in turn differ.** -/
theorem exists_inTurn (folding : CaseFolding) (used : List (List Char)) (candidates : List String) :
    ∃ names, InTurn folding used candidates names := by
  induction candidates generalizing used with
  | nil => exact ⟨[], inTurn_nil folding used⟩
  | cons candidate rest ih =>
    obtain ⟨k, hname, hleast⟩ := exists_chosenName folding candidate used
    obtain ⟨names, hnames⟩ := ih (folding.fold (tried candidate k) :: used)
    exact ⟨_, hnames.cons hname hleast.1⟩

/-! ## Siblings -/

namespace Site

variable {site : Site} {scope : Scope} {usedNames : List String} {siblings : List Nat}
  {placement : Placement} {i : Nat}

/-- The file name that a sibling asks for, unless it is to stand on the page of its parent. -/
def asks? (site : Site) (scope : Scope) (i : Nat) : Option String :=
  (site.forest.decl? i).bind fun decl =>
    if scope.parent.isNone && decl.kind.isOverview then
      some (if site.config.multipleModules then fileName (site.forest.nameOf i).plainText else indexName)
    else if site.isPage scope i then some (fileName decl.fileTitle.plainText)
    else none

/-- The file name that was chosen for a sibling: another one than it asked for only if it was renamed. -/
def chosen? (site : Site) (scope : Scope) (placement : Placement) : Option String :=
  (site.asks? scope placement.index).map fun candidate =>
    (placement.renamed.map Prod.snd).getD candidate

/-- What the chosen name is for: the file of a page, or the directory below a root over one of several
modules. -/
structure NamedAfter (site : Site) (scope : Scope) (placement : Placement) (name : Option String) :
    Prop where
  file : (scope.parent = none → site.forest.isGroup placement.index = false) →
    placement.location.file = name
  directory : scope.parent = none → site.forest.isGroup placement.index = true →
    site.config.multipleModules = true → placement.below.map Scope.directory = name.map (· ++ "/")

theorem asks?_chars (h : site.asks? scope i = some candidate) :
    ∀ c ∈ candidate.toList, isFileChar c = true := by
  obtain ⟨decl, -, hasks⟩ := Option.bind_eq_some_iff.1 h
  split at hasks
  · obtain rfl := Option.some.inj hasks
    split
    · exact fileName_chars _
    · exact List.all_eq_true.1 (by decide)
  · split at hasks
    · obtain rfl := Option.some.inj hasks
      exact fileName_chars _
    · cases hasks

theorem chosen?_of_renamed {chosen : String} (h : site.asks? scope placement.index = some candidate)
    (hrenamed : placement.renamed = if chosen = candidate then none else some (candidate, chosen)) :
    site.chosen? scope placement = some chosen := by
  rw [chosen?, h, Option.map_some, hrenamed]
  split
  · next heq => rw [heq, Option.map_none, Option.getD_none]
  · rw [Option.map_some, Option.getD_some]

section

variable {decl : Declaration} (hdecl : site.forest.decl? i = some decl)
include hdecl

theorem asks?_of_overModule (hroot : scope.parent = none) (hgroup : decl.kind.isOverview = true) :
    site.asks? scope i = some (if site.config.multipleModules then
      fileName (site.forest.nameOf i).plainText else indexName) := by
  simp [asks?, hdecl, hroot, hgroup]

theorem asks?_of_page (hother : (scope.parent.isNone && decl.kind.isOverview) = false)
    (hpage : site.isPage scope i = true) :
    site.asks? scope i = some (fileName decl.fileTitle.plainText) := by
  rw [asks?, hdecl, Option.bind_some, hother]
  simp [hpage]

/-- Roots are pages, so that a node without a page is none over a module either. -/
theorem asks?_of_member (hpage : site.isPage scope i = false) : site.asks? scope i = none := by
  have hparent : scope.parent.isNone = false := by
    rw [isPage, Bool.or_eq_false_iff] at hpage
    exact hpage.2
  simp [asks?, hdecl, hparent, hpage]

end

namespace PlacedAs

variable {next : List String}

/-- **A sibling that asks for a name is given one**, which is used from then on; the others change nothing. -/
theorem asks (h : PlacedAs site scope usedNames i placement next) :
    (site.asks? scope i = none ∧ site.chosen? scope placement = none ∧ next = usedNames) ∨
      ∃ candidate, site.asks? scope i = some candidate ∧
        site.chosen? scope placement = some (unusedName candidate usedNames) ∧
        next = foldAscii (unusedName candidate usedNames) :: usedNames := by
  cases h with
  | overModule hdecl hroot hgroup =>
    have hasks := asks?_of_overModule hdecl hroot hgroup
    exact .inr ⟨_, hasks, chosen?_of_renamed hasks rfl, rfl⟩
  | asPage hdecl hother hpage =>
    have hasks := asks?_of_page hdecl hother hpage
    exact .inr ⟨_, hasks, chosen?_of_renamed hasks rfl, rfl⟩
  | onPage hdecl hpage =>
    have hasks := asks?_of_member hdecl hpage
    exact .inl ⟨hasks, congrArg (Option.map _) hasks, rfl⟩

theorem namedAfter (h : PlacedAs site scope usedNames i placement next) :
    site.NamedAfter scope placement (site.chosen? scope placement) := by
  cases h with
  | @overModule decl hdecl hroot hgroup =>
    have hasks := asks?_of_overModule hdecl hroot hgroup
    refine ⟨fun hother => ?_, fun _ _ hmany => ?_⟩
    · have hmodule : site.forest.isGroup i = false := hother hroot
      simp [isGroup, satisfies, hdecl, hgroup] at hmodule
    · rw [chosen?_of_renamed hasks rfl]
      simp [placeModule, hmany]
  | @asPage decl hdecl hother hpage =>
    have hasks := asks?_of_page hdecl hother hpage
    refine ⟨fun _ => (chosen?_of_renamed hasks rfl).symm, fun hroot hmodule => ?_⟩
    have hgroup : site.forest.isGroup i = true := hmodule
    simp [isGroup, satisfies, hdecl] at hgroup
    simp [hroot, hgroup] at hother
  | onPage hdecl hpage =>
    have hasks := asks?_of_member hdecl hpage
    refine ⟨fun _ => (congrArg (Option.map _) hasks).symm, fun hroot => ?_⟩
    simp [isPage, hroot] at hpage

end PlacedAs

/-- **The names of siblings are chosen in turn.** -/
theorem namesInTurn_asked (folding : CaseFolding) (site : Site) (scope : Scope)
    (usedNames : List String) (siblings : List Nat) :
    namesInTurn folding (usedNames.map String.toList) (siblings.filterMap (site.asks? scope)) =
      Part.some ((site.placeAll scope usedNames siblings).filterMap (site.chosen? scope)) := by
  induction siblings generalizing usedNames with
  | nil => rfl
  | cons i rest ih =>
    rw [placeAll_cons, List.filterMap_append]
    cases hdecl : site.forest.decl? i with
    | none =>
      have hasks : site.asks? scope i = none := by rw [asks?, hdecl, Option.bind_none]
      rw [List.filterMap_cons_none hasks, place, hdecl]
      exact ih usedNames
    | some decl =>
      obtain ⟨placement, hplace⟩ := exists_place hdecl scope usedNames
      rw [hplace, Option.toList_some]
      rcases (placedAs_of_place hplace).asks with ⟨hasks, hchosen, hnext⟩ |
        ⟨candidate, hasks, hchosen, hnext⟩
      · rw [List.filterMap_cons_none hasks, List.filterMap_cons_none hchosen, hnext]
        exact ih usedNames
      · have hascii := isAscii_of_isFileChar (unusedName_chars (asks?_chars hasks) usedNames)
        have hrest := ih (foldAscii (unusedName candidate usedNames) :: usedNames)
        rw [List.map_cons, ← folding.fold_of_isAscii hascii] at hrest
        rw [List.filterMap_cons_some hasks, List.filterMap_cons_some hchosen, hnext]
        refine namesInTurn_cons (chosenName_eq_unusedName ?_ usedNames) hrest
        exact folding.fold_of_isAscii (isAscii_of_isFileChar (asks?_chars hasks))

/-- Three modules, of which the last asks for the name that the second gets if it stands in front of it. -/
def similarModules : Site where
  forest := { nodes := #["foo", "Foo", "Foo-2"].map fun name => { decl := .group (.str name) .null } }
  config := { modules := ["foo", "Foo", "Foo-2"] }
  inflect := id

example : (similarModules.placeAll rootScope [] [2, 1, 0]).filterMap (similarModules.chosen? rootScope) =
    ["Foo-2", "Foo", "foo-3"] := by
  decide +kernel

end Site

/-- **File names of siblings.**  However texts are read without regard to case, the loop for a name ends; it
stops at what is asked for, or else at the least number that is not used.  Names that are chosen one after
the other in a scope differ, and further ones do not change them.  That is how the siblings of every scope
get their names. -/
theorem names_differ_in_scope (folding : CaseFolding) :
    (∀ candidate used, ∃ name, chosenName folding candidate used = Part.some name ∧
      FirstUnused folding used candidate name) ∧
    (∀ used candidates, ∃ names, InTurn folding used candidates names) ∧
    (∀ candidate used, folding.fold candidate = (foldAscii candidate).toList →
      chosenName folding candidate (used.map String.toList) =
        Part.some (unusedName candidate used)) ∧
    ∀ (site : Site) (scope : Scope) (siblings : List Nat),
      InTurn folding [] (siblings.filterMap (site.asks? scope))
          ((site.placeAll scope [] siblings).filterMap (site.chosen? scope)) ∧
        ∀ placement ∈ site.placeAll scope [] siblings,
          site.NamedAfter scope placement (site.chosen? scope placement) := by
  refine ⟨fun candidate used => ?_, exists_inTurn folding, fun _ used hfold =>
    chosenName_eq_unusedName hfold used, fun site scope siblings => ⟨?_, fun placement hplacement => ?_⟩⟩
  · obtain ⟨k, hname, hleast⟩ := exists_chosenName folding candidate used
    exact ⟨_, hname, firstUnused_of_isLeast hleast⟩
  · obtain ⟨names, hnames⟩ := exists_inTurn folding [] (siblings.filterMap (site.asks? scope))
    have hchosen := Site.namesInTurn_asked folding site scope [] siblings
    obtain rfl := Part.some_injective (hnames.chosen.symm.trans hchosen)
    exact hnames
  · obtain ⟨used, next, hplaced⟩ := Site.placedAs_of_mem_placeAll hplacement
    exact hplaced.namedAfter

/-- The second of three modules gets the name that the last one asks for, which gets one more number. -/
theorem names_differ_in_scope_modules :
    CaseFolding.ascii.fold "Foo" = (foldAscii "Foo").toList ∧
      chosenName .ascii "Foo" (["foo"].map String.toList) = Part.some "Foo-2" ∧
      InTurn .ascii [] ["foo", "Foo", "Foo-2"] ["foo", "Foo-2", "Foo-2-2"] ∧
      ∃ placement ∈ Site.similarModules.placeAll Site.rootScope [] [0, 1, 2],
        placement.index = 2 ∧ placement.below.map Scope.directory = some "Foo-2-2/" := by
  obtain ⟨-, -, hsearch, hsites⟩ := names_differ_in_scope .ascii
  obtain ⟨hturn, hnamed⟩ := hsites Site.similarModules Site.rootScope [0, 1, 2]
  have hfold : CaseFolding.ascii.fold "Foo" = (foldAscii "Foo").toList := by decide
  have hunused : unusedName "Foo" ["foo"] = "Foo-2" := by decide +kernel
  have hasked : [0, 1, 2].filterMap (Site.similarModules.asks? Site.rootScope) =
      ["foo", "Foo", "Foo-2"] := by decide +kernel
  have hchosen : (Site.similarModules.placeAll Site.rootScope [] [0, 1, 2]).filterMap
      (Site.similarModules.chosen? Site.rootScope) = ["foo", "Foo-2", "Foo-2-2"] := by decide +kernel
  rw [hasked, hchosen] at hturn
  let last := (Site.similarModules.placeModule ["foo-2", "foo"] 2).1
  have hlast : last ∈ Site.similarModules.placeAll Site.rootScope [] [0, 1, 2] := by decide +kernel
  have hname : Site.similarModules.chosen? Site.rootScope last = some "Foo-2-2" := by decide +kernel
  have hdirectory := (hnamed last hlast).directory rfl (by decide +kernel) (by decide +kernel)
  rw [hname] at hdirectory
  exact ⟨hfold, hunused ▸ hsearch "Foo" ["foo"] hfold, hturn, last, hlast, rfl, hdirectory⟩

end Pages
end DocForest
