import DocForest.Files.Glob
import Mathlib.Data.List.Basic

/-!
# What a pattern matches

The search for the files of a pattern keeps tables and lists; what it finds can be said without them.

## What is here

* `Wildcard.Fits`, `Wildcard.fits_iff` — a name fits a pattern, part by part.
* `FileTree.mem_namesIn`, `FileTree.mem_below` — what a directory holds.
* `FileTree.Leads`, `FileTree.mem_step` — where one step of a pattern leads.
* `FileTree.Reaches`, `FileTree.mem_expand` — where several steps lead.
* `FileTree.Matches`, `FileTree.mem_foundTexts` — **what a pattern finds are the texts that match it.**
-/

set_option autoImplicit false

namespace DocForest

/-! ## Wildcards -/

namespace Wildcard

variable {parts : List Wildcard} {s : List Char} {c : Char}

/-- The characters of a name can be given to the parts of a pattern. -/
inductive Fits : List Wildcard → List Char → Prop
  | nil : Fits [] []
  | none {parts : List Wildcard} {s : List Char} (h : Fits parts s) : Fits (any :: parts) s
  | more {parts : List Wildcard} {s : List Char} (c : Char) (h : Fits (any :: parts) s) :
      Fits (any :: parts) (c :: s)
  | one {parts : List Wildcard} {s : List Char} (c : Char) (h : Fits parts s) :
      Fits (one :: parts) (c :: s)
  | among {parts : List Wildcard} {s : List Char} {set : CharSet} {c : Char} (hc : set.holds c = true)
      (h : Fits parts s) : Fits (among set :: parts) (c :: s)
  | exactly {parts : List Wildcard} {s : List Char} (c : Char) (h : Fits parts s) :
      Fits (exactly c :: parts) (c :: s)

theorem length_anyFrom (bs : List Bool) : (anyFrom bs).length = bs.length := by
  induction bs with
  | nil => rfl
  | cons b rest ih => simp [anyFrom, ih]

theorem length_endsFitting (s : List Char) (parts : List Wildcard) :
    (endsFitting s parts).length = s.length + 1 := by
  induction parts with
  | nil => simp [endsFitting]
  | cons part parts ih => cases part <;> simp [endsFitting, length_anyFrom, ih]

theorem endsFitting_eq_cons (s : List Char) (parts : List Wildcard) :
    ∃ later, endsFitting s parts = fits parts s :: later := by
  obtain ⟨b, later, h⟩ := List.exists_cons_of_length_eq_add_one (length_endsFitting s parts)
  exact ⟨later, by rw [fits, h, List.headD_cons]⟩

/-- The table of a text has one entry more than that of the text behind its first character. -/
theorem endsFitting_cons (parts : List Wildcard) (c : Char) (s : List Char) :
    endsFitting (c :: s) parts = fits parts (c :: s) :: endsFitting s parts := by
  suffices h : ∃ b, endsFitting (c :: s) parts = b :: endsFitting s parts by
    obtain ⟨b, hb⟩ := h
    rw [fits, hb, List.headD_cons]
  induction parts with
  | nil => exact ⟨false, rfl⟩
  | cons part parts ih =>
    obtain ⟨b, hb⟩ := ih
    obtain ⟨later, hlater⟩ := endsFitting_eq_cons s parts
    cases part with
    | any => exact ⟨_, by rw [endsFitting, hb, anyFrom, endsFitting]⟩
    | one => exact ⟨fits parts s, by simp [endsFitting, hb, hlater]⟩
    | among set => exact ⟨set.holds c && fits parts s, by simp [endsFitting, hb, hlater]⟩
    | exactly c' => exact ⟨c = c' && fits parts s, by simp [endsFitting, hb, hlater]⟩

theorem endsFitting_nil (parts : List Wildcard) : endsFitting [] parts = [fits parts []] := by
  obtain ⟨later, h⟩ := endsFitting_eq_cons [] parts
  have hlength := length_endsFitting [] parts
  rw [h] at hlength
  rw [h, List.length_eq_zero_iff.1 (Nat.succ.inj hlength)]

/-! Part by part, a text fits as follows. -/

@[simp] theorem fits_nil_iff : fits [] s = true ↔ s = [] := by
  cases s <;> simp [fits, endsFitting]

theorem fits_any_nil (parts : List Wildcard) : fits (any :: parts) [] = fits parts [] := by
  rw [fits, endsFitting, endsFitting_nil]
  simp [anyFrom]

theorem fits_any_cons (parts : List Wildcard) (c : Char) (s : List Char) :
    fits (any :: parts) (c :: s) = (fits parts (c :: s) || fits (any :: parts) s) := by
  rw [fits, endsFitting, endsFitting_cons, anyFrom, List.headD_cons, fits, fits, endsFitting]

theorem fits_one_cons (parts : List Wildcard) (c : Char) (s : List Char) :
    fits (one :: parts) (c :: s) = fits parts s := by
  obtain ⟨later, h⟩ := endsFitting_eq_cons s parts
  rw [fits, endsFitting, endsFitting_cons, h]
  simp

theorem fits_among_cons (set : CharSet) (parts : List Wildcard) (c : Char) (s : List Char) :
    fits (among set :: parts) (c :: s) = (set.holds c && fits parts s) := by
  obtain ⟨later, h⟩ := endsFitting_eq_cons s parts
  rw [fits, endsFitting, endsFitting_cons, h]
  simp

theorem fits_exactly_cons (c' : Char) (parts : List Wildcard) (c : Char) (s : List Char) :
    fits (exactly c' :: parts) (c :: s) = (c = c' && fits parts s) := by
  obtain ⟨later, h⟩ := endsFitting_eq_cons s parts
  rw [fits, endsFitting, endsFitting_cons, h]
  simp

theorem fits_of_part_nil {part : Wildcard} (hpart : part ≠ any) : fits (part :: parts) [] = false := by
  cases part with
  | any => exact absurd rfl hpart
  | one => rw [fits, endsFitting, endsFitting_nil]; rfl
  | among set => simp [fits, endsFitting]
  | exactly c => simp [fits, endsFitting]

theorem Fits.fits (h : Fits parts s) : fits parts s = true := by
  induction h with
  | nil => rfl
  | @none parts s _ ih =>
    cases s with
    | nil => rw [fits_any_nil, ih]
    | cons c s => rw [fits_any_cons, ih, Bool.true_or]
  | more c _ ih => rw [fits_any_cons, ih, Bool.or_true]
  | one c _ ih => rw [fits_one_cons, ih]
  | among hc _ ih => rw [fits_among_cons, hc, ih, Bool.and_self]
  | exactly c _ ih => simp [fits_exactly_cons, ih]

/-- The table says of a text whether it fits. -/
theorem fits_iff : fits parts s = true ↔ Fits parts s := by
  refine ⟨fun h => ?_, Fits.fits⟩
  induction parts generalizing s with
  | nil => exact fits_nil_iff.1 h ▸ .nil
  | cons part parts ih =>
    cases part with
    | any =>
      -- a star takes one character after the other
      induction s with
      | nil => exact .none (ih (fits_any_nil parts ▸ h))
      | cons c s ihs =>
        rw [fits_any_cons, Bool.or_eq_true] at h
        exact h.elim (fun hnone => .none (ih hnone)) fun hmore => .more c (ihs hmore)
    | one =>
      cases s with
      | nil => rw [fits_of_part_nil (by simp)] at h; cases h
      | cons c s => exact .one c (ih (fits_one_cons parts c s ▸ h))
    | among set =>
      cases s with
      | nil => rw [fits_of_part_nil (by simp)] at h; cases h
      | cons c s =>
        rw [fits_among_cons, Bool.and_eq_true] at h
        exact .among h.1 (ih h.2)
    | exactly c' =>
      cases s with
      | nil => rw [fits_of_part_nil (by simp)] at h; cases h
      | cons c s =>
        rw [fits_exactly_cons, Bool.and_eq_true, decide_eq_true_eq] at h
        exact h.1 ▸ .exactly c (ih h.2)

end Wildcard

/-! ## Directories -/

namespace FileTree

variable {tree : FileTree} {place way : List String} {name text found : String} {more : Bool}
  {segment : Segment} {steps : List Segment}

theorem mem_waysFrom : way ∈ tree.waysFrom place ↔ place ++ way ∈ tree.entries := by
  rw [waysFrom, List.mem_map]
  constructor
  · rintro ⟨other, hother, rfl⟩
    obtain ⟨hmem, hbegins⟩ := List.mem_filter.1 hother
    rwa [← List.prefix_iff_eq_append.1 (List.isPrefixOf_iff_prefix.1 hbegins)] at hmem
  · intro hmem
    exact ⟨place ++ way, List.mem_filter.2 ⟨hmem, by simp⟩, by simp⟩

theorem holds_iff : tree.holds place = true ↔ ∃ way, place ++ way ∈ tree.entries := by
  rw [holds, List.any_eq_true]
  constructor
  · rintro ⟨other, hmem, hbegins⟩
    obtain ⟨way, rfl⟩ := List.isPrefixOf_iff_prefix.1 hbegins
    exact ⟨way, hmem⟩
  · rintro ⟨way, hmem⟩
    exact ⟨place ++ way, hmem, by simp⟩

/-- The names in a directory are those of all that is directly in it. -/
theorem mem_namesIn : name ∈ tree.namesIn place ↔ tree.holds (place ++ [name]) = true := by
  rw [namesIn, List.mem_eraseDups, List.mem_filterMap, holds_iff]
  constructor
  · rintro ⟨way, hway, hname⟩
    obtain ⟨rest, rfl⟩ := List.head?_eq_some_iff.1 hname
    exact ⟨rest, by simpa using mem_waysFrom.1 hway⟩
  · rintro ⟨rest, hmem⟩
    exact ⟨name :: rest, mem_waysFrom.2 (by simpa using hmem), rfl⟩

/-- The ways below a directory lead to all that is in it, directly or not. -/
theorem mem_below : way ∈ tree.below place ↔ way ≠ [] ∧ tree.holds (place ++ way) = true := by
  rw [below, List.mem_eraseDups, List.mem_flatMap, holds_iff]
  constructor
  · rintro ⟨whole, hwhole, hway⟩
    obtain ⟨n, hn, rfl⟩ := List.mem_map.1 hway
    have hn : n < whole.length := List.mem_range.1 hn
    refine ⟨fun hnil => by simp at hnil; simp [hnil] at hn, whole.drop (n + 1), ?_⟩
    rw [List.append_assoc, List.take_append_drop]
    exact mem_waysFrom.1 hwhole
  · rintro ⟨hne, rest, hmem⟩
    refine ⟨way ++ rest, mem_waysFrom.2 (by simpa using hmem), ?_⟩
    have hpos : 0 < way.length := List.length_pos_iff.2 hne
    refine List.mem_map.2 ⟨way.length - 1, List.mem_range.2 (by simp; omega), ?_⟩
    rw [Nat.sub_add_cancel hpos, List.take_left]

/-! ## Steps -/

/-- One step of a pattern leads from a text on by a way; `more` says that further steps follow. -/
inductive Leads (tree : FileTree) (text : String) (more : Bool) : Segment → List String → Prop
  | exactly {place next : List String} {name : String} (hplace : tree.placeOf? text = some place)
      (hdir : tree.isDirectory place = true) (hnext : tree.follow? place [name] = some next) :
      Leads tree text more (.exactly name) [name]
  | fitting {place : List String} {name : String} {hidden : Bool} {parts : List Wildcard}
      (hplace : tree.placeOf? text = some place) (hdir : tree.isDirectory place = true)
      (hholds : tree.holds (place ++ [name]) = true) (hhidden : isHidden name = true → hidden = true)
      (hfits : Wildcard.Fits parts name.toList)
      (hmore : more = true → tree.isDirectory (place ++ [name]) = true) :
      Leads tree text more (.fitting hidden parts) [name]
  | stay : Leads tree text more .anyDepth [""]
  | below {place way : List String} (hplace : tree.placeOf? text = some place)
      (hdir : tree.isDirectory place = true) (hne : way ≠ []) (hholds : tree.holds (place ++ way) = true)
      (hhidden : ∀ name ∈ way, isHidden name = false)
      (hmore : more = true → tree.isDirectory (place ++ way) = true) :
      Leads tree text more .anyDepth way

theorem Leads.mem_step (h : tree.Leads text more segment way) : way ∈ tree.step text more segment := by
  cases h with
  | exactly hplace hdir hnext =>
    simp only [FileTree.step, hplace, Option.filter_some, hdir, if_true, hnext]
    simp
  | fitting hplace hdir hholds hhidden hfits hmore =>
    simp only [FileTree.step, hplace, Option.filter_some, hdir, if_true, List.mem_map, List.mem_filter,
      mem_namesIn]
    refine ⟨_, ⟨hholds, ?_⟩, rfl⟩
    simp only [hfits.fits, Bool.and_true, Bool.and_eq_true, Bool.or_eq_true, Bool.not_eq_true']
    grind
  | stay => simp [FileTree.step]
  | below hplace hdir hne hholds hhidden hmore =>
    simp only [FileTree.step, hplace, Option.filter_some, hdir, if_true, List.mem_cons, List.mem_filter,
      mem_below]
    refine .inr ⟨⟨hne, hholds⟩, ?_⟩
    simp only [Bool.and_eq_true, List.all_eq_true, Bool.not_eq_true', Bool.or_eq_true]
    grind

theorem leads_of_mem_step (h : way ∈ tree.step text more segment) : tree.Leads text more segment way := by
  cases hplace : (tree.placeOf? text).filter tree.isDirectory with
  | none =>
    cases segment <;> simp [FileTree.step, hplace] at h
    exact h ▸ .stay
  | some place =>
    obtain ⟨hplace', hdir⟩ := Option.filter_eq_some_iff.1 hplace
    cases segment with
    | exactly name =>
      simp only [FileTree.step, hplace] at h
      split at h
      · next hnext =>
        obtain ⟨next, hnext⟩ := Option.isSome_iff_exists.1 hnext
        exact List.mem_singleton.1 h ▸ .exactly hplace' hdir hnext
      · cases h
    | fitting hidden parts =>
      simp only [FileTree.step, hplace, List.mem_map, List.mem_filter, mem_namesIn, Bool.and_eq_true,
        Bool.or_eq_true, Bool.not_eq_true'] at h
      obtain ⟨name, ⟨hholds, ⟨hhidden, hfits⟩, hmore⟩, rfl⟩ := h
      exact .fitting hplace' hdir hholds (by grind) (Wildcard.fits_iff.1 hfits) (by grind)
    | anyDepth =>
      simp only [FileTree.step, hplace, List.mem_cons, List.mem_filter, mem_below, Bool.and_eq_true,
        List.all_eq_true, Bool.not_eq_true', Bool.or_eq_true] at h
      obtain rfl | ⟨⟨hne, hholds⟩, hhidden, hmore⟩ := h
      · exact .stay
      · exact .below hplace' hdir hne hholds hhidden (by grind)

theorem mem_step : way ∈ tree.step text more segment ↔ tree.Leads text more segment way :=
  ⟨leads_of_mem_step, Leads.mem_step⟩

/-- The steps of a pattern lead from a text to another. -/
inductive Reaches (tree : FileTree) : String → List Segment → String → Prop
  | done (text : String) : Reaches tree text [] text
  | step {text found : String} {segment : Segment} {rest : List Segment} {way : List String}
      (hleads : tree.Leads text (!rest.isEmpty) segment way)
      (hrest : Reaches tree (way.foldl Glob.spelled text) rest found) :
      Reaches tree text (segment :: rest) found

theorem mem_expand : found ∈ tree.expand text steps ↔ tree.Reaches text steps found := by
  induction steps generalizing text with
  | nil =>
    rw [expand, List.mem_singleton]
    exact ⟨fun h => h ▸ .done found, fun h => by cases h; rfl⟩
  | cons segment rest ih =>
    rw [expand, List.mem_flatMap]
    constructor
    · rintro ⟨way, hway, hfound⟩
      exact .step (mem_step.1 hway) (ih.1 hfound)
    · rintro (_ | ⟨hleads, hrest⟩)
      exact ⟨_, mem_step.2 hleads, ih.2 hrest⟩

/-- A text matches a pattern: the steps of the pattern lead to it, and without steps there is something. -/
def Matches (tree : FileTree) (pattern text : String) : Prop :=
  ((Glob.ofText pattern).steps = [] → ∃ place, tree.placeOf? (Glob.ofText pattern).base = some place) ∧
    tree.Reaches (Glob.ofText pattern).base (Glob.ofText pattern).steps text

/-- **What a pattern finds are the texts that match it.** -/
theorem mem_foundTexts {pattern : String} :
    text ∈ tree.foundTexts pattern ↔ tree.Matches pattern text := by
  simp only [foundTexts, mem_stableSort, Matches, ← mem_expand]
  split
  · next h =>
    obtain ⟨hsteps, hnone⟩ := Bool.and_eq_true_iff.1 h
    simp [List.isEmpty_iff.1 hsteps, Option.isNone_iff_eq_none.1 hnone]
  · next h =>
    refine (and_iff_right fun hsteps => ?_).symm
    exact Option.isSome_iff_exists.1 (by simpa [hsteps, Option.isSome_iff_ne_none] using h)

end FileTree
end DocForest
