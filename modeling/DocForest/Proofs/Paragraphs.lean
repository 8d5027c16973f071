import DocForest.Json.Prose
import DocForest.Proofs.Trimming
import Mathlib.Logic.Relation

/-!
# Paragraphs of nested texts

A text comes in paragraphs, which may stand in lists and objects of any depth.  It is put together from the
inside out: every list joins what its items have become, and leaves out what has become empty.  In the end
**only the leaves and their order matter**, as if they had been joined at once.

## What is here

* `Json.leaves` — what a value holds in the end; `leaves_arr`, `leaves_obj`, where it is looked for.
* `Json.joined` — texts as paragraphs; `joined_append`, `joined_flatten`, paragraphs of paragraphs.
* `Json.Regroups` — some paragraphs are put into a list of their own.
* `Json.prose_flattens` — **the text of a value is that of its leaves.**
-/

set_option autoImplicit false

namespace DocForest
namespace Json

open Text

variable {value value' : Json} {s t : String} {texts : List String}

/-! ## Leaves -/

mutual

/-- The leaves of a value in their order: lists are gone through, and objects are looked into for a text. -/
def leaves : Json → List Json
  | .null => []
  | .arr items => leavesOfItems items
  | .obj fields => leavesOfText fields
  | value => [value]

/-- The leaves of several values. -/
def leavesOfItems : List Json → List Json
  | [] => []
  | value :: rest => leaves value ++ leavesOfItems rest

/-- The leaves of the first field with the key `text`. -/
def leavesOfText : List (String × Json) → List Json
  | [] => []
  | (key, value) :: rest => if key = "text" then leaves value else leavesOfText rest

end

/-- The texts of the leaves, trimmed. -/
def leafTexts (value : Json) : List String :=
  value.leaves.map fun leaf => trim leaf.plainText

theorem leavesOfItems_eq (items : List Json) : leavesOfItems items = items.flatMap leaves := by
  induction items with
  | nil => rfl
  | cons value rest ih => rw [leavesOfItems, ih, List.flatMap_cons]

theorem leavesOfText_eq (fields : List (String × Json)) :
    leavesOfText fields = (field (.obj fields) "text").leaves := by
  induction fields with
  | nil => rfl
  | cons entry rest ih =>
    obtain ⟨key, value⟩ := entry
    rw [leavesOfText, ih]
    by_cases hkey : key = "text" <;> simp [field, lookup, hkey]

/-- All items of a list count, -/
theorem leaves_arr (items : List Json) : (arr items).leaves = items.flatMap leaves := by
  rw [leaves, leavesOfItems_eq]

/-- and of an object only the text does. -/
theorem leaves_obj (fields : List (String × Json)) :
    (obj fields).leaves = (field (.obj fields) "text").leaves := by
  rw [leaves, leavesOfText_eq]

/-! ## Joining -/

/-- Texts as paragraphs: empty ones are left out, and there is a blank line between two others. -/
def joined (texts : List String) : String :=
  String.intercalate "\n\n" (texts.filter fun text => !text.isEmpty)

@[simp] theorem joined_nil : joined [] = "" := by
  simp [joined]

@[simp] theorem joined_empty_cons (texts : List String) : joined ("" :: texts) = joined texts := by
  simp [joined]

@[simp] theorem joined_singleton (s : String) : joined [s] = s := by
  by_cases h : s = "" <;> simp [joined, h]

@[simp] theorem joined_concat_empty (s : String) : joined [s, ""] = s := by
  by_cases h : s = "" <;> simp [joined, h]

theorem joined_pair (hs : s ≠ "") (ht : t ≠ "") : joined [s, t] = s ++ "\n\n" ++ t := by
  simp [joined, hs, ht]

theorem joined_eq_empty_iff : joined texts = "" ↔ (texts.filter fun text => !text.isEmpty) = [] := by
  refine ⟨fun h => ?_, fun h => by rw [joined, h, String.intercalate_nil]⟩
  cases hkept : texts.filter fun text => !text.isEmpty with
  | nil => rfl
  | cons first rest =>
    have hfirst : first ≠ "" := by
      have hmem : first ∈ texts.filter fun text => !text.isEmpty := by simp [hkept]
      simpa using (List.mem_filter.1 hmem).2
    rw [joined, hkept] at h
    cases rest with
    | nil => exact absurd (by simpa using h) hfirst
    | cons second rest => simp [String.intercalate_cons_cons] at h

/-- Two runs of texts may be joined by themselves first, -/
theorem joined_append (xs ys : List String) : joined (xs ++ ys) = joined [joined xs, joined ys] := by
  by_cases hxs : joined xs = ""
  · rw [hxs, joined_empty_cons, joined_singleton]
    simp [joined, joined_eq_empty_iff.1 hxs]
  by_cases hys : joined ys = ""
  · rw [hys, joined_concat_empty]
    simp [joined, joined_eq_empty_iff.1 hys]
  rw [joined_pair hxs hys, joined, List.filter_append, String.intercalate_append_of_ne_nil
    (mt joined_eq_empty_iff.2 hxs) (mt joined_eq_empty_iff.2 hys), joined, joined]

theorem joined_cons (text : String) (texts : List String) :
    joined (text :: texts) = joined [text, joined texts] := by
  simpa using joined_append [text] texts

/-- and so may any number of them. -/
theorem joined_flatten (runs : List (List String)) : joined (runs.map joined) = joined runs.flatten := by
  induction runs with
  | nil => rfl
  | cons run rest ih => rw [List.map_cons, joined_cons, ih, List.flatten_cons, joined_append]

theorem trimmed_joined (h : ∀ text ∈ texts, Trimmed text.toList) : Trimmed (joined texts).toList := by
  induction texts with
  | nil => simp; decide
  | cons text rest ih =>
    have hrest : Trimmed (joined rest).toList := ih fun text hmem => h text (by simp [hmem])
    have htext : Trimmed text.toList := h text (by simp)
    rw [joined_cons]
    by_cases hempty : text = ""
    · simpa [hempty] using hrest
    by_cases hnone : joined rest = ""
    · simpa [hnone] using htext
    rw [joined_pair hempty hnone, String.toList_append, String.toList_append]
    exact htext.append_append hrest (by simpa using hempty) (by simpa using hnone) _

/-! ## The text of a value -/

mutual

theorem prose_eq_joined (value : Json) : value.prose = joined value.leafTexts :=
  match value with
  | .null => by simp [prose, leafTexts, leaves]
  | .bool _ | .int _ | .float _ | .str _ => by simp [prose, leafTexts, leaves, plainText]
  | .arr items => by
    rw [prose, paragraphs_eq_map items, leafTexts, leaves, leavesOfItems_eq, List.map_flatMap]
    exact (joined_flatten (items.map leafTexts)).symm ▸ by simp [joined]
  | .obj fields => by
    rw [prose, textField_eq_joined fields, leafTexts, leaves]

theorem paragraphs_eq_map (items : List Json) :
    paragraphs items = (items.map leafTexts).map joined :=
  match items with
  | [] => rfl
  | value :: rest => by
    rw [paragraphs, prose_eq_joined value, paragraphs_eq_map rest, List.map_cons, List.map_cons]

theorem textField_eq_joined (fields : List (String × Json)) :
    textField fields = joined ((leavesOfText fields).map fun leaf => trim leaf.plainText) :=
  match fields with
  | [] => by simp [textField, leavesOfText]
  | (key, value) :: rest => by
    rw [textField, leavesOfText, prose_eq_joined value, textField_eq_joined rest]
    split <;> rfl

end

/-! ## Regrouping -/

/-- Some paragraphs are put into a list of their own, anywhere in a value. -/
inductive Regroups : Json → Json → Prop
  | here (before group after : List Json) :
      Regroups (arr (before ++ group ++ after)) (arr (before ++ [arr group] ++ after))
  | item (before after : List Json) {value value' : Json} (h : Regroups value value') :
      Regroups (arr (before ++ [value] ++ after)) (arr (before ++ [value'] ++ after))
  | field (before after : List (String × Json)) (key : String) {value value' : Json}
      (h : Regroups value value') :
      Regroups (obj (before ++ (key, value) :: after)) (obj (before ++ (key, value') :: after))

theorem leavesOfText_append_congr (before after : List (String × Json)) (key : String)
    (h : value.leaves = value'.leaves) :
    leavesOfText (before ++ (key, value) :: after) = leavesOfText (before ++ (key, value') :: after) := by
  induction before with
  | nil => simp [leavesOfText, h]
  | cons entry rest ih => simp [leavesOfText, ih]

theorem Regroups.leaves_eq (h : Regroups value value') : value'.leaves = value.leaves := by
  induction h with
  | here before group after => simp [leaves_arr]
  | item before after _ ih => simp [leaves_arr, ih]
  | field before after key _ ih => rw [leaves, leaves, leavesOfText_append_congr before after key ih]

theorem leaves_eq_of_eqvGen (h : Relation.EqvGen Regroups value value') : value'.leaves = value.leaves := by
  induction h with
  | rel _ _ h => exact h.leaves_eq
  | refl => rfl
  | symm _ _ _ ih => exact ih.symm
  | trans _ _ _ _ _ ih ih' => exact ih'.trans ih

/-! ## Flattening -/

theorem trimmed_prose (value : Json) : Trimmed value.prose.toList := by
  rw [prose_eq_joined]
  refine trimmed_joined fun text htext => ?_
  obtain ⟨leaf, -, rfl⟩ := List.mem_map.1 htext
  simpa [trim] using trimmed_trimList _

/-- **The text of a value is that of its leaves**: the non-empty ones of their trimmed texts, in their order,
with a blank line between two of them.  So paragraphs may be put into lists of their own, and taken out of
them, at any depth; the text has no blank at either end; and it is its own text. -/
theorem prose_flattens (value : Json) :
    value.prose = String.intercalate "\n\n"
        ((value.leaves.map fun leaf => trim leaf.plainText).filter fun text => !text.isEmpty) ∧
      (∀ other, Relation.EqvGen Regroups value other → other.prose = value.prose) ∧
      Trimmed value.prose.toList ∧ (str value.prose).prose = value.prose := by
  refine ⟨prose_eq_joined value, fun other hother => ?_, trimmed_prose value, ?_⟩
  · rw [prose_eq_joined, prose_eq_joined, leafTexts, leaves_eq_of_eqvGen hother, leafTexts]
  · rw [prose, trim, trimList_eq_self (trimmed_prose value), String.ofList_toList]

/-- Two paragraphs, the second one a wrapped list with an empty item. -/
def twoParagraphs : List Json := [str " Draws. ", obj [("text", arr [str "Twice.\n", null, arr []])]]

/-- Put into a list of their own, they are still two paragraphs of three. -/
theorem prose_flattens_two :
    (arr (twoParagraphs ++ [int 3])).prose = "Draws.\n\nTwice.\n\n3" ∧
      (arr ([arr twoParagraphs] ++ [int 3])).prose = "Draws.\n\nTwice.\n\n3" := by
  have hflat : (arr (twoParagraphs ++ [int 3])).prose = "Draws.\n\nTwice.\n\n3" := by
    rw [(prose_flattens _).1]
    decide +kernel
  have hgroup : Regroups (arr (twoParagraphs ++ [int 3])) (arr ([arr twoParagraphs] ++ [int 3])) :=
    .here [] twoParagraphs [int 3]
  exact ⟨hflat, ((prose_flattens _).2.1 _ (.rel _ _ hgroup)).trans hflat⟩

end Json
end DocForest
