import DocForest.Text.Blank
import Mathlib.Data.List.DropRight

/-!
# Trimmed texts

Trimming leaves a text that has no blank at either end, and it leaves such a text as it is.

## What is here

* `Text.Trimmed` — a text with no blank at either end.
* `trimmed_trimList`, `trimList_eq_self` — **trimming makes a text trimmed, and does nothing else.**
* `exists_trimmed_off`, `trimEndOf_append_cons` — what is cut off at the end, and what stands in front of it.
-/

set_option autoImplicit false

namespace DocForest
namespace Text

variable {p : Char → Bool} {s t : List Char} {c : Char}

/-- A text with no blank at either end. -/
structure Trimmed (s : List Char) : Prop where
  head : ∀ c ∈ s.head?, isBlank c = false
  last : ∀ c ∈ s.getLast?, isBlank c = false

instance : Decidable (Trimmed s) :=
  decidable_of_iff ((s.head?.all fun c => !isBlank c) = true ∧ (s.getLast?.all fun c => !isBlank c) = true) <| by
    simp only [Option.all_eq_true, Bool.not_eq_true']
    exact ⟨fun h => ⟨h.1, h.2⟩, fun h => ⟨h.head, h.last⟩⟩

theorem dropWhile_eq_self (h : ∀ c ∈ s.head?, p c = false) : s.dropWhile p = s := by
  cases s with
  | nil => rfl
  | cons c rest => exact List.dropWhile_cons_of_neg (Bool.eq_false_iff.1 (h c rfl))

theorem head?_dropWhile (p : Char → Bool) (s : List Char) : ∀ c ∈ (s.dropWhile p).head?, p c = false := by
  intro c hc
  have hnot := List.head?_dropWhile_not p s
  rwa [Option.mem_def.1 hc] at hnot

/-! ## The end -/

theorem getLast?_trimEndOf (p : Char → Bool) (s : List Char) :
    ∀ c ∈ (trimEndOf p s).getLast?, p c = false := by
  rw [trimEndOf, List.getLast?_reverse]
  exact head?_dropWhile p s.reverse

theorem exists_trimmed_off (p : Char → Bool) (s : List Char) :
    ∃ blanks, (∀ c ∈ blanks, p c = true) ∧ s = trimEndOf p s ++ blanks :=
  ⟨s.rtakeWhile p, fun _ => List.mem_rtakeWhile_imp, List.rdropWhile_append_rtakeWhile.symm⟩

theorem trimEndOf_append_cons (hc : p c = false) (s t : List Char) :
    trimEndOf p (s ++ c :: t) = s ++ c :: trimEndOf p t := by
  have hcut : ((s ++ c :: t).reverse).dropWhile p = t.reverse.dropWhile p ++ c :: s.reverse := by
    rw [List.reverse_append, List.reverse_cons, List.append_assoc, List.singleton_append,
      List.dropWhile_append]
    split
    · next hnone =>
      rw [List.isEmpty_iff.1 hnone, List.nil_append, List.dropWhile_cons_of_neg (Bool.eq_false_iff.1 hc)]
    · rfl
  rw [trimEndOf, hcut, List.reverse_append, List.reverse_cons, List.reverse_reverse, List.append_assoc,
    List.singleton_append, trimEndOf]

theorem trimEndOf_eq_self (hlast : ∀ c ∈ s.getLast?, p c = false) : trimEndOf p s = s := by
  rw [trimEndOf, dropWhile_eq_self (List.head?_reverse ▸ hlast), List.reverse_reverse]

/-! ## Both ends -/

theorem trimmed_trimList (s : List Char) : Trimmed (trimList s) where
  head c hc := by
    obtain ⟨blanks, -, heq⟩ := exists_trimmed_off isBlank (s.dropWhile isBlank)
    refine head?_dropWhile isBlank s c ?_
    rw [heq]
    exact List.mem_head?_append_of_mem_head? hc
  last := getLast?_trimEndOf isBlank (s.dropWhile isBlank)

theorem trimList_eq_self (h : Trimmed s) : trimList s = s := by
  rw [trimList, trimBothOf, dropWhile_eq_self h.head, trimEndOf_eq_self h.last]

theorem trimList_blank_cons (hc : isBlank c = true) (s : List Char) : trimList (c :: s) = trimList s := by
  rw [trimList, trimBothOf, List.dropWhile_cons_of_pos hc]
  rfl

/-- What stands between two trimmed texts does not matter. -/
theorem Trimmed.append_append (hs : Trimmed s) (ht : Trimmed t) (hsne : s ≠ []) (htne : t ≠ [])
    (between : List Char) : Trimmed (s ++ between ++ t) where
  head c hc := by
    rw [List.append_assoc, List.head?_append_of_ne_nil _ hsne] at hc
    exact hs.head c hc
  last c hc := by
    rw [List.getLast?_append_of_ne_nil _ htne] at hc
    exact ht.last c hc

end Text
end DocForest
