import DocForest.Build.Hints
import Mathlib.Data.List.Nodup
import Mathlib.Data.List.Sort

/-!
# What hints move

Two siblings change places only for their hints.  If the second one comes ahead of the first in the end, it
has a hint, and the first one has none or a greater one.  No mark stands between them, since **a mark is
never passed**.

The order of two elements of a list is the statement that they form a sublist, `[x, y].Sublist items`.

## What is here

* `pair_sublist_append`, `not_pair_sublist_swap` — two elements of a list in their order.
* `stableSort_eq_insertionSort` — the sort is that of Mathlib, from which its stability is taken.
* `Ahead`, `pair_sublist_ordered` — two elements keep their order if no hint says otherwise.
* `pair_sublist_ordered_of_mark` — and if a mark stands between them.
* `ahead_of_ordered` — **what is known of two elements that change places.**
-/

set_option autoImplicit false

namespace DocForest

variable {α : Type} {isMark : α → Bool} {hint : α → Option Int} {items front back pending : List α}
  {x y m : α}

/-! ## Two elements in their order -/

theorem pair_sublist_append :
    [x, y].Sublist (front ++ back) ↔
      [x, y].Sublist front ∨ x ∈ front ∧ y ∈ back ∨ [x, y].Sublist back := by
  constructor
  · intro h
    obtain ⟨first, second, heq, hfirst, hsecond⟩ := List.sublist_append_iff.1 h
    match first, second, heq with
    | [], _, rfl => exact .inr (.inr hsecond)
    | [_], [_], rfl => exact .inr (.inl ⟨List.singleton_sublist.1 hfirst, List.singleton_sublist.1 hsecond⟩)
    | [_, _], [], rfl => exact .inl hfirst
  · rintro (h | ⟨hx, hy⟩ | h)
    · exact h.trans (List.sublist_append_left _ _)
    · exact (List.singleton_sublist.2 hx).append (List.singleton_sublist.2 hy)
    · exact h.trans (List.sublist_append_right _ _)

theorem pair_sublist_cons {a : α} : [x, y].Sublist (a :: back) ↔ x = a ∧ y ∈ back ∨ [x, y].Sublist back := by
  have hnot : ¬[x, y].Sublist [a] := fun h => absurd h.length_le (by simp)
  rw [← List.singleton_append (l := back), pair_sublist_append, List.mem_singleton, or_iff_right hnot]

theorem mem_front_of_pair_sublist (hnodup : (front ++ y :: back).Nodup)
    (h : [x, y].Sublist (front ++ y :: back)) : x ∈ front := by
  obtain ⟨-, hback, hdisjoint⟩ := List.nodup_append.1 hnodup
  rcases pair_sublist_append.1 h with h | ⟨hx, -⟩ | h
  · exact absurd rfl (hdisjoint y (h.subset (by simp)) y List.mem_cons_self)
  · exact hx
  · have hy : y ∈ back := List.singleton_sublist.1 h.tail
    exact absurd hy (List.nodup_cons.1 hback).1

theorem not_pair_sublist_swap (hnodup : items.Nodup) (h : [x, y].Sublist items) :
    ¬[y, x].Sublist items := by
  intro hswap
  obtain ⟨front, back, rfl⟩ := List.append_of_mem (h.subset (by simp : y ∈ [x, y]))
  have hx := mem_front_of_pair_sublist hnodup h
  obtain ⟨-, -, hdisjoint⟩ := List.nodup_append.1 hnodup
  rcases pair_sublist_append.1 hswap with hswap | ⟨hy, -⟩ | hswap
  · exact hdisjoint y (hswap.subset (by simp)) y List.mem_cons_self rfl
  · exact hdisjoint y hy y List.mem_cons_self rfl
  · have hback : x ∈ back := List.singleton_sublist.1 hswap.tail
    exact hdisjoint x hx x (List.mem_cons_of_mem _ hback) rfl

/-! ## Sorting -/

theorem placeAhead_eq_orderedInsert (le : α → α → Bool) (x : α) (items : List α) :
    placeAhead le x items = items.orderedInsert (fun a b => le a b = true) x := by
  induction items with
  | nil => rfl
  | cons y rest ih => rw [placeAhead, List.orderedInsert_cons, ih]

/-- **The sort is insertion sort.** -/
theorem stableSort_eq_insertionSort (le : α → α → Bool) (items : List α) :
    stableSort le items = items.insertionSort fun a b => le a b = true := by
  induction items with
  | nil => rfl
  | cons x rest ih => rw [stableSort, placeAhead_eq_orderedInsert, ih, List.insertionSort_cons]

/-- An element that comes ahead of another one by their hints. -/
def Ahead (hint : α → Option Int) (a b : α) : Prop :=
  ∃ k, hint a = some k ∧ ∀ l, hint b = some l → k < l

theorem keyLe_of_not_ahead (h : ¬Ahead hint y x) : keyLe (hintKey (hint x)) (hintKey (hint y)) = true := by
  cases hy : hint y with
  | none => cases hint x <;> rfl
  | some k =>
    cases hx : hint x with
    | none => exact absurd ⟨k, hy, fun l hl => absurd (hl.symm.trans hx) (Option.some_ne_none l)⟩ h
    | some l =>
      have hle : l ≤ k := Int.not_lt.1 fun hlt =>
        h ⟨k, hy, fun l' hl' => Option.some.inj (hx.symm.trans hl') ▸ hlt⟩
      exact decide_eq_true hle

/-- Within a section two elements keep their order unless the second one comes ahead. -/
theorem pair_sublist_byHint (h : [x, y].Sublist items) (hahead : ¬Ahead hint y x) :
    [x, y].Sublist (byHint hint items) := by
  rw [byHint, stableSort_eq_insertionSort]
  exact List.pair_sublist_insertionSort (keyLe_of_not_ahead hahead) h

/-! ## Sections -/

theorem mem_orderedSections {pending : List α} :
    x ∈ orderedSections isMark hint pending items ↔ x ∈ pending ∨ x ∈ items := by
  rw [(orderedSections_perm isMark hint pending items).mem_iff, List.mem_append]

/-- In any number of sections, too. -/
theorem pair_sublist_orderedSections (h : [x, y].Sublist (pending ++ items)) (hahead : ¬Ahead hint y x) :
    [x, y].Sublist (orderedSections isMark hint pending items) := by
  induction items generalizing pending with
  | nil =>
    rw [List.append_nil] at h
    exact pair_sublist_byHint h hahead
  | cons a rest ih =>
    rw [orderedSections]
    split
    · -- the mark stays between what stands in front of it and what stands behind it
      have hrest : ∀ {z}, z ∈ rest → z ∈ orderedSections isMark hint [] rest := fun hz =>
        mem_orderedSections.2 (.inr hz)
      rw [pair_sublist_append, pair_sublist_cons] at h ⊢
      rcases h with h | ⟨hx, hy⟩ | ⟨rfl, hy⟩ | h
      · exact .inl (pair_sublist_byHint h hahead)
      · refine .inr (.inl ⟨(byHint_perm hint pending).mem_iff.2 hx, ?_⟩)
        exact List.mem_cons.2 ((List.mem_cons.1 hy).imp_right hrest)
      · exact .inr (.inr (.inl ⟨rfl, hrest hy⟩))
      · exact .inr (.inr (.inr (ih h)))
    · exact ih (by rwa [List.append_assoc])

/-- What stands in front of a mark is ordered by itself, and so is what stands behind it. -/
theorem orderedSections_append_mark (hm : isMark m = true) :
    orderedSections isMark hint pending (front ++ m :: back) =
      orderedSections isMark hint pending front ++ m :: orderedSections isMark hint [] back := by
  induction front generalizing pending with
  | nil =>
    rw [List.nil_append, orderedSections, orderedSections]
    exact if_pos hm
  | cons a rest ih =>
    rw [List.cons_append, orderedSections, orderedSections]
    split
    · rw [ih, List.append_assoc, List.cons_append]
    · exact ih

/-- Two elements keep their order unless the second one comes ahead. -/
theorem pair_sublist_ordered (h : [x, y].Sublist items) (hahead : ¬Ahead hint y x) :
    [x, y].Sublist (ordered isMark hint items) := by
  rw [ordered]
  split
  · exact pair_sublist_orderedSections h hahead
  · exact h

/-- They keep it if a mark stands between them. -/
theorem pair_sublist_ordered_of_mark (hm : isMark m = true) (hx : x ∈ front) (hy : y ∈ back) :
    [x, y].Sublist (ordered isMark hint (front ++ m :: back)) := by
  have hback : y ∈ m :: back := List.mem_cons_of_mem _ hy
  rw [ordered]
  split
  · rw [orderedSections_append_mark hm, pair_sublist_append, List.mem_cons, mem_orderedSections,
      mem_orderedSections]
    exact .inr (.inl ⟨.inr hx, .inr (.inr hy)⟩)
  · exact pair_sublist_append.2 (.inr (.inl ⟨hx, hback⟩))

/-- **If two elements change places, the second one comes ahead by its hint, and there is no mark between
them.** -/
theorem ahead_of_ordered (hnodup : items.Nodup) (h : [x, y].Sublist items)
    (hswap : [y, x].Sublist (ordered isMark hint items)) :
    Ahead hint y x ∧ ∀ front between back, items = front ++ between ++ y :: back → x ∈ front →
      ∀ m ∈ between, isMark m = false := by
  have hstays : ¬[x, y].Sublist (ordered isMark hint items) := fun hstay =>
    not_pair_sublist_swap ((ordered_perm isMark hint items).nodup_iff.2 hnodup) hstay hswap
  refine ⟨by_contra fun hahead => hstays (pair_sublist_ordered h hahead), ?_⟩
  rintro front between back rfl hx m hm
  obtain ⟨left, right, rfl⟩ := List.append_of_mem hm
  refine Bool.eq_false_iff.2 fun hmark => hstays ?_
  have hsplit : front ++ (left ++ m :: right) ++ y :: back =
      (front ++ left) ++ m :: (right ++ y :: back) := by
    simp only [List.append_assoc, List.cons_append]
  rw [hsplit]
  exact pair_sublist_ordered_of_mark hmark (List.mem_append_left _ hx) (by simp)

end DocForest
