/-!
# Stable sorting

## What is here

* `stableSort` — a list in ascending order, where equal elements keep their order.
* `stableSort_perm` — sorting only moves elements.
* `pairwise_stableSort` — the result is ascending, for any order that is total and transitive.
* `stableSort_eq_self` — an ascending list stays as it is.
* `filter_stableSort` — elements each of which may precede the others keep their order.
* `placeAhead_append`, `placeAhead_eq_concat` — where an element is put in a list that has a front part.
-/

set_option autoImplicit false

namespace DocForest

variable {α : Type}

/-- Puts `x` in front of the first element that it may precede. -/
def placeAhead (le : α → α → Bool) (x : α) : List α → List α
  | [] => [x]
  | y :: rest => if le x y then x :: y :: rest else y :: placeAhead le x rest

/-- The list in ascending order, equal elements in the order of the list. -/
def stableSort (le : α → α → Bool) : List α → List α
  | [] => []
  | x :: rest => placeAhead le x (stableSort le rest)

theorem placeAhead_perm (le : α → α → Bool) (x : α) (items : List α) :
    (placeAhead le x items).Perm (x :: items) := by
  induction items with
  | nil => exact .refl _
  | cons y rest ih =>
    by_cases h : le x y
    · simp [placeAhead, h]
    · have hswap : (y :: x :: rest).Perm (x :: y :: rest) := .swap x y rest
      simpa [placeAhead, h] using (List.Perm.cons y ih).trans hswap

theorem stableSort_perm (le : α → α → Bool) (items : List α) :
    (stableSort le items).Perm items := by
  induction items with
  | nil => exact .refl _
  | cons x rest ih =>
    exact (placeAhead_perm le x (stableSort le rest)).trans (ih.cons x)

theorem mem_stableSort (le : α → α → Bool) {x : α} {items : List α} :
    x ∈ stableSort le items ↔ x ∈ items :=
  (stableSort_perm le items).mem_iff

theorem pairwise_placeAhead {le : α → α → Bool} (x : α) {items : List α}
    (htrans : ∀ a b c, le a b → le b c → le a c) (htotal : ∀ a b, le a b || le b a)
    (hitems : items.Pairwise fun a b => le a b) :
    (placeAhead le x items).Pairwise fun a b => le a b := by
  induction items with
  | nil => simp [placeAhead]
  | cons y rest ih =>
    obtain ⟨hy, hrest⟩ := List.pairwise_cons.1 hitems
    by_cases h : le x y
    · simp only [placeAhead, h, if_true, List.pairwise_cons]
      refine ⟨fun z hz => ?_, hy, hrest⟩
      rcases List.mem_cons.1 hz with rfl | hz
      · exact h
      · exact htrans x y z h (hy z hz)
    · have hyx : le y x := by simpa [h] using htotal x y
      simp only [placeAhead, h, Bool.false_eq_true, if_false, List.pairwise_cons]
      refine ⟨fun z hz => ?_, ih hrest⟩
      rcases List.mem_cons.1 ((placeAhead_perm le x rest).mem_iff.1 hz) with rfl | hz
      · exact hyx
      · exact hy z hz

/-- **The result is ascending.** -/
theorem pairwise_stableSort {le : α → α → Bool} (items : List α)
    (htrans : ∀ a b c, le a b → le b c → le a c) (htotal : ∀ a b, le a b || le b a) :
    (stableSort le items).Pairwise fun a b => le a b := by
  induction items with
  | nil => exact .nil
  | cons x rest ih => exact pairwise_placeAhead x htrans htotal ih

theorem stableSort_eq_self {le : α → α → Bool} {items : List α}
    (hitems : items.Pairwise fun a b => le a b) : stableSort le items = items := by
  induction items with
  | nil => rfl
  | cons x rest ih =>
    obtain ⟨hx, hrest⟩ := List.pairwise_cons.1 hitems
    rw [stableSort, ih hrest]
    cases rest with
    | nil => rfl
    | cons y rest => rw [placeAhead, if_pos (hx y List.mem_cons_self)]

theorem filter_placeAhead {le : α → α → Bool} {p : α → Bool} {x : α} {items : List α}
    (h : ∀ y ∈ items, p x → p y → le x y) : (placeAhead le x items).filter p = (x :: items).filter p := by
  induction items with
  | nil => rfl
  | cons y rest ih =>
    rw [List.forall_mem_cons] at h
    rw [placeAhead]
    split
    · rfl
    · next hle =>
      rw [List.filter_cons, ih h.2]
      cases hx : p x with
      | false => simp [List.filter_cons, hx]
      | true =>
        have hy : ¬p y = true := fun hy => hle (h.1 hx hy)
        simp [hx, hy]

/-- **Elements each of which may precede the others keep their order.** -/
theorem filter_stableSort {le : α → α → Bool} {p : α → Bool} (items : List α)
    (h : ∀ x y, p x → p y → le x y) : (stableSort le items).filter p = items.filter p := by
  induction items with
  | nil => rfl
  | cons x rest ih =>
    rw [stableSort, filter_placeAhead fun y _ => h x y, List.filter_cons, List.filter_cons, ih]

theorem placeAhead_append {le : α → α → Bool} {x : α} {back : List α} (front : List α)
    (h : ∀ y ∈ back, le x y) : placeAhead le x (front ++ back) = placeAhead le x front ++ back := by
  induction front with
  | nil =>
    cases back with
    | nil => rfl
    | cons y rest => exact if_pos (h y List.mem_cons_self)
  | cons y rest ih =>
    rw [List.cons_append, placeAhead, placeAhead, ih]
    split <;> rfl

theorem placeAhead_eq_concat {le : α → α → Bool} {x : α} {items : List α}
    (h : ∀ y ∈ items, le x y = false) : placeAhead le x items = items ++ [x] := by
  induction items with
  | nil => rfl
  | cons y rest ih =>
    obtain ⟨hy, hrest⟩ := List.forall_mem_cons.1 h
    rw [placeAhead, hy, ih hrest]
    rfl

theorem placeAhead_congr {le le' : α → α → Bool} {x : α} {items : List α}
    (h : ∀ y ∈ items, le x y = le' x y) : placeAhead le x items = placeAhead le' x items := by
  induction items with
  | nil => rfl
  | cons y rest ih =>
    obtain ⟨hy, hrest⟩ := List.forall_mem_cons.1 h
    rw [placeAhead, placeAhead, hy, ih hrest]

end DocForest
