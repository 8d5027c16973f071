import DocForest.Build.Hints
import DocForest.Layout.Prune
import DocForest.Proofs.Descent
import Mathlib.Data.List.Sort
import Mathlib.Order.Monotone.Basic

/-!
# Lists under new numbers

What is done to lists of nodes looks at the nodes through tests, hints and links only.  So it does the
same to the nodes under new numbers, as long as tests, hints and links agree.

## What is here

* `iff_of_forall_iff_exists`, `eq_map_of_mem_iff`, `filter_range_map` — what holds of new numbers, and
  ascending numbers under new ones that keep their order.
* `filterMap_range_map` — what is found for numbers, under new ones.
* `stableSort_map`, `byHint_map`, `ordered_map` — siblings in the order of their hints.
* `dropEmptySections_map` — siblings without the marks that head no section.
* `climb_map`, `below_map` — the ways up and down along links.
-/

set_option autoImplicit false

namespace DocForest

section Lists

variable {α β : Type}

/-- What holds of new numbers only, and of those of the numbers of which something else holds. -/
theorem iff_of_forall_iff_exists {e : Nat → Nat} (he : Function.Injective e) {P Q : Nat → Prop}
    (h : ∀ j, P j ↔ ∃ i, Q i ∧ e i = j) (i : Nat) : P (e i) ↔ Q i := by
  rw [h]
  exact ⟨fun ⟨k, hk, heq⟩ => he heq ▸ hk, fun hi => ⟨i, hi, rfl⟩⟩

/-- **Ascending numbers are others under new numbers** if all of them are new numbers, of the others, and
these keep their order. -/
theorem eq_map_of_mem_iff {e : Nat → Nat} {items others : List Nat}
    (hmono : ∀ i ∈ others, ∀ j ∈ others, i < j → e i < e j) (hitems : items.Pairwise (· < ·))
    (hothers : others.Pairwise (· < ·)) (hrange : ∀ j ∈ items, ∃ i, e i = j)
    (hmem : ∀ i, e i ∈ items ↔ i ∈ others) : items = others.map e := by
  have hmap : (others.map e).Pairwise (· < ·) :=
    List.pairwise_map.2 (hothers.imp_of_mem fun hi hj hlt => hmono _ hi _ hj hlt)
  refine hitems.eq_of_mem_iff hmap fun j => ?_
  rw [List.mem_map]
  constructor
  · intro hj
    obtain ⟨i, rfl⟩ := hrange j hj
    exact ⟨i, (hmem i).1 hj, rfl⟩
  · rintro ⟨i, hi, rfl⟩
    exact (hmem i).2 hi

/-- Numbers below a bound that pass a test, if they are those of another bound and test under new
numbers. -/
theorem filter_range_map {e : Nat → Nat} {m n : Nat} {p q : Nat → Bool}
    (hmono : ∀ i j, p i = true → p j = true → i < j → e i < e j)
    (hrange : ∀ j < n, q j = true → ∃ i, e i = j)
    (hmem : ∀ i, (e i < n ∧ q (e i) = true) ↔ (i < m ∧ p i = true)) :
    (List.range n).filter q = ((List.range m).filter p).map e := by
  refine eq_map_of_mem_iff (fun i hi j hj => hmono i j (List.mem_filter.1 hi).2 (List.mem_filter.1 hj).2)
    (List.pairwise_lt_range.filter q) (List.pairwise_lt_range.filter p) (fun j hj => ?_) fun i => ?_
  · obtain ⟨hlt, hq⟩ := List.mem_filter.1 hj
    exact hrange j (List.mem_range.1 hlt) hq
  · simp only [List.mem_filter, List.mem_range]
    exact hmem i

/-- What is found for numbers below a bound, if it is the same for those of another bound. -/
theorem filterMap_range_map {e : Nat → Nat} (he : StrictMono e) {m n : Nat} {found found' : Nat → Option β}
    (hbound : ∀ i, e i < n ↔ i < m) (hfound : ∀ i, found' (e i) = found i)
    (hothers : ∀ j, (∀ i, e i ≠ j) → found' j = none) :
    (List.range n).filterMap (fun j => (found' j).map fun b => (j, b)) =
      ((List.range m).filterMap fun i => (found i).map fun b => (i, b)).map
        fun entry => (e entry.1, entry.2) := by
  have hsome : ∀ (found : Nat → Option β) (items : List Nat),
      items.filterMap (fun i => (found i).map fun b => (i, b)) =
        (items.filter fun i => (found i).isSome).filterMap fun i => (found i).map fun b => (i, b) := by
    intro found items
    rw [List.filterMap_filter]
    refine List.filterMap_congr fun i _ => ?_
    cases found i <;> rfl
  have hplaces : (List.range n).filter (fun j => (found' j).isSome) =
      ((List.range m).filter fun i => (found i).isSome).map e := by
    refine filter_range_map (fun _ _ _ _ hlt => he hlt) (fun j _ hj => ?_)
      fun i => by rw [hbound, hfound]
    by_contra hrange
    rw [hothers j (not_exists.1 hrange)] at hj
    cases hj
  rw [hsome found' (List.range n), hplaces, hsome found (List.range m), List.filterMap_map,
    List.map_filterMap]
  refine List.filterMap_congr fun i _ => ?_
  rw [Function.comp_apply, hfound, Option.map_map]
  rfl

/-! ## Hints -/

theorem placeAhead_map (f : α → β) (le : β → β → Bool) (x : α) (items : List α) :
    placeAhead le (f x) (items.map f) = (placeAhead (fun a b => le (f a) (f b)) x items).map f := by
  induction items with
  | nil => rfl
  | cons y rest ih =>
    rw [List.map_cons, placeAhead, placeAhead, ih]
    split <;> rfl

theorem stableSort_map (f : α → β) (le : β → β → Bool) (items : List α) :
    stableSort le (items.map f) = (stableSort (fun a b => le (f a) (f b)) items).map f := by
  induction items with
  | nil => rfl
  | cons x rest ih => rw [List.map_cons, stableSort, stableSort, ih, placeAhead_map]

theorem byHint_map (f : α → β) (hint : β → Option Int) (items : List α) :
    byHint hint (items.map f) = (byHint (fun a => hint (f a)) items).map f :=
  stableSort_map f _ items

theorem orderedSections_map (f : α → β) (isMark : β → Bool) (hint : β → Option Int)
    (pending items : List α) :
    orderedSections isMark hint (pending.map f) (items.map f) =
      (orderedSections (fun a => isMark (f a)) (fun a => hint (f a)) pending items).map f := by
  induction items generalizing pending with
  | nil => exact byHint_map f hint pending
  | cons a rest ih =>
    have hnil := ih []
    have hpending := ih (pending ++ [a])
    rw [List.map_nil] at hnil
    rw [List.map_append, List.map_singleton] at hpending
    rw [List.map_cons, orderedSections, orderedSections, hnil, hpending, byHint_map]
    split <;> simp

/-- **Siblings under new numbers are ordered as before.** -/
theorem ordered_map (f : α → β) (isMark : β → Bool) (hint : β → Option Int) (items : List α) :
    ordered isMark hint (items.map f) =
      (ordered (fun a => isMark (f a)) (fun a => hint (f a)) items).map f := by
  have hsections := orderedSections_map f isMark hint [] items
  rw [List.map_nil] at hsections
  rw [ordered, ordered, hsections, List.any_map]
  simp only [Function.comp_def]
  split <;> rfl

end Lists

/-! ## Marks -/

theorem dropEmptySectionsFrom_map (e : Nat → Nat) (isMark : Nat → Bool) (siblings : List Nat) :
    dropEmptySectionsFrom isMark (siblings.map e) =
      ((dropEmptySectionsFrom (fun i => isMark (e i)) siblings).1.map e,
        (dropEmptySectionsFrom (fun i => isMark (e i)) siblings).2) := by
  induction siblings with
  | nil => rfl
  | cons i rest ih =>
    simp only [List.map_cons, dropEmptySectionsFrom, ih]
    split
    · split <;> rfl
    · rfl

/-- **The same marks head empty sections under new numbers.** -/
theorem dropEmptySections_map (e : Nat → Nat) (isMark : Nat → Bool) (siblings : List Nat) :
    dropEmptySections isMark (siblings.map e) =
      (dropEmptySections (fun i => isMark (e i)) siblings).map e :=
  congrArg Prod.fst (dropEmptySectionsFrom_map e isMark siblings)

theorem dropEmptySections_of_no_mark {isMark : Nat → Bool} {siblings : List Nat}
    (h : ∀ i ∈ siblings, isMark i = false) : dropEmptySections isMark siblings = siblings := by
  unfold dropEmptySections
  induction siblings with
  | nil => rfl
  | cons i rest ih =>
    obtain ⟨hi, hrest⟩ := List.forall_mem_cons.1 h
    simp only [dropEmptySectionsFrom, hi, Bool.false_eq_true, if_false, ih hrest]

/-! ## Links -/

section Links

variable {e : Nat → Nat} {parent parent' : Nat → Option Nat} {children children' : Nat → List Nat}
  {starts : List Nat} {i j : Nat}

/-- **The way up under new numbers.** -/
theorem climb_map (h : ∀ i, parent' (e i) = (parent i).map e) (steps i : Nat) :
    climb parent' steps (e i) = (climb parent steps i).map e := by
  induction steps generalizing i with
  | zero => rfl
  | succ steps ih =>
    rw [climb, climb, h]
    cases parent i with
    | none => rfl
    | some p => exact congrArg (e i :: ·) (ih p)

/-- **The ways down under new numbers**, if the links agree as far as they are followed. -/
theorem below_map (h : ∀ i, Below children starts i → children' (e i) = (children i).map e) :
    Below children' (starts.map e) j ↔ ∃ i, Below children starts i ∧ e i = j := by
  constructor
  · intro hj
    induction hj with
    | start hj =>
      obtain ⟨i, hi, rfl⟩ := List.mem_map.1 hj
      exact ⟨i, .start hi, rfl⟩
    | child _ hj ih =>
      obtain ⟨p, hp, rfl⟩ := ih
      rw [h p hp] at hj
      obtain ⟨i, hi, rfl⟩ := List.mem_map.1 hj
      exact ⟨i, .child hp hi, rfl⟩
  · rintro ⟨i, hi, rfl⟩
    induction hi with
    | start hi => exact .start (List.mem_map_of_mem hi)
    | child hp hi ih =>
      refine .child ih ?_
      rw [h _ hp]
      exact List.mem_map_of_mem hi

end Links

end DocForest
