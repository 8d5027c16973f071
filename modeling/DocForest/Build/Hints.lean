import DocForest.StableSort

/-!
# Ordering siblings by hints

A declaration may carry a number by which it is ordered among its siblings.  Marks keep their
places, so that only the declarations of one section change places with each other.

## What is here

* `byHint` — the declarations of one section in the order of their hints; `byHint_eq_append` says that those
  without a hint follow the others.
* `orderedSections` — a list of siblings, section by section.
* `ordered` — the same, where a list without hints is left as it is; `ordered_perm` says that
  nothing is lost.
-/

set_option autoImplicit false

namespace DocForest

variable {α : Type}

/-- What a declaration is ordered by: first whether it has no hint, and then its hint. -/
def hintKey (hint : Option Int) : Bool × Int :=
  (hint.isNone, hint.getD 0)

/-- Whether a key may stand before another: a false one before a true one, and equal ones by their
numbers. -/
def keyLe (key other : Bool × Int) : Bool :=
  (!key.1 && other.1) || (key.1 == other.1 && decide (key.2 ≤ other.2))

/-- The elements in the order of their hints, those without a hint last. -/
def byHint (hint : α → Option Int) (items : List α) : List α :=
  stableSort (fun a b => keyLe (hintKey (hint a)) (hintKey (hint b))) items

theorem byHint_perm (hint : α → Option Int) (items : List α) : (byHint hint items).Perm items :=
  stableSort_perm _ items

/-- **What has a hint is sorted by it, and what has none follows as it stands.** -/
theorem byHint_eq_append (hint : α → Option Int) (items : List α) :
    byHint hint items =
      stableSort (fun a b => decide ((hint a).getD 0 ≤ (hint b).getD 0))
          (items.filter fun a => (hint a).isSome)
        ++ items.filter fun a => (hint a).isNone := by
  induction items with
  | nil => rfl
  | cons x rest ih =>
    -- an element without a hint may precede only what has none, and one with a hint all of that
    have hlast : ∀ y ∈ rest.filter fun a => (hint a).isNone,
        keyLe (hintKey (hint x)) (hintKey (hint y)) = true := fun y hy => by
      have hnone := Option.isNone_iff_eq_none.1 (List.mem_filter.1 hy).2
      rw [hnone]
      cases hint x <;> rfl
    rw [byHint, stableSort, ← byHint, ih, placeAhead_append _ hlast]
    have hfront : ∀ y ∈ stableSort (fun a b => decide ((hint a).getD 0 ≤ (hint b).getD 0))
        (rest.filter fun a => (hint a).isSome), (hint y).isSome = true := fun y hy =>
      (List.mem_filter.1 ((mem_stableSort _).1 hy)).2
    cases hx : hint x with
    | none =>
      rw [placeAhead_eq_concat fun y hy => ?_, List.filter_cons_of_neg (by simp [hx]),
        List.filter_cons_of_pos (by simp [hx]), List.append_assoc]
      · rfl
      · obtain ⟨n, hn⟩ := Option.isSome_iff_exists.1 (hfront y hy)
        rw [hx, hn]
        rfl
    | some n =>
      rw [List.filter_cons_of_pos (by simp [hx]), List.filter_cons_of_neg (by simp [hx]), stableSort]
      refine congrArg (· ++ _) (placeAhead_congr fun y hy => ?_)
      obtain ⟨l, hl⟩ := Option.isSome_iff_exists.1 (hfront y hy)
      rw [hx, hl]
      rfl

/-- The elements ordered by hints between the marks; `pending` is the section so far. -/
def orderedSections (isMark : α → Bool) (hint : α → Option Int) : List α → List α → List α
  | pending, [] => byHint hint pending
  | pending, a :: rest =>
    if isMark a then byHint hint pending ++ a :: orderedSections isMark hint [] rest
    else orderedSections isMark hint (pending ++ [a]) rest

/-- The elements ordered by hints between the marks, if there are hints. -/
def ordered (isMark : α → Bool) (hint : α → Option Int) (items : List α) : List α :=
  if items.any fun a => (hint a).isSome then orderedSections isMark hint [] items else items

theorem orderedSections_perm (isMark : α → Bool) (hint : α → Option Int) (pending items : List α) :
    (orderedSections isMark hint pending items).Perm (pending ++ items) := by
  induction items generalizing pending with
  | nil => simpa [orderedSections] using byHint_perm hint pending
  | cons a rest ih =>
    rw [orderedSections]
    split
    · exact (byHint_perm hint pending).append ((ih []).cons a)
    · simpa using ih (pending ++ [a])

theorem ordered_perm (isMark : α → Bool) (hint : α → Option Int) (items : List α) :
    (ordered isMark hint items).Perm items := by
  unfold ordered
  split
  · simpa using orderedSections_perm isMark hint [] items
  · exact List.Perm.refl _

end DocForest
