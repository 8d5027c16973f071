import DocForest.Build.Nesting
import DocForest.Forest.Lemmas
import Mathlib.Data.List.Nodup
import Mathlib.Data.List.Perm.Subperm
import Mathlib.Logic.Relation

/-!
# Climbing up from a node

`climb` follows a link from node to node through a number of steps.  This file says what it finds
if the number of steps is large enough, and when that is.

## What is here

* `Up` — one step; `Relation.ReflTransGen (Up parent)` is any number of them, and a node `i` with
  `Relation.TransGen (Up parent) i i` stands on a loop.
* `Ends` — the chain above a node ends.
* `mem_climb_iff` — a chain that is not cut off contains all that is above its node.
* `ends_of_no_loop` — among finitely many nodes, **a chain that meets no loop ends**.
* `Forest.checkNesting_eq_ok` — the check of the nesting succeeds exactly if no node stands on a
  loop.
* `Forest.Nested` — all containers exist and end; `Nested.namespaceAncestors_of_codeParent?`,
  `Nested.checkedPath_eq` — paths are then complete.
-/

set_option autoImplicit false

namespace DocForest

open Relation

variable {parent : Nat → Option Nat} {i j : Nat}

/-- One step up. -/
def Up (parent : Nat → Option Nat) (i p : Nat) : Prop :=
  parent i = some p

/-- The chain above a node ends. -/
inductive Ends (parent : Nat → Option Nat) : Nat → Prop
  | top {i : Nat} (h : parent i = none) : Ends parent i
  | step {i p : Nat} (h : parent i = some p) (hp : Ends parent p) : Ends parent i

/-! ## Loops -/

/-- There is only one way up: whatever is above a node is above its parent, or is the parent. -/
theorem Up.of_transGen {p : Nat} (hp : Up parent i p) (h : TransGen (Up parent) i j) :
    ReflTransGen (Up parent) p j := by
  obtain ⟨q, hq, hqj⟩ := TransGen.head'_iff.1 h
  obtain rfl : p = q := Option.some.inj (hp.symm.trans hq)
  exact hqj

theorem Up.loop {p : Nat} (hp : Up parent i p) (h : TransGen (Up parent) i i) :
    TransGen (Up parent) p p :=
  TransGen.tail' (hp.of_transGen h) hp

/-- A node whose chain ends stands on no loop. -/
theorem Ends.no_loop (h : Ends parent i) : ¬TransGen (Up parent) i i := by
  induction h with
  | top h =>
    intro hloop
    obtain ⟨p, hp, -⟩ := TransGen.head'_iff.1 hloop
    exact Option.some_ne_none p (hp.symm.trans h)
  | step h _ ih => exact fun hloop => ih (Up.loop h hloop)

theorem Ends.tail {p : Nat} (h : Ends parent i) (hp : parent i = some p) : Ends parent p := by
  cases h with
  | top hnone => exact absurd (hp.symm.trans hnone) (Option.some_ne_none p)
  | step hq hends => exact Option.some.inj (hp.symm.trans hq) ▸ hends

theorem Ends.of_above (h : Ends parent i) (hj : ReflTransGen (Up parent) i j) : Ends parent j := by
  induction hj with
  | refl => exact h
  | tail _ hp ih => exact ih.tail hp

theorem Ends.of_below (h : Ends parent j) (hj : ReflTransGen (Up parent) i j) : Ends parent i := by
  induction hj using ReflTransGen.head_induction_on with
  | refl => exact h
  | head hp _ ih => exact .step hp ih

theorem Ends.exists_last (h : Ends parent i) : ∃ j, ReflTransGen (Up parent) i j ∧ parent j = none := by
  induction h with
  | top hnone => exact ⟨_, .refl, hnone⟩
  | step hp _ ih =>
    obtain ⟨j, hj, hnone⟩ := ih
    exact ⟨j, .head hp hj, hnone⟩

/-- **A chain ends if something becomes less on it from link to link.** -/
theorem ends_of_decreasing (measure : Nat → Nat)
    (h : ∀ i p, parent i = some p → measure p < measure i) (i : Nat) : Ends parent i := by
  induction hn : measure i using Nat.strongRecOn generalizing i with
  | _ n ih =>
    cases hp : parent i with
    | none => exact .top hp
    | some p => exact .step hp (ih _ (hn ▸ h i p hp) p rfl)

/-! ## Chains that are followed far enough -/

theorem above_of_mem_climb {steps : Nat} (h : j ∈ climb parent steps i) :
    ReflTransGen (Up parent) i j := by
  induction steps generalizing i with
  | zero => rw [List.mem_singleton.1 h]
  | succ steps ih =>
    rw [climb] at h
    cases hp : parent i with
    | none =>
      rw [hp] at h
      rw [List.mem_singleton.1 h]
    | some p =>
      rw [hp] at h
      rcases List.mem_cons.1 h with rfl | h
      · exact .refl
      · exact .head hp (ih h)

/-- **A chain with fewer links than were allowed contains all that is above its node.** -/
theorem mem_climb_iff {steps : Nat} (h : (climb parent steps i).length ≤ steps) :
    j ∈ climb parent steps i ↔ ReflTransGen (Up parent) i j := by
  refine ⟨above_of_mem_climb, fun hj => ?_⟩
  induction steps generalizing i with
  | zero => simp [climb] at h
  | succ steps ih =>
    rw [climb] at h ⊢
    cases hp : parent i with
    | none =>
      rcases hj.cases_head with rfl | ⟨p, hp', -⟩
      · exact List.mem_cons_self
      · exact absurd (hp'.symm.trans hp) (Option.some_ne_none p)
    | some p =>
      rw [hp] at h
      rcases hj.cases_head with rfl | ⟨q, hq, hqj⟩
      · exact List.mem_cons_self
      · obtain rfl : p = q := Option.some.inj (hp.symm.trans hq)
        exact List.mem_cons_of_mem _ (ih (Nat.le_of_succ_le_succ h) hqj)

theorem ends_of_length_climb {steps : Nat} (h : (climb parent steps i).length ≤ steps) :
    Ends parent i := by
  induction steps generalizing i with
  | zero => simp [climb] at h
  | succ steps ih =>
    rw [climb] at h
    cases hp : parent i with
    | none => exact .top hp
    | some p =>
      rw [hp] at h
      exact .step hp (ih (Nat.le_of_succ_le_succ h))

theorem climb_of_length_le {steps steps' : Nat} (h : (climb parent steps i).length ≤ steps)
    (hle : steps ≤ steps') : climb parent steps' i = climb parent steps i := by
  induction steps generalizing i steps' with
  | zero => simp [climb] at h
  | succ steps ih =>
    obtain ⟨more, rfl⟩ : ∃ more, steps' = more + 1 := ⟨steps' - 1, by omega⟩
    rw [climb] at h ⊢
    rw [climb]
    cases hp : parent i with
    | none => rfl
    | some p =>
      rw [hp] at h
      exact congrArg (i :: ·) (ih (Nat.le_of_succ_le_succ h) (Nat.le_of_succ_le_succ hle))

/-- A chain that is cut off has all its links. -/
theorem length_climb_of_loop (h : TransGen (Up parent) i i) (steps : Nat) :
    (climb parent steps i).length = steps + 1 := by
  induction steps generalizing i with
  | zero => rfl
  | succ steps ih =>
    obtain ⟨p, hp, -⟩ := TransGen.head'_iff.1 h
    have hp' : parent i = some p := hp
    rw [climb, hp', List.length_cons, ih (Up.loop hp h)]

/-- Without loops no chain meets a node twice. -/
theorem nodup_climb (h : ∀ j, ReflTransGen (Up parent) i j → ¬TransGen (Up parent) j j)
    (steps : Nat) : (climb parent steps i).Nodup := by
  induction steps generalizing i with
  | zero => exact List.nodup_singleton _
  | succ steps ih =>
    rw [climb]
    cases hp : parent i with
    | none => exact List.nodup_singleton _
    | some p =>
      refine List.nodup_cons.2 ⟨fun hmem => ?_, ih fun j hj => h j (.head hp hj)⟩
      exact h i .refl (TransGen.head' hp (above_of_mem_climb hmem))

theorem lt_of_mem_climb {size steps : Nat} (hlt : ∀ i p, parent i = some p → p < size)
    (hi : i < size) (hj : j ∈ climb parent steps i) : j < size := by
  rcases (above_of_mem_climb hj).cases_tail with rfl | ⟨p, -, hp⟩
  · exact hi
  · exact hlt p j hp

/-- A chain without repetition has at most as many links as there are nodes. -/
theorem length_climb_le {size steps : Nat} (hlt : ∀ i p, parent i = some p → p < size)
    (hi : i < size) (hnodup : (climb parent steps i).Nodup) :
    (climb parent steps i).length ≤ size := by
  have hsub : climb parent steps i ⊆ List.range size :=
    fun j hj => List.mem_range.2 (lt_of_mem_climb hlt hi hj)
  simpa using (hnodup.subperm hsub).length_le

/-- **Among finitely many nodes a chain that meets no loop ends.** -/
theorem ends_of_no_loop {size : Nat} (hlt : ∀ i p, parent i = some p → p < size)
    (hi : i < size) (h : ∀ j, ReflTransGen (Up parent) i j → ¬TransGen (Up parent) j j) :
    Ends parent i :=
  ends_of_length_climb (length_climb_le hlt hi (nodup_climb h size))

/-! ## The check of the nesting -/

theorem firstRepeated?_eq_none (seen items : List Nat) :
    firstRepeated? seen items = none ↔ items.Nodup ∧ ∀ i ∈ items, i ∉ seen := by
  induction items generalizing seen with
  | nil => simp [firstRepeated?]
  | cons i rest ih =>
    rw [firstRepeated?]
    by_cases hi : i ∈ seen
    · simp [hi]
    · rw [if_neg (by simpa using hi), ih]
      simp only [List.nodup_cons, List.mem_cons, forall_eq_or_imp, not_or]
      grind

namespace Forest

/-- The check succeeds exactly if no chain of containers meets a node twice. -/
theorem checkNesting_eq_ok_iff_nodup (forest : Forest) :
    forest.checkNesting = .ok () ↔
      ∀ i < forest.size, (climb forest.codeParent? forest.size i).Nodup := by
  have hnone : (List.range forest.size).findSome? forest.loopStart? = none ↔
      ∀ i < forest.size, (climb forest.codeParent? forest.size i).Nodup := by
    simp [List.findSome?_eq_none_iff, loopStart?, firstRepeated?_eq_none]
  rw [← hnone, checkNesting]
  cases (List.range forest.size).findSome? forest.loopStart? <;> simp

/-- **The check succeeds exactly if no node stands on a loop of containers.** -/
theorem checkNesting_eq_ok {forest : Forest}
    (hlt : ∀ i p, forest.codeParent? i = some p → p < forest.size) :
    forest.checkNesting = .ok () ↔ ∀ i, ¬TransGen (Up forest.codeParent?) i i := by
  rw [checkNesting_eq_ok_iff_nodup]
  constructor
  · intro h i hloop
    have hi : i < forest.size := by
      obtain ⟨p, -, hp⟩ := TransGen.tail'_iff.1 hloop
      exact hlt p i hp
    have := length_climb_le hlt hi (h i hi)
    rw [length_climb_of_loop hloop] at this
    omega
  · exact fun h i _ => nodup_climb (fun j _ => h j) _

theorem namespacePath_eq (forest : Forest) (i : Nat) :
    forest.namespacePath i = forest.namespaceAncestors i ++ [i] := by
  rw [namespaceAncestors, namespacePath]
  cases forest.size with
  | zero => rfl
  | succ steps => simp [climb]

/-- Containers exist and are nested without loops. -/
structure Nested (forest : Forest) : Prop where
  container_lt : ∀ {i p}, forest.codeParent? i = some p → p < forest.size
  no_loop : ∀ i, ¬TransGen (Up forest.codeParent?) i i

namespace Nested

variable {forest other : Forest}

/-- The containers of a node are no more than there are nodes. -/
theorem length_climb_le (h : forest.Nested) (hi : i < forest.size) :
    (climb forest.codeParent? forest.size i).length ≤ forest.size :=
  DocForest.length_climb_le (fun _ _ => h.container_lt) hi (nodup_climb (fun j _ => h.no_loop j) _)

theorem ends (h : forest.Nested) (i : Nat) : Ends forest.codeParent? i := by
  cases hp : forest.codeParent? i with
  | none => exact .top hp
  | some p =>
    exact ends_of_no_loop (fun _ _ => h.container_lt) (lt_of_codeParent? hp) fun j _ => h.no_loop j

/-- The path of a node contains it, all its containers, and nothing else. -/
theorem mem_namespacePath (h : forest.Nested) (hi : i < forest.size) :
    j ∈ forest.namespacePath i ↔ ReflTransGen (Up forest.codeParent?) i j := by
  rw [namespacePath, List.mem_reverse, mem_climb_iff (h.length_climb_le hi)]

/-- What is above a member is the path of its container. -/
theorem namespaceAncestors_of_codeParent? {p : Nat} (h : forest.Nested)
    (hp : forest.codeParent? i = some p) : forest.namespaceAncestors i = forest.namespacePath p := by
  have hlength := h.length_climb_le (lt_of_codeParent? hp)
  rw [namespaceAncestors, namespacePath, namespacePath]
  cases hsize : forest.size with
  | zero => exact absurd (hsize ▸ lt_of_codeParent? hp) (Nat.not_lt_zero i)
  | succ steps =>
    rw [hsize, climb, hp] at hlength
    rw [climb, hp, List.reverse_cons, List.dropLast_concat,
      climb_of_length_le (Nat.le_of_succ_le_succ hlength) (Nat.le_succ steps)]

theorem checkedPath_eq (h : forest.Nested) (hi : i < forest.size) :
    forest.checkedPath i = .ok (forest.namespacePath i) := by
  have hlt : ∀ j ∈ forest.namespacePath i, j < forest.size := fun j hj =>
    lt_of_mem_climb (fun _ _ => h.container_lt) hi (List.mem_reverse.1 hj)
  have hlength : (forest.namespacePath i).length ≤ forest.size := by
    rw [namespacePath, List.length_reverse]
    exact h.length_climb_le hi
  rw [checkedPath, if_neg, if_neg (Nat.not_lt.2 hlength)]
  simp only [List.any_eq_true, decide_eq_true_eq, not_exists, not_and, Nat.not_le]
  exact hlt

theorem congr (h : forest.Nested) (hparent : other.codeParent? = forest.codeParent?)
    (hsize : forest.size ≤ other.size) : other.Nested where
  container_lt hp := Nat.lt_of_lt_of_le (h.container_lt (hparent ▸ hp)) hsize
  no_loop := hparent ▸ h.no_loop

end Nested

/-- The check fails in one way only. -/
theorem checkNesting_eq_error {forest : Forest} {failure : Failure}
    (h : forest.checkNesting = .error failure) : ∃ name, failure = .cyclicNesting name := by
  rw [checkNesting] at h
  split at h
  · exact ⟨_, (Except.error.inj h).symm⟩
  · cases h

end Forest
end DocForest
