import DocForest.Proofs.Descent

/-!
# Walking with a stack

`preorder` counts levels, so that it ends whatever the lists of children are.  A walk that only keeps a
stack of what is still to be visited has no such bound: it takes the top of the stack, visits it and puts
its children in its place, until nothing is left.  **Where no way down is longer than the levels that
`preorder` is allowed, the walk with a stack ends, and visits the same nodes in the same order.**

## What is here

* `StackWalk` — the walk with a stack, from the stack that it starts with to the nodes that it visits.
  A walk is finite, so there is none from a stack on which it would not end.
* `stackWalk_preorder` — `preorder` is such a walk.
* `StackWalk.acyclic` — such a walk does not end if it is led into a circle.
-/

set_option autoImplicit false

namespace DocForest

variable {children : Nat → List Nat} {starts stack visited : List Nat} {depth : Nat}

/-- The walk with a stack, which is given from its top, and the nodes that it visits. -/
inductive StackWalk (children : Nat → List Nat) : List Nat → List Nat → Prop
  | done : StackWalk children [] []
  | visit {i : Nat} {stack visited : List Nat} (h : StackWalk children (children i ++ stack) visited) :
      StackWalk children (i :: stack) (i :: visited)

/-- On top of any stack the trees below some nodes are walked through first. -/
theorem StackWalk.append_preorder (h : StackWalk children stack visited)
    (hlength : ∀ i path, Trail children starts i path → path.length ≤ depth) :
    StackWalk children (starts ++ stack) (preorder children depth starts ++ visited) := by
  induction depth generalizing starts stack visited with
  | zero => rwa [eq_nil_of_length_trail_le_zero hlength]
  | succ depth ih =>
    induction starts with
    | nil => exact h
    | cons s rest ihrest =>
      have hrest := ihrest fun i path hpath =>
        hlength i path (hpath.mono (List.subset_cons_self s rest))
      rw [preorder_cons, List.cons_append, List.append_assoc, List.cons_append]
      exact .visit (ih hrest fun i path => length_trail_le_of_mem hlength List.mem_cons_self)

/-- **The walk with a stack visits what `preorder` lists**, if that has levels enough. -/
theorem stackWalk_preorder
    (hlength : ∀ i path, Trail children starts i path → path.length ≤ depth) :
    StackWalk children starts (preorder children depth starts) := by
  have hwalk := StackWalk.done.append_preorder hlength
  rwa [List.append_nil, List.append_nil] at hwalk

/-! ## Circles -/

/-- The upper part of a stack is walked through before the lower one. -/
theorem StackWalk.split {front back : List Nat} (h : StackWalk children stack visited)
    (heq : stack = front ++ back) :
    ∃ first last, StackWalk children front first ∧ StackWalk children back last ∧
      visited = first ++ last := by
  induction h generalizing front with
  | done =>
    obtain ⟨rfl, rfl⟩ := List.append_eq_nil_iff.1 heq.symm
    exact ⟨[], [], .done, .done, rfl⟩
  | @visit i stack visited h ih =>
    cases front with
    | nil =>
      obtain rfl : i :: stack = back := heq
      exact ⟨[], i :: visited, .done, .visit h, rfl⟩
    | cons top front =>
      obtain ⟨rfl, rfl⟩ := List.cons.inj heq
      obtain ⟨first, last, hfirst, hlast, rfl⟩ := ih (List.append_assoc _ _ _).symm
      exact ⟨i :: first, last, .visit hfirst, hlast, rfl⟩

/-- What is found by going down from a stack is walked through as a part of its walk. -/
theorem StackWalk.exists_of_below (h : StackWalk children stack visited) {i : Nat}
    (hi : Below children stack i) :
    ∃ below, StackWalk children [i] below ∧ below.length ≤ visited.length := by
  have hmem : ∀ {stack visited i}, StackWalk children stack visited → i ∈ stack →
      ∃ below, StackWalk children [i] below ∧ below.length ≤ visited.length := by
    intro stack visited i h hi
    obtain ⟨front, back, rfl⟩ := List.append_of_mem hi
    obtain ⟨first, rest, -, hrest, rfl⟩ := h.split rfl
    obtain ⟨below, last, hbelow, -, rfl⟩ := hrest.split (List.singleton_append).symm
    exact ⟨below, hbelow, by simp only [List.length_append]; omega⟩
  induction hi with
  | start hi => exact hmem h hi
  | child _ hi ih =>
    obtain ⟨above, habove, hlength⟩ := ih
    cases habove with
    | visit hbelow =>
      rw [List.append_nil] at hbelow
      obtain ⟨below, hwalk, hle⟩ := hmem hbelow hi
      exact ⟨below, hwalk, by rw [List.length_cons] at hlength; omega⟩

/-- **A walk that ends meets no circle**, since one turn would be a shorter walk than the next. -/
theorem StackWalk.acyclic (h : StackWalk children starts visited) : Acyclic children starts := by
  intro i hi hloop
  obtain ⟨turn, hturn, -⟩ := h.exists_of_below hi
  induction hlength : turn.length using Nat.strongRecOn generalizing turn with
  | _ n ih =>
    cases hturn with
    | visit hbelow =>
      rw [List.append_nil] at hbelow
      obtain ⟨again, hagain, hle⟩ := hbelow.exists_of_below hloop
      rw [List.length_cons] at hlength
      exact ih again.length (by omega) again hagain rfl

end DocForest
