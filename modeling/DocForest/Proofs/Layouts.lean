import DocForest.Forest.Lemmas
import DocForest.Layout.Basic
import DocForest.Proofs.Ascent
import DocForest.Proofs.Descent

/-!
# What a layout says

## What is here

* `find?_entry`, `Layout.childrenOf_of_entries`, `Layout.childrenOf_map` — looking a node up among
  entries that are made one for each node of a list.
* `Layout.mem_reachable_iff_of_acyclic` — **the plan meets every node below its roots**, provided that
  it has no circles; `Layout.nodup_reachable`, none of them twice if nobody has two places in it.
* `Layout.Within` — all nodes that a layout mentions are below a bound.
* `Layout.FollowsCode` — the layout takes nodes out of the code forest and adds none; nobody has two
  places in such a layout, and **everything that contains a reachable node is reachable**
  (`FollowsCode.above`).
-/

set_option autoImplicit false

namespace DocForest

variable {i p : Nat}

/-! ## Entries that are made for a list of nodes -/

theorem find?_eq_ite (keys : List Nat) (test : Nat → Bool) (i : Nat) :
    (keys.find? fun j => test j && decide (j = i)) = if i ∈ keys ∧ test i then some i else none := by
  induction keys with
  | nil => rfl
  | cons j rest ih =>
    rw [List.find?_cons, ih]
    by_cases hj : j = i
    · subst hj
      by_cases htest : test j <;> simp [htest]
    · simp [hj, Ne.symm hj]

/-- Of entries that are made for the nodes of a list by one rule, some left out for their values, the
one of a node is what the rule says. -/
theorem find?_entry (keys : List Nat) (value : Nat → List Nat) (test : List Nat → Bool) (i : Nat) :
    (((keys.map fun j => (j, value j)).filter fun entry => test entry.2).find?
        fun entry => entry.1 = i) =
      if i ∈ keys ∧ test (value i) then some (i, value i) else none := by
  rw [List.find?_filter, List.find?_map]
  simp only [Function.comp_def, Bool.decide_and, Bool.decide_eq_true]
  rw [find?_eq_ite keys fun j => test (value j)]
  split <;> rfl

/-- Of entries that are chosen by their nodes and changed in their lists, the one of a node is what
became of its entry. -/
theorem find?_filter_map_entries (entries : List (Nat × List Nat)) (test : Nat → Bool)
    (value : List Nat → List Nat) (i : Nat) :
    (((entries.filter fun entry => test entry.1).map fun entry => (entry.1, value entry.2)).find?
        fun entry => entry.1 = i) =
      if test i then (entries.find? fun entry => entry.1 = i).map fun entry => (entry.1, value entry.2)
      else none := by
  induction entries with
  | nil => by_cases h : test i <;> simp [h]
  | cons entry rest ih =>
    by_cases hentry : entry.1 = i
    · subst hentry
      by_cases htest : test entry.1
      · simp [htest]
      · simpa [htest] using ih
    · by_cases htest : test entry.1 <;> simpa [htest, hentry] using ih

namespace Layout

variable {layout : Layout}

theorem childrenOf_of_entries (roots keys : List Nat) (value : Nat → List Nat) (i : Nat) :
    Layout.childrenOf
        ⟨roots, (keys.map fun j => (j, value j)).filter fun entry => !entry.2.isEmpty⟩ i =
      if i ∈ keys then value i else [] := by
  rw [childrenOf, childList?, find?_entry keys value (fun items => !items.isEmpty)]
  by_cases hi : i ∈ keys <;> by_cases hempty : value i = [] <;> simp [hi, hempty]

theorem childrenOf_map (roots roots' : List Nat) (entries : List (Nat × List Nat))
    {value : List Nat → List Nat} (hvalue : value [] = []) (i : Nat) :
    Layout.childrenOf ⟨roots, entries.map fun entry => (entry.1, value entry.2)⟩ i =
      value (Layout.childrenOf ⟨roots', entries⟩ i) := by
  simp only [childrenOf, childList?, List.find?_map, Function.comp_def]
  cases entries.find? fun entry => entry.1 = i with
  | none => exact hvalue.symm
  | some entry => rfl

theorem exists_entry_of_mem_childrenOf (h : i ∈ layout.childrenOf p) :
    ∃ entry ∈ layout.children, entry.1 = p ∧ i ∈ entry.2 := by
  unfold childrenOf childList? at h
  cases hfind : layout.children.find? fun entry => entry.1 = p with
  | none => simp [hfind] at h
  | some entry =>
    have hkey := List.find?_some hfind
    rw [hfind] at h
    exact ⟨entry, List.mem_of_find?_eq_some hfind, of_decide_eq_true hkey, h⟩

theorem mem_keys_of_childrenOf_ne_nil (h : layout.childrenOf i ≠ []) :
    i ∈ layout.children.map (·.1) := by
  obtain ⟨c, hc⟩ := List.exists_mem_of_ne_nil _ h
  obtain ⟨entry, hentry, hkey, -⟩ := exists_entry_of_mem_childrenOf hc
  exact List.mem_map.2 ⟨entry, hentry, hkey⟩

/-- There is no circle if every node has a smaller number than those that are listed in its entry. -/
theorem acyclic_of_entries (h : ∀ entry ∈ layout.children, ∀ c ∈ entry.2, entry.1 < c) :
    Acyclic layout.childrenOf layout.roots :=
  acyclic_of_lt fun _ _ hc => by
    obtain ⟨entry, hentry, rfl, hlisted⟩ := exists_entry_of_mem_childrenOf hc
    exact h entry hentry _ hlisted

theorem below_lt_of_entries {size : Nat} (hroots : ∀ i ∈ layout.roots, i < size)
    (h : ∀ entry ∈ layout.children, ∀ c ∈ entry.2, c < size)
    (hi : Below layout.childrenOf layout.roots i) : i < size := by
  cases hi with
  | start hi => exact hroots i hi
  | child _ hi =>
    obtain ⟨entry, hentry, -, hlisted⟩ := exists_entry_of_mem_childrenOf hi
    exact h entry hentry i hlisted

/-! ## What is reachable -/

/-- No way through a plan without circles has more nodes than the plan has levels. -/
theorem length_trail_le_depth (h : Acyclic layout.childrenOf layout.roots) {path : List Nat}
    (ht : Trail layout.childrenOf layout.roots i path) : path.length ≤ layout.depth := by
  have hlength := h.length_trail_le_inner (fun _ => mem_keys_of_childrenOf_ne_nil) ht
  rwa [List.length_map] at hlength

/-- **A plan without circles meets every node below its roots.** -/
theorem mem_reachable_iff_of_acyclic (h : Acyclic layout.childrenOf layout.roots) :
    i ∈ layout.reachable ↔ Below layout.childrenOf layout.roots i :=
  h.mem_preorder_iff (fun _ => mem_keys_of_childrenOf_ne_nil) (by simp [depth])

/-- So does one in which nobody has two places. -/
theorem mem_reachable_iff (h : OnePlace layout.childrenOf layout.roots) :
    i ∈ layout.reachable ↔ Below layout.childrenOf layout.roots i :=
  mem_reachable_iff_of_acyclic h.acyclic

/-- It meets none of them twice. -/
theorem nodup_reachable (h : OnePlace layout.childrenOf layout.roots) : layout.reachable.Nodup :=
  h.nodup_preorder _

/-- All nodes that are mentioned are below `size`. -/
structure Within (layout : Layout) (size : Nat) : Prop where
  roots : ∀ i ∈ layout.roots, i < size
  children : ∀ p, ∀ i ∈ layout.childrenOf p, i < size
  keys : ∀ entry ∈ layout.children, entry.1 < size

theorem Within.below {size : Nat} (h : layout.Within size)
    (hi : Below layout.childrenOf layout.roots i) : i < size := by
  cases hi with
  | start hi => exact h.roots i hi
  | child _ hi => exact h.children _ i hi

theorem Within.childrenOf_eq_nil {size : Nat} (h : layout.Within size) (hi : size ≤ i) :
    layout.childrenOf i = [] := by
  by_contra hne
  obtain ⟨entry, hentry, rfl⟩ := List.mem_map.1 (mem_keys_of_childrenOf_ne_nil hne)
  exact Nat.not_le.2 (h.keys entry hentry) hi

/-! ## Layouts of the code -/

/-- The layout takes nodes out of the forest of containers and members, and adds none. -/
structure FollowsCode (layout : Layout) (forest : Forest) : Prop where
  roots_nodup : layout.roots.Nodup
  children_nodup : ∀ p, (layout.childrenOf p).Nodup
  root_lt : ∀ {i}, i ∈ layout.roots → i < forest.size
  root_codeParent : ∀ {i}, i ∈ layout.roots → forest.codeParent? i = none
  child_codeParent : ∀ {p i}, i ∈ layout.childrenOf p → forest.codeParent? i = some p

namespace FollowsCode

variable {forest : Forest}

/-- A declaration has one container, hence one place. -/
theorem onePlace (h : layout.FollowsCode forest) : OnePlace layout.childrenOf layout.roots where
  roots_nodup := h.roots_nodup
  children_nodup := h.children_nodup
  parent_unique hp hq := Option.some.inj ((h.child_codeParent hp).symm.trans (h.child_codeParent hq))
  root_free hroot hchild :=
    Option.some_ne_none _ ((h.child_codeParent hchild).symm.trans (h.root_codeParent hroot))

theorem mem_reachable_iff (h : layout.FollowsCode forest) :
    i ∈ layout.reachable ↔ Below layout.childrenOf layout.roots i :=
  Layout.mem_reachable_iff h.onePlace

theorem reachable_of_mem_roots (h : layout.FollowsCode forest) (hi : i ∈ layout.roots) :
    i ∈ layout.reachable :=
  h.mem_reachable_iff.2 (.start hi)

theorem reachable_of_mem_childrenOf (h : layout.FollowsCode forest) (hp : p ∈ layout.reachable)
    (hi : i ∈ layout.childrenOf p) : i ∈ layout.reachable :=
  h.mem_reachable_iff.2 (.child (h.mem_reachable_iff.1 hp) hi)

theorem mem_roots (h : layout.FollowsCode forest) (hi : i ∈ layout.reachable)
    (hparent : forest.codeParent? i = none) : i ∈ layout.roots := by
  cases h.mem_reachable_iff.1 hi with
  | start hi => exact hi
  | child _ hi => exact absurd ((h.child_codeParent hi).symm.trans hparent) (Option.some_ne_none _)

theorem container (h : layout.FollowsCode forest) (hi : i ∈ layout.reachable)
    (hparent : forest.codeParent? i = some p) :
    p ∈ layout.reachable ∧ i ∈ layout.childrenOf p := by
  cases h.mem_reachable_iff.1 hi with
  | start hi =>
    exact absurd (hparent.symm.trans (h.root_codeParent hi)) (Option.some_ne_none _)
  | child hp hi =>
    obtain rfl := Option.some.inj ((h.child_codeParent hi).symm.trans hparent)
    exact ⟨h.mem_reachable_iff.2 hp, hi⟩

theorem above (h : layout.FollowsCode forest) (hi : i ∈ layout.reachable)
    (hp : Relation.ReflTransGen (Up forest.codeParent?) i p) : p ∈ layout.reachable := by
  induction hp with
  | refl => exact hi
  | tail _ hup ih => exact (h.container ih hup).1

theorem lt_size (h : layout.FollowsCode forest) (hi : i ∈ layout.reachable) : i < forest.size := by
  cases h.mem_reachable_iff.1 hi with
  | start hi => exact h.root_lt hi
  | child _ hi => exact Forest.lt_of_codeParent? (h.child_codeParent hi)

end FollowsCode
end Layout
end DocForest
