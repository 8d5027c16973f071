import DocForest.Proofs.Placement
import Mathlib.Order.Bounds.Basic

/-!
# Which fragments stay

The fragments that the filter keeps fall into groups by their keys.  Which of a group stay and where the
others go depends on the kinds and the order of the group alone: the first primary of every kind stays
and takes in the later ones of its kind, extensions go to the first of these that they fit or else to
the first of all, and in a group without primaries the first extension takes in the rest.

## What is here

* `isLeast_of_head?`, `isLeast_of_find?` — the first element of an ascending list is its least one.
* `Family.target?_of_primary` and its companions — where the members of one family go.
* `Forest.kin`, `Forest.primaryKin`, `Forest.leadingKin`, `Forest.fittingKin` — the group of a node, its
  primaries, the first of every kind, and those of them that the node can extend.
* `Forest.Partitioned`, `Forest.build_partitions_fragments` — **every group is merged as described**,
  and nothing else is.
-/

set_option autoImplicit false

namespace DocForest

variable {i j : Nat}

/-! ## Ascending lists -/

theorem isLeast_of_head? {items : List Nat} (hitems : items.Pairwise (· < ·))
    (h : items.head? = some j) : IsLeast {i | i ∈ items} j := by
  obtain ⟨rest, rfl⟩ := List.head?_eq_some_iff.1 h
  refine ⟨List.mem_cons_self, fun i hi => ?_⟩
  rcases List.mem_cons.1 hi with rfl | hi
  · exact Nat.le_refl _
  · exact Nat.le_of_lt ((List.pairwise_cons.1 hitems).1 i hi)

theorem isLeast_of_find? {items : List Nat} {test : Nat → Bool} (hitems : items.Pairwise (· < ·))
    (h : items.find? test = some j) : IsLeast {i | i ∈ items ∧ test i = true} j := by
  rw [← List.head?_filter] at h
  simpa only [List.mem_filter] using isLeast_of_head? (hitems.filter test) h

/-! ## Families in input order -/

namespace Family

variable {forest : Forest} {family : Family} (hmembers : family.members.Pairwise (· < ·))

include hmembers

theorem pairwise_primaries (forest : Forest) : (family.primaries forest).Pairwise (· < ·) :=
  hmembers.filter _

theorem isLeast_of_leader? (h : family.leader? forest i = some j) :
    IsLeast {k | k ∈ family.primaries forest ∧ forest.kindOf k = forest.kindOf i} j := by
  simpa only [decide_eq_true_eq] using isLeast_of_find? (pairwise_primaries hmembers forest) h

theorem mem_leaders :
    j ∈ family.leaders forest ↔
      IsLeast {k | k ∈ family.primaries forest ∧ forest.kindOf k = forest.kindOf j} j := by
  rw [leaders, List.mem_filter, decide_eq_true_eq]
  constructor
  · exact fun h => isLeast_of_leader? hmembers h.2
  · intro h
    refine ⟨h.1.1, ?_⟩
    cases hleader : family.leader? forest j with
    | none =>
      have := List.find?_eq_none.1 hleader j h.1.1
      simp at this
    | some k => rw [(isLeast_of_leader? hmembers hleader).unique h]

theorem isLeast_of_fitting? (h : family.fitting? forest i = some j) :
    IsLeast {k | k ∈ family.leaders forest ∧ forest.kindOf k ∈ (forest.kindOf i).bases} j := by
  have hleaders : (family.leaders forest).Pairwise (· < ·) :=
    (pairwise_primaries hmembers forest).filter _
  simpa only [List.contains_iff_mem] using isLeast_of_find? hleaders h

/-- A primary goes to the first one of its kind, unless it is this one. -/
theorem target?_of_primary (hi : i ∈ family.primaries forest) :
    ∃ j, IsLeast {k | k ∈ family.primaries forest ∧ forest.kindOf k = forest.kindOf i} j ∧
      family.target? forest i = if i = j then none else some j := by
  have hempty : ¬(family.primaries forest).isEmpty = true := by
    rw [List.isEmpty_iff]
    exact List.ne_nil_of_mem hi
  cases hleader : family.leader? forest i with
  | none =>
    have := List.find?_eq_none.1 hleader i hi
    simp at this
  | some j =>
    refine ⟨j, isLeast_of_leader? hmembers hleader, ?_⟩
    rw [target?, if_neg hempty, (mem_primaries.1 hi).2, hleader]
    by_cases heq : i = j <;> simp [heq, Ne.symm]

/-- An extension goes to the first leader that it can extend. -/
theorem target?_of_fitting (hi : forest.isExtension i = true)
    (hfitting : ∃ k ∈ family.leaders forest, forest.kindOf k ∈ (forest.kindOf i).bases) :
    ∃ j, IsLeast {k | k ∈ family.leaders forest ∧ forest.kindOf k ∈ (forest.kindOf i).bases} j ∧
      family.target? forest i = some j := by
  obtain ⟨k, hk, hbase⟩ := hfitting
  cases hfound : family.fitting? forest i with
  | none =>
    have := List.find?_eq_none.1 hfound k hk
    exact absurd (List.contains_iff_mem.2 hbase) this
  | some j =>
    have hleast := isLeast_of_fitting? hmembers hfound
    have hprimary := mem_primaries.1 ((mem_leaders hmembers).1 hleast.1.1).1.1
    have hne : j ≠ i := fun heq => by simp [heq, hi] at hprimary
    have hempty : ¬(family.primaries forest).isEmpty = true := by
      rw [List.isEmpty_iff]
      exact List.ne_nil_of_mem (mem_primaries.2 hprimary)
    refine ⟨j, hleast, ?_⟩
    rw [target?, if_neg hempty, if_pos hi, hfound]
    simp [hne]

/-- An extension that can extend no leader goes to the first primary. -/
theorem target?_of_unfitting (hi : forest.isExtension i = true)
    (hprimaries : ∃ k, k ∈ family.primaries forest)
    (hfitting : ∀ k ∈ family.leaders forest, forest.kindOf k ∉ (forest.kindOf i).bases) :
    ∃ j, IsLeast {k | k ∈ family.primaries forest} j ∧ family.target? forest i = some j := by
  have hfound : family.fitting? forest i = none := by
    refine List.find?_eq_none.2 fun k hk => ?_
    rw [List.contains_iff_mem]
    exact hfitting k hk
  obtain ⟨k, hk⟩ := hprimaries
  cases hhead : (family.primaries forest).head? with
  | none =>
    rw [List.head?_eq_none_iff.1 hhead] at hk
    exact absurd hk List.not_mem_nil
  | some j =>
    have hleast := isLeast_of_head? (pairwise_primaries hmembers forest) hhead
    have hprimary := mem_primaries.1 hleast.1
    have hne : j ≠ i := fun heq => by simp [heq, hi] at hprimary
    have hempty : ¬(family.primaries forest).isEmpty = true := by
      rw [List.isEmpty_iff]
      exact List.ne_nil_of_mem hk
    refine ⟨j, hleast, ?_⟩
    rw [target?, if_neg hempty, if_pos hi, hfound, hhead]
    simp [hne]

/-- Without primaries every extension goes to the first one, which stands for the type. -/
theorem target?_of_extensions (hi : i ∈ family.members)
    (hprimaries : ∀ k, k ∉ family.primaries forest) :
    ∃ j, IsLeast {k | k ∈ family.members} j ∧
      (family.target? forest i = if i = j then none else some j) ∧ family.base? forest = some j := by
  have hempty : (family.primaries forest).isEmpty = true :=
    List.isEmpty_iff.2 (List.eq_nil_iff_forall_not_mem.2 hprimaries)
  have hextensions : family.extensions forest = family.members := by
    refine List.filter_eq_self.2 fun k hk => ?_
    by_contra hne
    exact hprimaries k (mem_primaries.2 ⟨hk, by simpa using hne⟩)
  cases hhead : family.members.head? with
  | none =>
    rw [List.head?_eq_none_iff.1 hhead] at hi
    exact absurd hi List.not_mem_nil
  | some j =>
    refine ⟨j, isLeast_of_head? hmembers hhead, ?_, ?_⟩
    · rw [target?_of_no_primaries hempty, hextensions, hhead]
      by_cases heq : i = j <;> simp [heq, Ne.symm]
    · rw [base?_eq_some, hextensions]
      exact ⟨hempty, hhead⟩

end Family

/-! ## Groups of fragments -/

namespace Forest

variable {config : Config} {inflect : String → String} {records : List Record} {loaded : Loaded}
  {forest other frozen : Forest} {kept visible : List Nat}

/-- The fragments among the kept nodes. -/
def keptFragments (forest : Forest) (kept : List Nat) : Set Nat :=
  {i | i ∈ kept ∧ forest.satisfies i Declaration.isFragment = true}

/-- The group of a node: the kept fragments with its key. -/
def kin (forest : Forest) (kept : List Nat) (i : Nat) : Set Nat :=
  {j | j ∈ forest.keptFragments kept ∧ forest.mergeKey? j = forest.mergeKey? i}

/-- The primaries in the group of a node. -/
def primaryKin (forest : Forest) (kept : List Nat) (i : Nat) : Set Nat :=
  {j | j ∈ forest.kin kept i ∧ forest.isExtension j = false}

/-- The primaries of one kind in the group of a node. -/
def kindKin (forest : Forest) (kept : List Nat) (i : Nat) (kind : Kind) : Set Nat :=
  {j | j ∈ forest.primaryKin kept i ∧ forest.kindOf j = kind}

/-- The first primary of every kind in the group of a node. -/
def leadingKin (forest : Forest) (kept : List Nat) (i : Nat) : Set Nat :=
  {j | IsLeast (forest.kindKin kept i (forest.kindOf j)) j}

/-- Those of them that a node can extend by its kind. -/
def fittingKin (forest : Forest) (kept : List Nat) (i : Nat) : Set Nat :=
  {j | j ∈ forest.leadingKin kept i ∧ forest.kindOf j ∈ (forest.kindOf i).bases}

/-- How the fragments among the kept nodes are merged. -/
structure Partitioned (kept : List Nat) (forest : Forest) : Prop where
  /-- What is merged is a kept fragment and goes to one of its group, which is not merged itself. -/
  absorbed : ∀ {i j}, forest.mergedInto? i = some j →
    i ∈ forest.keptFragments kept ∧ j ∈ forest.kin kept i ∧ forest.mergedInto? j = none
  /-- In a group with primaries the first one of every kind stays, and nothing else. -/
  stays_iff : ∀ {i}, i ∈ forest.keptFragments kept → (forest.primaryKin kept i).Nonempty →
    (forest.mergedInto? i = none ↔ i ∈ forest.leadingKin kept i)
  /-- The later primaries of a kind go to its first. -/
  primary : ∀ {i}, i ∈ forest.primaryKin kept i →
    ∃ j, IsLeast (forest.kindKin kept i (forest.kindOf i)) j ∧
      forest.mergedInto? i = if i = j then none else some j
  /-- An extension goes to the earliest of the first primaries whose kind it can extend. -/
  fitting : ∀ {i}, i ∈ forest.keptFragments kept → forest.isExtension i = true →
    (forest.fittingKin kept i).Nonempty →
      ∃ j, IsLeast (forest.fittingKin kept i) j ∧ forest.mergedInto? i = some j
  /-- Every other extension goes to the first primary. -/
  unfitting : ∀ {i}, i ∈ forest.keptFragments kept → forest.isExtension i = true →
    (forest.primaryKin kept i).Nonempty → forest.fittingKin kept i = ∅ →
      ∃ j, IsLeast (forest.primaryKin kept i) j ∧ forest.mergedInto? i = some j
  /-- In a group without primaries the first extension takes in all others, and it alone stands for
  a type that is not documented. -/
  extensions : ∀ {i}, i ∈ forest.keptFragments kept → forest.primaryKin kept i = ∅ →
    ∃ j, IsLeast (forest.kin kept i) j ∧
      (forest.mergedInto? i = if i = j then none else some j) ∧
        (forest.isUndocumentedBase i = true ↔ i = j)
  /-- Only in such a group does a node stand for a type. -/
  undocumented : ∀ {i}, forest.isUndocumentedBase i = true →
    i ∈ forest.keptFragments kept ∧ forest.primaryKin kept i = ∅

theorem mem_keptFragments : i ∈ forest.keptFragments visible ↔ i ∈ forest.fragments visible := by
  rw [mem_fragments]
  exact ⟨fun h => ⟨lt_of_satisfies h.2, h⟩, fun h => h.2⟩

theorem mem_kin : j ∈ forest.kin visible i ↔ j ∈ (forest.familyOf visible i).members := by
  rw [mem_familyOf, ← mem_keptFragments]
  exact Iff.rfl

theorem mem_primaryKin :
    j ∈ forest.primaryKin visible i ↔ j ∈ (forest.familyOf visible i).primaries forest := by
  rw [Family.mem_primaries, ← mem_kin]
  exact Iff.rfl

theorem pairwise_members (forest : Forest) (visible : List Nat) (i : Nat) :
    (forest.familyOf visible i).members.Pairwise (· < ·) :=
  (List.pairwise_lt_range.filter _).filter _

theorem mem_leadingKin :
    j ∈ forest.leadingKin visible i ↔ j ∈ (forest.familyOf visible i).leaders forest := by
  rw [Family.mem_leaders (forest.pairwise_members visible i)]
  simp only [← mem_primaryKin]
  exact Iff.rfl

/-! ## Where the fragments of a group go -/

theorem target?_of_mem (hi : i ∈ forest.keptFragments visible) :
    forest.target? visible i = (forest.familyOf visible i).target? forest i :=
  if_pos (mem_keptFragments.1 hi)

theorem target?_of_primaryKin (hi : i ∈ forest.primaryKin visible i) :
    ∃ j, IsLeast (forest.kindKin visible i (forest.kindOf i)) j ∧
      forest.target? visible i = if i = j then none else some j := by
  obtain ⟨j, hleast, htarget⟩ :=
    Family.target?_of_primary (forest.pairwise_members visible i) (mem_primaryKin.1 hi)
  simp only [← mem_primaryKin] at hleast
  exact ⟨j, hleast, (target?_of_mem hi.1.1).trans htarget⟩

theorem target?_of_fittingKin (hi : i ∈ forest.keptFragments visible)
    (hextension : forest.isExtension i = true) (hfitting : (forest.fittingKin visible i).Nonempty) :
    ∃ j, IsLeast (forest.fittingKin visible i) j ∧ forest.target? visible i = some j := by
  obtain ⟨k, hk, hbase⟩ := hfitting
  obtain ⟨j, hleast, htarget⟩ := Family.target?_of_fitting (forest.pairwise_members visible i)
    hextension ⟨k, mem_leadingKin.1 hk, hbase⟩
  simp only [← mem_leadingKin] at hleast
  exact ⟨j, hleast, (target?_of_mem hi).trans htarget⟩

theorem target?_of_unfitting (hi : i ∈ forest.keptFragments visible)
    (hextension : forest.isExtension i = true) (hprimary : (forest.primaryKin visible i).Nonempty)
    (hfitting : forest.fittingKin visible i = ∅) :
    ∃ j, IsLeast (forest.primaryKin visible i) j ∧ forest.target? visible i = some j := by
  obtain ⟨k, hk⟩ := hprimary
  have hnone : ∀ k ∈ (forest.familyOf visible i).leaders forest,
      forest.kindOf k ∉ (forest.kindOf i).bases := fun k hk hbase =>
    Set.eq_empty_iff_forall_notMem.1 hfitting k ⟨mem_leadingKin.2 hk, hbase⟩
  obtain ⟨j, hleast, htarget⟩ := Family.target?_of_unfitting (forest.pairwise_members visible i)
    hextension ⟨k, mem_primaryKin.1 hk⟩ hnone
  simp only [← mem_primaryKin] at hleast
  exact ⟨j, hleast, (target?_of_mem hi).trans htarget⟩

theorem target?_of_extensions (hi : i ∈ forest.keptFragments visible)
    (hprimary : forest.primaryKin visible i = ∅) :
    ∃ j, IsLeast (forest.kin visible i) j ∧
      (forest.target? visible i = if i = j then none else some j) ∧
        (i ∈ forest.bases visible ↔ i = j) := by
  obtain ⟨j, hleast, htarget, hbase⟩ := Family.target?_of_extensions
    (forest.pairwise_members visible i) (mem_kin.1 ⟨hi, rfl⟩)
    fun k hk => Set.eq_empty_iff_forall_notMem.1 hprimary k (mem_primaryKin.2 hk)
  simp only [← mem_kin] at hleast
  refine ⟨j, hleast, (target?_of_mem hi).trans htarget, ?_⟩
  rw [mem_bases, hbase, and_iff_right (mem_keptFragments.1 hi), Option.some.injEq, eq_comm]

theorem mem_kin_of_target? (h : forest.target? visible i = some j) :
    i ∈ forest.keptFragments visible ∧ j ∈ forest.kin visible i ∧ forest.target? visible j = none := by
  obtain ⟨hi, htarget⟩ := target?_eq_some.1 h
  have hj := Family.mem_of_target? htarget
  obtain ⟨hfragment, hkey⟩ := mem_familyOf.1 hj
  refine ⟨mem_keptFragments.2 hi, mem_kin.2 hj, ?_⟩
  rw [target?_of_mem (mem_keptFragments.2 hfragment), familyOf_congr hkey,
    Family.target?_target? htarget]

/-- In a group with primaries those go nowhere that are the first of their kinds. -/
theorem target?_eq_none_iff (hi : i ∈ forest.keptFragments visible)
    (hprimary : (forest.primaryKin visible i).Nonempty) :
    forest.target? visible i = none ↔ i ∈ forest.leadingKin visible i := by
  cases hextension : forest.isExtension i with
  | true =>
    have hleading : i ∉ forest.leadingKin visible i := fun hi => by
      simp [hi.1.1.2] at hextension
    have hsome : ∃ j, forest.target? visible i = some j := by
      rcases (forest.fittingKin visible i).eq_empty_or_nonempty with hnone | hfitting
      · obtain ⟨j, -, hj⟩ := target?_of_unfitting hi hextension hprimary hnone
        exact ⟨j, hj⟩
      · obtain ⟨j, -, hj⟩ := target?_of_fittingKin hi hextension hfitting
        exact ⟨j, hj⟩
    obtain ⟨j, hj⟩ := hsome
    simp [hj, hleading]
  | false =>
    obtain ⟨j, hleast, htarget⟩ := target?_of_primaryKin ⟨⟨hi, rfl⟩, hextension⟩
    rw [htarget, ite_eq_left_iff]
    constructor
    · intro h
      have heq : i = j := by
        by_contra hne
        cases h hne
      exact show IsLeast _ i from heq ▸ hleast
    · exact fun hleading hne => absurd (IsLeast.unique hleading hleast) hne

theorem primaryKin_of_mem_bases (h : i ∈ forest.bases visible) :
    i ∈ forest.keptFragments visible ∧ forest.primaryKin visible i = ∅ := by
  obtain ⟨hi, hbase⟩ := mem_bases.1 h
  refine ⟨mem_keptFragments.2 hi, Set.eq_empty_iff_forall_notMem.2 fun k hk => ?_⟩
  have hempty := List.isEmpty_iff.1 (Family.base?_eq_some.1 hbase).1
  exact List.not_mem_nil (hempty ▸ mem_primaryKin.1 hk)

/-! ## The groups of the finished forest -/

/-- `other` has the kept nodes of `forest` in the same groups. -/
structure SameGroups (kept : List Nat) (forest other : Forest) : Prop where
  decl? : ∀ i ∈ kept, other.decl? i = forest.decl? i
  mergeKey? : ∀ i ∈ kept, other.mergeKey? i = forest.mergeKey? i

namespace SameGroups

variable (h : SameGroups kept forest other)

include h

theorem keptFragments : other.keptFragments kept = forest.keptFragments kept := by
  refine Set.ext fun j => and_congr_right fun hj => ?_
  rw [satisfies, satisfies, h.decl? j hj]

theorem kin (hi : i ∈ kept) : other.kin kept i = forest.kin kept i := by
  unfold Forest.kin
  rw [h.keptFragments, h.mergeKey? i hi]
  refine Set.ext fun j => and_congr_right fun hj => ?_
  rw [h.mergeKey? j hj.1]

theorem primaryKin (hi : i ∈ kept) : other.primaryKin kept i = forest.primaryKin kept i := by
  unfold Forest.primaryKin
  rw [h.kin hi]
  refine Set.ext fun j => and_congr_right fun hj => ?_
  rw [isExtension, isExtension, satisfies, satisfies, h.decl? j hj.1.1]

theorem kindOf (hi : i ∈ kept) : other.kindOf i = forest.kindOf i := by
  rw [Forest.kindOf, Forest.kindOf, h.decl? i hi]

theorem kindKin (hi : i ∈ kept) (kind : Kind) :
    other.kindKin kept i kind = forest.kindKin kept i kind := by
  unfold Forest.kindKin
  rw [h.primaryKin hi]
  refine Set.ext fun j => and_congr_right fun hj => ?_
  rw [h.kindOf hj.1.1.1]

theorem leadingKin (hi : i ∈ kept) : other.leadingKin kept i = forest.leadingKin kept i := by
  refine Set.ext fun j => ?_
  change IsLeast _ j ↔ IsLeast _ j
  rw [h.kindKin hi]
  constructor
  · exact fun hj => by rwa [h.kindOf hj.1.1.1.1.1] at hj
  · exact fun hj => by rwa [h.kindOf hj.1.1.1.1.1]

theorem fittingKin (hi : i ∈ kept) : other.fittingKin kept i = forest.fittingKin kept i := by
  unfold Forest.fittingKin
  rw [h.leadingKin hi, h.kindOf hi]
  refine Set.ext fun j => and_congr_right fun hj => ?_
  rw [h.kindOf hj.1.1.1.1.1]

theorem isExtension (hi : i ∈ kept) : other.isExtension i = forest.isExtension i := by
  rw [Forest.isExtension, Forest.isExtension, satisfies, satisfies, h.decl? i hi]

/-- **A forest with the targets and the stand-ins of its families is merged group by group.** -/
theorem partitioned (hmerged : ∀ i, other.mergedInto? i = forest.target? kept i)
    (hbase : ∀ i, other.isUndocumentedBase i = true ↔ i ∈ forest.bases kept) :
    Partitioned kept other where
  absorbed {i j} hj := by
    rw [hmerged] at hj ⊢
    obtain ⟨hi, hj, hnone⟩ := mem_kin_of_target? hj
    rw [h.keptFragments, h.kin hi.1]
    exact ⟨hi, hj, hnone⟩
  stays_iff {i} hi hprimary := by
    rw [h.keptFragments] at hi
    rw [h.primaryKin hi.1] at hprimary
    rw [hmerged, h.leadingKin hi.1]
    exact target?_eq_none_iff hi hprimary
  primary {i} hi := by
    have hkept : i ∈ kept := hi.1.1.1
    rw [h.primaryKin hkept] at hi
    rw [hmerged, h.kindKin hkept, h.kindOf hkept]
    exact target?_of_primaryKin hi
  fitting {i} hi hextension hfitting := by
    rw [h.keptFragments] at hi
    rw [h.isExtension hi.1] at hextension
    rw [h.fittingKin hi.1] at hfitting ⊢
    rw [hmerged]
    exact target?_of_fittingKin hi hextension hfitting
  unfitting {i} hi hextension hprimary hfitting := by
    rw [h.keptFragments] at hi
    rw [h.isExtension hi.1] at hextension
    rw [h.fittingKin hi.1] at hfitting
    rw [h.primaryKin hi.1] at hprimary ⊢
    rw [hmerged]
    exact target?_of_unfitting hi hextension hprimary hfitting
  extensions {i} hi hprimary := by
    rw [h.keptFragments] at hi
    rw [h.primaryKin hi.1] at hprimary
    rw [hmerged, hbase, h.kin hi.1]
    exact target?_of_extensions hi hprimary
  undocumented {i} hi := by
    obtain ⟨hi, hprimary⟩ := primaryKin_of_mem_bases ((hbase i).1 hi)
    rw [h.keptFragments, h.primaryKin hi.1]
    exact ⟨hi, hprimary⟩

end SameGroups

/-! ## Names and keys of the finished forest -/

theorem mergeName_congr (hpath : other.namespacePath i = forest.namespacePath i)
    (hdecl : ∀ j ∈ forest.namespacePath i, other.decl? j = forest.decl? j) :
    other.mergeName i = forest.mergeName i := by
  have hself : i ∈ forest.namespacePath i := by
    rw [namespacePath, List.mem_reverse]
    cases forest.size <;> exact List.mem_cons_self
  have hnames : (other.namespaceAncestors i).map other.nameTextOf =
      (forest.namespaceAncestors i).map forest.nameTextOf := by
    rw [namespaceAncestors, namespaceAncestors, hpath]
    refine List.map_congr_left fun j hj => ?_
    rw [nameTextOf, nameTextOf, nameOf, nameOf, hdecl j (List.dropLast_subset _ hj)]
  rw [mergeName, mergeName, hdecl i hself, hnames]

section Finished

variable (hfrozen : Frozen (arranged config inflect loaded).2 (arranged config inflect loaded).1 frozen)
  (h : (completed config loaded).Prepared)

include hfrozen h

theorem namespacePath_frozen (hi : i < loaded.forest.size) :
    frozen.namespacePath i = (completed config loaded).namespacePath i := by
  rw [← size_completed config] at hi
  rw [namespacePath, namespacePath, codeParent?_frozen hfrozen,
    climb_of_length_le (h.toNested.length_climb_le hi) (size_le_frozen hfrozen)]

theorem mergeName_frozen (hi : i < loaded.forest.size) :
    frozen.mergeName i = (completed config loaded).mergeName i := by
  refine mergeName_congr (namespacePath_frozen hfrozen h hi) fun j hj => decl?_frozen hfrozen ?_
  rw [← size_completed config] at hi ⊢
  exact lt_of_mem_climb (fun _ _ => h.container_lt) hi (List.mem_reverse.1 hj)

theorem sameGroups_frozen :
    SameGroups (filtered config loaded).reachable (completed config loaded) frozen := by
  have hlt : ∀ i ∈ (filtered config loaded).reachable, i < loaded.forest.size := fun i hi => by
    rw [← size_completed config]
    exact (visible_followsCode _ _).lt_size hi
  refine ⟨fun i hi => decl?_frozen hfrozen (hlt i hi), fun i hi => ?_⟩
  rw [mergeKey?, mergeKey?, mergeName_frozen hfrozen h (hlt i hi)]

/-- **The fragments of the finished forest are merged group by group.** -/
theorem partitioned_frozen : Partitioned (filtered config loaded).reachable frozen := by
  refine (sameGroups_frozen hfrozen h).partitioned (fun i => ?_) fun i => ?_
  · rw [mergedInto?_frozen hfrozen]
    exact mergedInto?_eq_target? h.mergedInto i
  · rw [isUndocumentedBase_frozen hfrozen]
    exact isUndocumentedBase_merged h.undocumentedBase i

end Finished

theorem Built.partitioned (h : Built config inflect records loaded forest) :
    Partitioned (keptNodes config records) forest := by
  rw [h.keptNodes_eq]
  exact partitioned_frozen h.frozen h.prepared

/-- **The kept fragments are merged group by group**: what stays of a group are the first primaries of
every kind, or its first extension if there are none, and every other fragment goes to one of them. -/
theorem build_partitions_fragments (h : (build config inflect records).outcome = .ok forest) :
    Partitioned (keptNodes config records) forest := by
  obtain ⟨loaded, hbuilt⟩ := built_of_build h
  exact hbuilt.partitioned

/-- A class and two structures of one name with two extensions, and two extensions of another type. -/
def namesakeRecords : List Record :=
  [swiftRecord "e" "extension" "A" "" .null,
   swiftRecord "c" "class" "A" "" .null,
   swiftRecord "x" "extension.struct" "A" "" .null,
   swiftRecord "s" "struct" "A" "" .null,
   swiftRecord "t" "struct" "A" "" .null,
   swiftRecord "b" "extension" "B" "" .null,
   swiftRecord "d" "extension" "B" "" .null]

/-- The class, the first structure and the first extension of the other type stay; the extension of
structures goes to the structure and the unspecific one to the class. -/
theorem build_partitions_namesakes : ∃ forest,
    (build { modules := ["M"] } id namesakeRecords).outcome = .ok forest ∧
      (List.range 7).map forest.mergedInto? =
        [some 1, none, some 3, none, some 3, none, some 5] ∧
          (List.range 7).filter forest.isUndocumentedBase = [5] ∧
            Partitioned (keptNodes { modules := ["M"] } namesakeRecords) forest := by
  obtain ⟨forest, hforest, hrun⟩ := Outcome.exists_ok_of_map
    (f := fun forest => ((List.range 7).map forest.mergedInto?,
      (List.range 7).filter forest.isUndocumentedBase))
    (b := ([some 1, none, some 3, none, some 3, none, some 5], [5]))
    (o := (build { modules := ["M"] } id namesakeRecords).outcome) (by decide +kernel)
  obtain ⟨hmerged, hbase⟩ := Prod.mk.inj hrun
  exact ⟨forest, hforest, hmerged, hbase, build_partitions_fragments hforest⟩

end Forest
end DocForest
