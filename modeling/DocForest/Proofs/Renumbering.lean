import DocForest.Build.Fragments
import DocForest.Build.Groups
import DocForest.Proofs.Ascent
import DocForest.Proofs.Mapping
import DocForest.Proofs.Views
import Mathlib.Order.WellFounded

/-!
# Forests with the nodes of others

One forest may have, under other numbers, all nodes of a second one and more nodes between them.  What is
known of a node from its declaration and its containers is then the same in both.  Numbers need not keep
the order of all nodes for that: **siblings and fragments are all that is ever listed in the order of the
numbers**.

## What is here

* `Forest.Renumbers` — `whole` has the nodes of `part` under new numbers, in the same order.
* `Forest.Relabels` — so it does, but only siblings and fragments keep their order; `Relabels.congr` says that
  this stays when declarations change on both sides.
* `Relabels.container_iff` — which node another one stands in.
* `Relabels.satisfies`, `Relabels.categoryLabel?` and their companions — what a declaration shows.
* `Relabels.inOrder`, `Relabels.namespacePath`, `Relabels.mergeKey?` — siblings in order, paths, and the
  keys of fragments.
* `Relabels.codeChildren` — the members that are in both forests.
-/

set_option autoImplicit false

namespace DocForest
namespace Forest

variable {e : Nat → Nat} {part whole part' whole' : Forest} {i j p : Nat}

/-- `whole` has the declarations of `part` under new numbers, each in the same container.  New numbers
keep the order, and behind all nodes they go on without a gap. -/
structure Renumbers (e : Nat → Nat) (part whole : Forest) : Prop where
  strictMono : StrictMono e
  beyond : ∀ k, e (part.size + k) = whole.size + k
  decl? : ∀ i, whole.decl? (e i) = part.decl? i
  codeParent? : ∀ i, whole.codeParent? (e i) = (part.codeParent? i).map e

/-- `whole` has the declarations of `part` under new numbers, each in the same container.  New numbers
keep the order of siblings and that of fragments, and behind all nodes they go on without a gap. -/
structure Relabels (e : Nat → Nat) (part whole : Forest) : Prop where
  injective : Function.Injective e
  size_le : part.size ≤ whole.size
  lt_iff : ∀ {i}, e i < whole.size ↔ i < part.size
  beyond : ∀ k, e (part.size + k) = whole.size + k
  decl? : ∀ i, whole.decl? (e i) = part.decl? i
  codeParent? : ∀ i, whole.codeParent? (e i) = (part.codeParent? i).map e
  sibling_lt : ∀ {i j}, part.codeParent? i = part.codeParent? j → i < j → e i < e j
  fragment_lt : ∀ {i j}, part.satisfies i Declaration.isFragment = true →
    part.satisfies j Declaration.isFragment = true → i < j → e i < e j

theorem Renumbers.relabels (h : Renumbers e part whole) : Relabels e part whole := by
  have hsize : e part.size = whole.size := h.beyond 0
  refine ⟨h.strictMono.injective, h.strictMono.le_apply.trans (Nat.le_of_eq hsize), fun {i} => ?_,
    h.beyond, h.decl?, h.codeParent?, fun _ hlt => h.strictMono hlt, fun _ _ hlt => h.strictMono hlt⟩
  rw [← hsize, h.strictMono.lt_iff_lt]

theorem Relabels.renumbers (h : Relabels e part whole) (hmono : StrictMono e) : Renumbers e part whole :=
  ⟨hmono, h.beyond, h.decl?, h.codeParent?⟩

namespace Relabels

variable (h : Relabels e part whole)

include h

/-- **The same steps on both sides** that change declarations only, and none to a fragment or from one,
keep the labels. -/
theorem congr (hsize : part'.size = part.size) (hsize' : whole'.size = whole.size)
    (hparent : part'.codeParent? = part.codeParent?) (hparent' : whole'.codeParent? = whole.codeParent?)
    (hfragment : ∀ i, part'.satisfies i Declaration.isFragment = part.satisfies i Declaration.isFragment)
    (hdecl : ∀ i, whole'.decl? (e i) = part'.decl? i) : Relabels e part' whole' where
  injective := h.injective
  size_le := by
    rw [hsize, hsize']
    exact h.size_le
  lt_iff := by
    rw [hsize, hsize']
    exact h.lt_iff
  beyond k := by
    rw [hsize, hsize']
    exact h.beyond k
  decl? := hdecl
  codeParent? i := by rw [hparent, hparent', h.codeParent?]
  sibling_lt hp hlt := by
    rw [hparent] at hp
    exact h.sibling_lt hp hlt
  fragment_lt hi hj hlt := by
    rw [hfragment] at hi hj
    exact h.fragment_lt hi hj hlt

/-! ## Numbers -/

theorem map_size : e part.size = whole.size :=
  h.beyond 0

/-! ## Containers -/

theorem container_iff : whole.codeParent? (e i) = some (e p) ↔ part.codeParent? i = some p := by
  rw [h.codeParent?]
  exact (Option.map_injective h.injective).eq_iff' rfl

theorem container_none_iff : whole.codeParent? (e i) = none ↔ part.codeParent? i = none := by
  rw [h.codeParent?, Option.map_eq_none_iff]

/-! ## What a declaration shows -/

theorem satisfies (i : Nat) (test : Declaration → Bool) :
    whole.satisfies (e i) test = part.satisfies i test := by
  rw [Forest.satisfies, Forest.satisfies, h.decl?]

theorem isMark : (fun i => whole.isMark (e i)) = part.isMark :=
  funext fun i => h.satisfies i _

theorem isCandidate (i : Nat) : whole.isCandidate (e i) = part.isCandidate i :=
  h.satisfies i _

theorem isExtension : (fun i => whole.isExtension (e i)) = part.isExtension :=
  funext fun i => h.satisfies i _

theorem isGuide : (fun i => whole.isGuide (e i)) = part.isGuide :=
  funext fun i => h.satisfies i _

theorem kindOf (i : Nat) : whole.kindOf (e i) = part.kindOf i := by
  rw [Forest.kindOf, Forest.kindOf, h.decl?]

theorem nameOf (i : Nat) : whole.nameOf (e i) = part.nameOf i := by
  rw [Forest.nameOf, Forest.nameOf, h.decl?]

theorem docModuleOf (i : Nat) : whole.docModuleOf (e i) = part.docModuleOf i := by
  rw [Forest.docModuleOf, Forest.docModuleOf, h.decl?]

theorem moduleOf (i : Nat) : whole.moduleOf (e i) = part.moduleOf i := by
  rw [Forest.moduleOf, Forest.moduleOf, h.docModuleOf]

theorem hintOf : (fun i => whole.hintOf (e i)) = part.hintOf := by
  funext i
  rw [Forest.hintOf, Forest.hintOf, h.decl?]

theorem categoryOf? (i : Nat) : whole.categoryOf? (e i) = part.categoryOf? i := by
  rw [Forest.categoryOf?, Forest.categoryOf?, h.decl?]

theorem categoryLabel? (i : Nat) : whole.categoryLabel? (e i) = part.categoryLabel? i := by
  rw [Forest.categoryLabel?, Forest.categoryLabel?, h.categoryOf?]

theorem inOrder (siblings : List Nat) :
    whole.inOrder (siblings.map e) = (part.inOrder siblings).map e := by
  rw [Forest.inOrder, ordered_map, h.isMark, h.hintOf, Forest.inOrder]

/-! ## Paths -/

/-- **A node has the same containers.** -/
theorem namespacePath (hnested : part.Nested) (hi : i < part.size) :
    whole.namespacePath (e i) = (part.namespacePath i).map e := by
  rw [Forest.namespacePath, Forest.namespacePath, climb_map h.codeParent?,
    climb_of_length_le (hnested.length_climb_le hi) h.size_le, List.map_reverse]

theorem mergeName (hnested : part.Nested) (i : Nat) : whole.mergeName (e i) = part.mergeName i := by
  rw [Forest.mergeName, Forest.mergeName, h.decl?]
  cases hdecl : part.decl? i with
  | none => rfl
  | some decl =>
    have hnames : (whole.namespaceAncestors (e i)).map whole.nameTextOf =
        (part.namespaceAncestors i).map part.nameTextOf := by
      rw [namespaceAncestors, namespaceAncestors, h.namespacePath hnested (lt_of_decl? hdecl),
        ← List.map_dropLast,
        List.map_map]
      refine List.map_congr_left fun j _ => ?_
      rw [Function.comp_apply, nameTextOf, nameTextOf, h.nameOf]
    rw [hnames]

/-- **The same fragments belong together.** -/
theorem mergeKey? (hnested : part.Nested) (i : Nat) : whole.mergeKey? (e i) = part.mergeKey? i := by
  rw [Forest.mergeKey?, Forest.mergeKey?, h.mergeName hnested]

/-! ## Members -/

/-- **Of the members of a node those in both forests**, told by a test. -/
theorem codeChildren {keep : Nat → Bool}
    (hkeep : ∀ j, j < whole.size → (keep j = true ↔ ∃ i, e i = j)) (p : Nat) :
    (whole.codeChildren (e p)).filter keep = (part.codeChildren p).map e := by
  rw [Forest.codeChildren, Forest.codeChildren, List.filter_filter]
  refine filter_range_map (fun i j hi hj => h.sibling_lt ?_) (fun j hj htest => ?_) fun i => ?_
  · exact (of_decide_eq_true hi).trans (of_decide_eq_true hj).symm
  · exact (hkeep j hj).1 (Bool.and_eq_true_iff.1 htest).1
  · rw [Bool.and_eq_true, decide_eq_true_eq, decide_eq_true_eq, h.container_iff, h.lt_iff]
    refine and_congr_right fun hi => and_iff_right ?_
    exact (hkeep _ (h.lt_iff.2 hi)).2 ⟨i, rfl⟩

end Relabels
end Forest
end DocForest
