import DocForest.Proofs.Levelling
import DocForest.Proofs.Pruning

/-!
# Filtering twice

A layout that has been filtered can be filtered again.  **Two filters leave what one filter at the higher
one of their levels leaves**, so that their order does not matter, and the same filter leaves everything
when it comes a second time.

For declarations alone this would be plain.  But the first filter takes out marks and groups, too, and so
changes which sections there are for the second one and what is in a group.  What it leaves of a list of
siblings is settled by the rule for marks, and following that rule twice is following it once
(`Thinned.trans`).  It remains to see that the second filter keeps the nodes that one filter would have
kept, which is by induction from the children of a node to the node (`Layout.keeps_filtered`).

## What is here

* `Filter.withLevel`, `Filter.raised` — the filter with another level, and with the higher one of two.
* `Layout.keeps_filtered` — **the second filter keeps what one filter at the higher level keeps.**
* `Layout.Alike`, `Layout.filtered_filtered` — two layouts that show the same; two filters and one filter
  leave such layouts.
* `Forest.prune_prune` — pruning twice, in either order, and pruning twice at one level.
-/

set_option autoImplicit false

namespace DocForest

variable {given : List Nat} {i : Nat}

/-! ## Two levels -/

namespace Filter

/-- The filter with another level. -/
def withLevel (filter : Filter) (level : AccessLevel) : Filter :=
  { filter with minLevel := level }

/-- The filter with the higher one of its own level and another. -/
def raised (filter : Filter) (level : AccessLevel) : Filter :=
  filter.withLevel (filter.minLevel.max level)

theorem passes_raised {filter : Filter} {level : AccessLevel} :
    (filter.raised level).Passes i ↔ filter.Passes i ∧ (filter.withLevel level).Passes i := by
  simp only [Passes, raised, withLevel, AccessLevel.max_le_iff]
  constructor
  · intro h
    exact ⟨fun decl hdecl hgroup hmark => (h decl hdecl hgroup hmark).1,
      fun decl hdecl hgroup hmark => (h decl hdecl hgroup hmark).2⟩
  · rintro ⟨h, h'⟩ decl hdecl hgroup hmark
    exact ⟨h decl hdecl hgroup hmark, h' decl hdecl hgroup hmark⟩

theorem rejects_raised (filter : Filter) (level : AccessLevel) (i : Nat) :
    (filter.raised level).rejects i = (filter.rejects i || (filter.withLevel level).rejects i) := by
  rw [← Bool.not_inj_iff, Bool.eq_iff_iff]
  simp only [Bool.not_eq_true', Bool.not_or, Bool.and_eq_true, not_rejects_iff, passes_raised]

end Filter

/-! ## What both of them keep -/

namespace Layout

variable {layout : Layout} {filter : Filter} {level : AccessLevel}

/-- A filter keeps no more when its level is raised. -/
theorem keeps_of_keeps_raised (h : Acyclic layout.childrenOf layout.roots)
    (hi : Below layout.childrenOf layout.roots i)
    (hkeeps : (filter.raised level).keeps layout.childrenOf layout.depth i = true) :
    filter.keeps layout.childrenOf layout.depth i = true := by
  revert hkeeps
  refine Below.upward (P := fun i => (filter.raised level).keeps layout.childrenOf layout.depth i = true →
    filter.keeps layout.childrenOf layout.depth i = true)
    (fun _ _ => length_trail_le_depth h) (fun i hi ih hkeeps => ?_) hi
  rw [keeps_eq h hi, Bool.and_eq_true, Bool.not_eq_true', Bool.not_eq_true',
    Bool.and_eq_false_iff] at hkeeps ⊢
  obtain ⟨hrejects, hgroup⟩ := hkeeps
  rw [Filter.rejects_raised, Bool.or_eq_false_iff] at hrejects
  refine ⟨hrejects.1, hgroup.imp_right fun hne => ?_⟩
  rw [List.isEmpty_eq_false_iff] at hne ⊢
  -- what the higher level leaves of a group is not marks alone, and the rest of it is kept
  obtain ⟨c, hc, hkeeps, hmark⟩ : ∃ c ∈ layout.childrenOf i,
      (filter.raised level).keeps layout.childrenOf layout.depth c = true ∧
        filter.forest.isMark c = false := Filter.exists_of_keptOf_ne_nil hne
  exact List.ne_nil_of_mem ((Filter.mem_keptOf hmark).2 ⟨hc, ih c hc hkeeps⟩)

/-- Siblings go through both filters as through one, if the second one keeps the same of those that the
first one leaves. -/
theorem keptOf_keptOf (h : Acyclic layout.childrenOf layout.roots)
    (hgiven : ∀ i ∈ given, Below layout.childrenOf layout.roots i)
    (hbelow : ∀ i ∈ filter.keptOf layout.childrenOf layout.depth given,
      Below (layout.filtered filter).childrenOf (layout.filtered filter).roots i)
    (hsame : ∀ i ∈ filter.keptOf layout.childrenOf layout.depth given,
      (filter.withLevel level).keeps (layout.filtered filter).childrenOf (layout.filtered filter).depth i =
        (filter.raised level).keeps layout.childrenOf layout.depth i) :
    (filter.withLevel level).keptOf (layout.filtered filter).childrenOf (layout.filtered filter).depth
        (filter.keptOf layout.childrenOf layout.depth given) =
      (filter.raised level).keptOf layout.childrenOf layout.depth given := by
  have hfirst := thinned_keptOf_keeps filter h hgiven fun _ _ _ => Iff.rfl
  have hsecond := thinned_keptOf_keeps (filter.withLevel level) (acyclic_filtered h filter) hbelow
    fun i hi _ => by rw [hsame i hi]
  have honce := thinned_keptOf_keeps (filter.raised level) h hgiven fun _ _ _ => Iff.rfl
  exact (hfirst.trans hsecond fun i hi => keeps_of_keeps_raised h (hgiven i hi)).unique honce

/-- **The second filter keeps what one filter at the higher level keeps.** -/
theorem keeps_filtered (h : Acyclic layout.childrenOf layout.roots)
    (hi : Below (layout.filtered filter).childrenOf (layout.filtered filter).roots i) :
    (filter.withLevel level).keeps (layout.filtered filter).childrenOf (layout.filtered filter).depth i =
      (filter.raised level).keeps layout.childrenOf layout.depth i := by
  have hfirst := acyclic_filtered h filter
  refine Below.upward (P := fun i =>
    (filter.withLevel level).keeps (layout.filtered filter).childrenOf (layout.filtered filter).depth i =
      (filter.raised level).keeps layout.childrenOf layout.depth i)
    (fun _ _ => length_trail_le_depth hfirst) (fun i hi ih => ?_) hi
  have hbelow := below_of_below_filtered hi
  have hchildren := childrenOf_filtered_of_below h hi
  have hpasses : filter.rejects i = false := Filter.not_rejects_of_keeps (exists_openWay_of_below hi).2
  rw [hchildren] at ih
  have hkept := keptOf_keptOf h (fun c hc => hbelow.child hc)
    (fun c hc => hi.child (hchildren ▸ hc)) ih
  rw [keeps_eq hfirst hi, keeps_eq h hbelow, hchildren, hkept, Filter.rejects_raised, hpasses,
    Bool.false_or]
  rfl

/-- What is listed below a node, or as the roots, goes through both filters as through one. -/
theorem keptOf_filtered (h : Acyclic layout.childrenOf layout.roots)
    (hgiven : ∀ i ∈ given, Below layout.childrenOf layout.roots i)
    (hbelow : ∀ i ∈ filter.keptOf layout.childrenOf layout.depth given,
      Below (layout.filtered filter).childrenOf (layout.filtered filter).roots i) :
    (filter.withLevel level).keptOf (layout.filtered filter).childrenOf (layout.filtered filter).depth
        (filter.keptOf layout.childrenOf layout.depth given) =
      (filter.raised level).keptOf layout.childrenOf layout.depth given :=
  keptOf_keptOf h hgiven hbelow fun i hi => keeps_filtered h (hbelow i hi)

/-! ## What both of them leave -/

/-- Two layouts show the same: they have the same roots, and the same list of children wherever they
lead.  An entry for a node that they do not lead to may be missing in one of them. -/
structure Alike (layout other : Layout) : Prop where
  roots : layout.roots = other.roots
  childList? : ∀ i, Below layout.childrenOf layout.roots i → layout.childList? i = other.childList? i
  reachable : layout.reachable = other.reachable

/-- It is enough to compare the lists of nodes that both of them lead to. -/
theorem Alike.of_lists {other : Layout} (h : Acyclic layout.childrenOf layout.roots)
    (hother : Acyclic other.childrenOf other.roots) (hroots : layout.roots = other.roots)
    (hlists : ∀ i, Below layout.childrenOf layout.roots i → Below other.childrenOf other.roots i →
      layout.childList? i = other.childList? i) : layout.Alike other := by
  have hlength := fun i path => @length_trail_le_depth i other hother path
  rw [← hroots] at hlists hlength
  have hchildren : ∀ i, Below layout.childrenOf layout.roots i → Below other.childrenOf layout.roots i →
      layout.childrenOf i = other.childrenOf i := fun i hi hi' => by
    rw [childrenOf, childrenOf, hlists i hi hi']
  have hbelow : ∀ i, Below layout.childrenOf layout.roots i → Below other.childrenOf layout.roots i :=
    fun i hi => hi.congr hchildren
  refine ⟨hroots, fun i hi => hlists i hi (hbelow i hi), ?_⟩
  rw [Layout.reachable, Layout.reachable, ← hroots]
  exact preorder_congr (fun p hp => hchildren p hp (hbelow p hp)) (fun _ _ => length_trail_le_depth h) hlength

/-- **Two filters, one after the other, leave what one at the higher level leaves.** -/
theorem filtered_filtered (h : Acyclic layout.childrenOf layout.roots) (filter : Filter)
    (level : AccessLevel) :
    ((layout.filtered filter).filtered (filter.withLevel level)).Alike
      (layout.filtered (filter.raised level)) := by
  have hfirst := acyclic_filtered h filter
  refine Alike.of_lists (acyclic_filtered hfirst _) (acyclic_filtered h _) ?_ fun i hi hi' => ?_
  · exact keptOf_filtered h (fun i hi => .start hi) fun i hi => .start hi
  · have hbelow := below_of_below_filtered hi
    have hchildren := childrenOf_filtered_of_below h hbelow
    have hkept : (filter.withLevel level).keptOf (layout.filtered filter).childrenOf
        (layout.filtered filter).depth (filter.keptOf layout.childrenOf layout.depth (layout.childrenOf i)) =
          (filter.raised level).keptOf layout.childrenOf layout.depth (layout.childrenOf i) :=
      keptOf_filtered h (fun c hc => (below_of_below_filtered hbelow).child hc)
        fun c hc => hbelow.child (hchildren ▸ hc)
    rw [childList?_filtered_of_below hfirst hi, childList?_filtered_of_below h hbelow,
      childList?_filtered_of_below h hi', Option.map_map]
    cases hlist : layout.childList? i with
    | none => rfl
    | some items =>
      rw [childrenOf, hlist, Option.getD_some] at hkept
      exact congrArg some hkept

/-- Neither of them fails. -/
theorem prune_filtered {forest : Forest} (h : Acyclic layout.childrenOf layout.roots)
    (hsize : ∀ i, Below layout.childrenOf layout.roots i → i < forest.size) (first second : AccessLevel) :
    ∃ twice, ((layout.filtered ⟨forest, first⟩).prune forest second).outcome = .ok twice ∧
      twice.Alike (layout.filtered ⟨forest, first.max second⟩) :=
  ⟨_, prune_outcome fun i hi => hsize i (below_of_below_filtered hi),
    filtered_filtered h ⟨forest, first⟩ second⟩

end Layout

/-- **Pruning at two levels, in either order, is pruning at the higher one**, and pruning twice at one
level is pruning once. -/
theorem Forest.prune_prune {forest : Forest} {layout : Layout}
    (h : Acyclic layout.childrenOf layout.roots)
    (hsize : ∀ i, Below layout.childrenOf layout.roots i → i < forest.size) (a b : AccessLevel) :
    ∃ atA atB once, (layout.prune forest a).outcome = .ok atA ∧ (layout.prune forest b).outcome = .ok atB ∧
      (layout.prune forest (a.max b)).outcome = .ok once ∧
      (∃ thenB, (atA.prune forest b).outcome = .ok thenB ∧ thenB.Alike once) ∧
      (∃ thenA, (atB.prune forest a).outcome = .ok thenA ∧ thenA.Alike once) ∧
      ∃ twice, (atA.prune forest a).outcome = .ok twice ∧ twice.Alike atA := by
  have hab := Layout.prune_filtered h hsize a b
  have hba := Layout.prune_filtered h hsize b a
  have haa := Layout.prune_filtered h hsize a a
  rw [AccessLevel.max_comm b a] at hba
  rw [AccessLevel.max_self] at haa
  exact ⟨_, _, _, Layout.prune_outcome hsize, Layout.prune_outcome hsize, Layout.prune_outcome hsize,
    hab, hba, haa⟩

/-- A class with a section that goes away for the public, the mark of which has a child of its own, and a
group in which nothing is public. -/
def tieredForest : Forest :=
  Forest.addAll {}
    [.group (.str "Classes") .null,
      { kind := .objcClass, name := .str "Widget" },
      { kind := .objcMark, name := .str "Drawing" },
      { kind := .objcInstanceMethod, name := .str "-draw" },
      { kind := .objcMark, name := .str "Caching" },
      { kind := .objcInstanceMethod, name := .str "-flush", level := .internalLevel },
      .group (.str "Structures") .null,
      { kind := .swiftStruct, name := .str "Cache", level := .internalLevel },
      { kind := .objcInstanceMethod, name := .str "-secret", level := .privateLevel }]

def tieredLayout : Layout where
  roots := [0, 6]
  children := [(0, [1]), (1, [2, 3, 4, 5]), (4, [8]), (6, [7])]

theorem Forest.prune_prune_tiers :
    Acyclic tieredLayout.childrenOf tieredLayout.roots ∧
      (∀ i, Below tieredLayout.childrenOf tieredLayout.roots i → i < tieredForest.size) ∧
      (tieredLayout.prune tieredForest .internalLevel).outcome =
        .ok ⟨[0, 6], [(0, [1]), (1, [2, 3, 4, 5]), (4, []), (6, [7])]⟩ ∧
      ∃ thenPublic, (Layout.prune ⟨[0, 6], [(0, [1]), (1, [2, 3, 4, 5]), (4, []), (6, [7])]⟩ tieredForest
          .publicLevel).outcome = .ok thenPublic ∧
        thenPublic.Alike ⟨[0], [(0, [1]), (1, [2, 3]), (4, [])]⟩ := by
  have hacyclic : Acyclic tieredLayout.childrenOf tieredLayout.roots := Layout.acyclic_of_entries (by decide)
  have hsize : ∀ i, Below tieredLayout.childrenOf tieredLayout.roots i → i < tieredForest.size :=
    fun _ => Layout.below_lt_of_entries (by decide) (by decide)
  have hinternal : (tieredLayout.prune tieredForest .internalLevel).outcome =
      .ok ⟨[0, 6], [(0, [1]), (1, [2, 3, 4, 5]), (4, []), (6, [7])]⟩ := by decide
  have hpublic : (tieredLayout.prune tieredForest .publicLevel).outcome =
      .ok ⟨[0], [(0, [1]), (1, [2, 3]), (4, [])]⟩ := by decide
  obtain ⟨atA, -, once, ha, -, honce, hthen, -⟩ :=
    Forest.prune_prune hacyclic hsize .internalLevel .publicLevel
  obtain rfl := Except.ok.inj (ha.symm.trans hinternal)
  obtain rfl := Except.ok.inj (honce.symm.trans hpublic)
  exact ⟨hacyclic, hsize, hinternal, hthen⟩

end DocForest
