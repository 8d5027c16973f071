import DocForest.Proofs.Filtering
import DocForest.Proofs.Thinning

/-!
# The rules of the access filter

Three rules say what the access filter takes out: declarations below the least level with everything in
them, groups with nothing left in them, and marks with nothing left in their sections.  Each of them can
make another apply further up, so that they would have to be applied until nothing changes.  The filter
reads the layout only once, from the bottom up.  **That is enough**: in a layout without circles what is
left of a node depends on what is left of its children, and on nothing else.

## What is here

* `Layout.keeps_eq` — what is left of a node, from what is left of its children.
* `Layout.OpenWay`, `Layout.below_filtered_iff` — a node that is no mark is left if a way without hidden
  declarations leads to it, and if it is no group in which nothing is left.
* `Layout.Over`, `Layout.PrunedTo` — layouts over a forest, and what the rules make of them;
  `Forest.prune_prunedTo` — **the filter returns what the rules make of the layout**.
-/

set_option autoImplicit false

namespace DocForest

variable {given : List Nat} {i m p : Nat}

/-! ## One pass is enough -/

namespace Filter

variable {filter : Filter} {children : Nat → List Nat}

theorem keeps_succ (filter : Filter) (children : Nat → List Nat) (depth i : Nat) :
    filter.keeps children (depth + 1) i =
      (!filter.rejects i
        && !(filter.forest.isGroup i && (filter.keptOf children depth (children i)).isEmpty)) := rfl

theorem keeps_congr_depth {n k : Nat} (hn : ∀ j path, Trail children [i] j path → path.length ≤ n)
    (hk : ∀ j path, Trail children [i] j path → path.length ≤ k) :
    filter.keeps children n i = filter.keeps children k i := by
  induction n generalizing k i with
  | zero => exact absurd (hn i [i] (.start List.mem_cons_self)) (by simp)
  | succ n ih =>
    cases k with
    | zero => exact absurd (hk i [i] (.start List.mem_cons_self)) (by simp)
    | succ k =>
      have hbelow : ∀ {depth : Nat}, (∀ j path, Trail children [i] j path → path.length ≤ depth + 1) →
          ∀ c ∈ children i, ∀ j path, Trail children [c] j path → path.length ≤ depth :=
        fun hdepth c hc j path hpath => length_trail_le_of_mem hdepth List.mem_cons_self
          (hpath.mono (List.cons_subset.2 ⟨hc, List.nil_subset _⟩))
      have hfilter : (children i).filter (filter.keeps children n) =
          (children i).filter (filter.keeps children k) :=
        List.filter_congr fun c hc => ih (hbelow hn c hc) (hbelow hk c hc)
      rw [keeps_succ, keeps_succ, keptOf, keptOf, hfilter]

end Filter

namespace Layout

variable {layout : Layout} {filter : Filter}

/-- **What is left of a node, from what is left of its children.** -/
theorem keeps_eq (h : Acyclic layout.childrenOf layout.roots)
    (hi : Below layout.childrenOf layout.roots i) :
    filter.keeps layout.childrenOf layout.depth i =
      (!filter.rejects i && !(filter.forest.isGroup i
        && (filter.keptOf layout.childrenOf layout.depth (layout.childrenOf i)).isEmpty)) := by
  -- a way down from the node goes on from one that leads to it, so that it is no longer than that may be
  have hlength : ∀ j path, Trail layout.childrenOf [i] j path → path.length ≤ layout.depth := by
    intro j path hpath
    obtain ⟨above, habove⟩ := below_iff_exists_trail.1 hi
    have hpos := habove.length_pos
    obtain ⟨s, hs, ⟨-, rfl⟩ | ⟨front, hfront, rfl⟩⟩ := hpath.split
    · exact Nat.succ_le_succ (Nat.zero_le _)
    · obtain rfl := List.mem_singleton.1 hs
      have hle := length_trail_le_depth h (hfront.append habove)
      rw [List.length_append] at hle
      rw [List.length_append, List.length_singleton]
      omega
  rw [← Filter.keeps_succ]
  exact Filter.keeps_congr_depth hlength fun j path hpath => Nat.le_succ_of_le (hlength j path hpath)

end Layout

/-! ## What is left -/

/-- A node that is no declaration below the least level. -/
def Filter.Passes (filter : Filter) (i : Nat) : Prop :=
  ∀ decl, filter.forest.decl? i = some decl → decl.kind.isOverview = false → decl.kind.isMark = false →
    filter.minLevel ≤ decl.level

theorem Filter.not_rejects_iff {filter : Filter} : filter.rejects i = false ↔ filter.Passes i := by
  rw [Passes, rejects, Forest.satisfies]
  cases filter.forest.decl? i with
  | none => simp
  | some decl =>
    simp only [Option.any_some, Option.some.injEq, forall_eq', ← AccessLevel.not_lt_iff_le]
    cases decl.kind.isOverview <;> cases decl.kind.isMark <;> simp

namespace Filter

variable {filter : Filter} {children : Nat → List Nat} {depth : Nat}

theorem passes_of_keeps (h : filter.keeps children depth i = true) : filter.Passes i :=
  not_rejects_iff.1 (not_rejects_of_keeps h)

theorem mem_keptOf (hmark : filter.forest.isMark i = false) :
    i ∈ filter.keptOf children depth given ↔ i ∈ given ∧ filter.keeps children depth i = true := by
  rw [keptOf, mem_dropEmptySections_of_not_mark _ _ hmark, List.mem_filter]

/-- If anything is left of siblings, not only marks are kept. -/
theorem exists_of_keptOf_ne_nil (h : filter.keptOf children depth given ≠ []) :
    ∃ c ∈ given, filter.keeps children depth c = true ∧ filter.forest.isMark c = false := by
  obtain ⟨c, hc, hmark⟩ := (noEmptySection_dropEmptySections _ _).exists_not_isMark h
  obtain ⟨hc, hkeeps⟩ := of_mem_keptOf hc
  exact ⟨c, hc, hkeeps, hmark⟩

end Filter

theorem Forest.not_isGroup_of_isMark {forest : Forest} (h : forest.isMark m = true) :
    forest.isGroup m = false := by
  obtain ⟨decl, hdecl, hmark⟩ := (Option.any_eq_true _ _).1 h
  rw [isGroup, satisfies, hdecl, Option.any_some, Bool.eq_false_iff]
  intro hoverview
  rw [of_decide_eq_true hoverview] at hmark
  exact absurd hmark (by decide)

/-- A layout over a forest: it leads to nodes of the forest, and never in a circle; marks have no
children. -/
structure Layout.Over (layout : Layout) (forest : Forest) : Prop where
  acyclic : Acyclic layout.childrenOf layout.roots
  lt_size : ∀ i, Below layout.childrenOf layout.roots i → i < forest.size
  mark : ∀ i, forest.isMark i = true → layout.childrenOf i = []

/-- A way down on which there is no declaration below the least level. -/
structure Layout.OpenWay (layout : Layout) (filter : Filter) (starts : List Nat) (i : Nat)
    (path : List Nat) : Prop where
  trail : Trail layout.childrenOf starts i path
  passes : ∀ j ∈ path, filter.Passes j

namespace Layout

variable {layout : Layout} {filter : Filter} {starts path : List Nat} {s : Nat}

theorem over_of_lt {forest : Forest} (hroots : ∀ i ∈ layout.roots, i < forest.size)
    (hentries : ∀ entry ∈ layout.children, forest.isMark entry.1 = false ∧
      ∀ c ∈ entry.2, entry.1 < c ∧ c < forest.size) : layout.Over forest where
  acyclic := acyclic_of_entries fun entry hentry c hc => ((hentries entry hentry).2 c hc).1
  lt_size _ := below_lt_of_entries hroots fun entry hentry c hc => ((hentries entry hentry).2 c hc).2
  mark m hm := by
    rw [List.eq_nil_iff_forall_not_mem]
    intro c hc
    obtain ⟨entry, hentry, rfl, -⟩ := exists_entry_of_mem_childrenOf hc
    exact Bool.false_ne_true ((hentries entry hentry).1.symm.trans hm)

namespace OpenWay

theorem start (hi : i ∈ starts) (hpasses : filter.Passes i) : layout.OpenWay filter starts i [i] where
  trail := .start hi
  passes _ hj := List.mem_singleton.1 hj ▸ hpasses

theorem child (h : layout.OpenWay filter starts p path) (hi : i ∈ layout.childrenOf p)
    (hpasses : filter.Passes i) : layout.OpenWay filter starts i (i :: path) where
  trail := .child h.trail hi
  passes := List.forall_mem_cons.2 ⟨hpasses, h.passes⟩

theorem append {front : List Nat} (hfront : layout.OpenWay filter (layout.childrenOf s) i front)
    (h : layout.OpenWay filter starts s path) : layout.OpenWay filter starts i (front ++ path) where
  trail := hfront.trail.append h.trail
  passes := List.forall_mem_append.2 ⟨hfront.passes, h.passes⟩

theorem visited (h : layout.OpenWay filter layout.roots i path)
    (hacyclic : Acyclic layout.childrenOf layout.roots) :
    i ∈ filter.visited layout.childrenOf layout.depth layout.roots := by
  obtain ⟨htrail, hpasses⟩ := h
  rw [Filter.mem_visited_iff_below hacyclic]
  induction htrail with
  | start hi => exact .start hi
  | @child p i path hp hi ih =>
    rw [List.forall_mem_cons] at hpasses
    refine .child (ih hpasses.2) ?_
    rw [Filter.not_rejects_iff.2 (hpasses.2 p hp.mem), if_neg Bool.false_ne_true]
    exact hi

end OpenWay

/-- Whatever is left can be reached that way, and has been kept. -/
theorem exists_openWay_of_below
    (h : Below (layout.filtered filter).childrenOf (layout.filtered filter).roots i) :
    (∃ path, layout.OpenWay filter layout.roots i path) ∧
      filter.keeps layout.childrenOf layout.depth i = true := by
  induction h with
  | start hi =>
    obtain ⟨hi, hkeeps⟩ := Filter.of_mem_keptOf hi
    exact ⟨⟨_, .start hi (Filter.passes_of_keeps hkeeps)⟩, hkeeps⟩
  | @child p i _ hi ih =>
    obtain ⟨⟨path, hpath⟩, -⟩ := ih
    rw [childrenOf_filtered] at hi
    split at hi
    · obtain ⟨hi, hkeeps⟩ := Filter.of_mem_keptOf hi
      exact ⟨⟨_, hpath.child hi (Filter.passes_of_keeps hkeeps)⟩, hkeeps⟩
    · exact (List.not_mem_nil hi).elim

/-- On such a way to a node that has been kept everything is left: no group on it is empty. -/
theorem below_of_openWay (h : layout.Over filter.forest) (hway : layout.OpenWay filter layout.roots i path)
    (hmark : filter.forest.isMark i = false)
    (hkeeps : filter.keeps layout.childrenOf layout.depth i = true) :
    ∀ j ∈ path, Below (layout.filtered filter).childrenOf (layout.filtered filter).roots j := by
  -- from the end of the way upwards: whatever has a child that is kept is kept, a group as well
  obtain ⟨htrail, hpasses⟩ := hway
  induction htrail with
  | start hi =>
    intro j hj
    obtain rfl := List.mem_singleton.1 hj
    exact .start ((Filter.mem_keptOf hmark).2 ⟨hi, hkeeps⟩)
  | @child p i path hp hi ih =>
    rw [List.forall_mem_cons] at hpasses
    have hkept := (Filter.mem_keptOf hmark).2 ⟨hi, hkeeps⟩
    have hparent : filter.forest.isMark p = false := by
      rw [Bool.eq_false_iff]
      intro hp
      rw [h.mark p hp] at hi
      exact List.not_mem_nil hi
    have hkeepsParent : filter.keeps layout.childrenOf layout.depth p = true := by
      rw [keeps_eq h.acyclic hp.isBelow, Filter.not_rejects_iff.2 (hpasses.2 p hp.mem),
        List.isEmpty_eq_false_iff.2 (List.ne_nil_of_mem hkept), Bool.and_false]
      rfl
    have hbelow := ih hparent hkeepsParent hpasses.2
    refine List.forall_mem_cons.2 ⟨.child (hbelow p hp.mem) ?_, hbelow⟩
    have hvisited := OpenWay.visited ⟨hp, hpasses.2⟩ h.acyclic
    rwa [childrenOf_filtered, hkeepsParent, List.contains_iff_mem.2 hvisited, Bool.and_self, if_pos rfl]

/-- **A node that is no mark is left if it can be reached that way and has been kept.** -/
theorem below_filtered_iff (h : layout.Over filter.forest) (hmark : filter.forest.isMark i = false) :
    Below (layout.filtered filter).childrenOf (layout.filtered filter).roots i ↔
      (∃ path, layout.OpenWay filter layout.roots i path) ∧
        filter.keeps layout.childrenOf layout.depth i = true :=
  ⟨exists_openWay_of_below, fun ⟨⟨_, hway⟩, hkeeps⟩ => below_of_openWay h hway hmark hkeeps i hway.trail.mem⟩

/-- Nothing but its level takes out a declaration. -/
theorem keeps_of_openWay (h : layout.Over filter.forest) (hway : layout.OpenWay filter layout.roots i path)
    (hgroup : filter.forest.isGroup i = false) :
    filter.keeps layout.childrenOf layout.depth i = true := by
  rw [keeps_eq h.acyclic hway.trail.isBelow, Filter.not_rejects_iff.2 (hway.passes i hway.trail.mem), hgroup]
  rfl

/-- Nothing takes out a mark, as long as its section is not looked at. -/
theorem keeps_of_isMark (h : Acyclic layout.childrenOf layout.roots)
    (hm : Below layout.childrenOf layout.roots m) (hmark : filter.forest.isMark m = true) :
    filter.keeps layout.childrenOf layout.depth m = true := by
  rw [keeps_eq h hm, Forest.not_rejects_of_isMark hmark, Forest.not_isGroup_of_isMark hmark]
  rfl

/-- Of siblings that can be reached the filter leaves those that it keeps, and the marks that go with
them. -/
theorem thinned_keptOf_keeps (filter : Filter) {survives : Nat → Prop}
    (h : Acyclic layout.childrenOf layout.roots)
    (hgiven : ∀ i ∈ given, Below layout.childrenOf layout.roots i)
    (hkeeps : ∀ i ∈ given, filter.forest.isMark i = false →
      (filter.keeps layout.childrenOf layout.depth i = true ↔ survives i)) :
    Thinned filter.forest.isMark survives given (filter.keptOf layout.childrenOf layout.depth given) :=
  thinned_dropEmptySections (fun m hm hmark => keeps_of_isMark h (hgiven m hm) hmark) hkeeps

/-- A group that is kept has a declaration in it, perhaps in groups within it. -/
theorem exists_declaration_of_keeps {depth : Nat} (hgroup : filter.forest.isGroup i = true)
    (hkeeps : filter.keeps layout.childrenOf depth i = true) :
    ∃ j path, layout.OpenWay filter (layout.childrenOf i) j path ∧ filter.forest.isGroup j = false ∧
      filter.forest.isMark j = false := by
  -- on the levels that the filter looks at, which no group is kept without
  induction depth generalizing i with
  | zero => exact absurd hkeeps Bool.false_ne_true
  | succ depth ih =>
    have hkept : filter.keptOf layout.childrenOf depth (layout.childrenOf i) ≠ [] := by
      rw [Filter.keeps_succ, hgroup, Bool.true_and, Bool.and_eq_true, Bool.not_eq_true'] at hkeeps
      simpa using hkeeps.2
    obtain ⟨c, hc, hkeeps, hmark⟩ := Filter.exists_of_keptOf_ne_nil hkept
    have hstart : layout.OpenWay filter (layout.childrenOf i) c [c] :=
      .start hc (Filter.passes_of_keeps hkeeps)
    cases hcgroup : filter.forest.isGroup c with
    | false => exact ⟨c, [c], hstart, hcgroup, hmark⟩
    | true =>
      obtain ⟨j, path, hpath, hj⟩ := ih hcgroup hkeeps
      exact ⟨j, _, hpath.append hstart, hj⟩

/-- What the rules of the filter make of a layout. -/
structure PrunedTo (layout : Layout) (filter : Filter) (pruned : Layout) : Prop where
  reachable_iff : ∀ i, i ∈ pruned.reachable ↔ Below pruned.childrenOf pruned.roots i
  /-- A declaration is left if no declaration on some way to it is below the least level. -/
  declaration_iff : ∀ i, filter.forest.isGroup i = false → filter.forest.isMark i = false →
    (i ∈ pruned.reachable ↔ ∃ path, layout.OpenWay filter layout.roots i path)
  /-- A group is left if such a way leads to it and another one from there to a declaration. -/
  group_iff : ∀ i, filter.forest.isGroup i = true →
    (i ∈ pruned.reachable ↔ (∃ path, layout.OpenWay filter layout.roots i path) ∧
      ∃ j path, layout.OpenWay filter (layout.childrenOf i) j path ∧
        filter.forest.isGroup j = false ∧ filter.forest.isMark j = false)
  group_children : ∀ i ∈ pruned.reachable, filter.forest.isGroup i = true → pruned.childrenOf i ≠ []
  roots : Thinned filter.forest.isMark (· ∈ pruned.reachable) layout.roots pruned.roots
  children : ∀ p ∈ pruned.reachable,
    Thinned filter.forest.isMark (· ∈ pruned.reachable) (layout.childrenOf p) (pruned.childrenOf p)
  root_sections : NoEmptySection filter.forest.isMark pruned.roots
  child_sections : ∀ p ∈ pruned.reachable, NoEmptySection filter.forest.isMark (pruned.childrenOf p)
  root_order : pruned.roots.Sublist layout.roots
  child_order : ∀ p, (pruned.childrenOf p).Sublist (layout.childrenOf p)

/-- **Of siblings that can be reached the filter leaves what the rule says.** -/
theorem thinned_keptOf (h : layout.Over filter.forest)
    (hbelow : ∀ i ∈ given, Below layout.childrenOf layout.roots i)
    (hways : ∀ i ∈ given, filter.Passes i → ∃ path, layout.OpenWay filter layout.roots i path) :
    Thinned filter.forest.isMark
      (Below (layout.filtered filter).childrenOf (layout.filtered filter).roots) given
      (filter.keptOf layout.childrenOf layout.depth given) := by
  refine thinned_keptOf_keeps filter h.acyclic hbelow fun i hi hmark => ?_
  rw [below_filtered_iff h hmark]
  exact ⟨fun hkeeps => ⟨hways i hi (Filter.passes_of_keeps hkeeps), hkeeps⟩, fun hi => hi.2⟩

theorem childList?_filtered_of_below (h : Acyclic layout.childrenOf layout.roots)
    (hp : Below (layout.filtered filter).childrenOf (layout.filtered filter).roots p) :
    (layout.filtered filter).childList? p =
      (layout.childList? p).map (filter.keptOf layout.childrenOf layout.depth) := by
  obtain ⟨⟨path, hway⟩, hkeeps⟩ := exists_openWay_of_below hp
  rw [childList?_filtered, hkeeps, List.contains_iff_mem.2 (hway.visited h), Bool.and_self, if_pos rfl]

theorem childrenOf_filtered_of_below (h : Acyclic layout.childrenOf layout.roots)
    (hp : Below (layout.filtered filter).childrenOf (layout.filtered filter).roots p) :
    (layout.filtered filter).childrenOf p =
      filter.keptOf layout.childrenOf layout.depth (layout.childrenOf p) := by
  rw [childrenOf, childList?_filtered_of_below h hp, childrenOf]
  cases layout.childList? p <;> rfl

/-- **What the filter leaves is what the rules make of the layout.** -/
theorem prunedTo_filtered (h : layout.Over filter.forest) :
    layout.PrunedTo filter (layout.filtered filter) := by
  have hreachable : ∀ i, i ∈ (layout.filtered filter).reachable ↔
      Below (layout.filtered filter).childrenOf (layout.filtered filter).roots i := fun i =>
    mem_reachable_iff_of_acyclic (acyclic_filtered h.acyclic filter)
  have hsurvives : (· ∈ (layout.filtered filter).reachable) =
      Below (layout.filtered filter).childrenOf (layout.filtered filter).roots :=
    funext fun i => propext (hreachable i)
  have hroots : Thinned filter.forest.isMark (· ∈ (layout.filtered filter).reachable) layout.roots
      (layout.filtered filter).roots := by
    rw [hsurvives]
    exact thinned_keptOf h (fun _ hi => .start hi) fun i hi hpasses => ⟨[i], .start hi hpasses⟩
  have hchildren : ∀ p ∈ (layout.filtered filter).reachable,
      Thinned filter.forest.isMark (· ∈ (layout.filtered filter).reachable) (layout.childrenOf p)
        ((layout.filtered filter).childrenOf p) := by
    intro p hp
    rw [hreachable] at hp
    obtain ⟨⟨path, hway⟩, -⟩ := exists_openWay_of_below hp
    rw [hsurvives, childrenOf_filtered_of_below h.acyclic hp]
    exact thinned_keptOf h (fun _ hi => .child hway.trail.isBelow hi)
      fun i hi hpasses => ⟨i :: path, hway.child hi hpasses⟩
  refine
    { reachable_iff := hreachable
      declaration_iff := fun i hgroup hmark => ?_
      group_iff := fun i hgroup => ⟨fun hi => ?_, fun ⟨⟨path, hway⟩, j, front, hfront, hj, hmark⟩ => ?_⟩
      group_children := fun i hi hgroup => ?_
      roots := hroots
      children := hchildren
      root_sections := hroots.noEmptySection
      child_sections := fun p hp => (hchildren p hp).noEmptySection
      root_order := hroots.sublist
      child_order := layout.childrenOf_filtered_sublist filter }
  · rw [hreachable, below_filtered_iff h hmark]
    exact ⟨fun hi => hi.1, fun ⟨path, hway⟩ => ⟨⟨path, hway⟩, keeps_of_openWay h hway hgroup⟩⟩
  · obtain ⟨hway, hkeeps⟩ := exists_openWay_of_below ((hreachable i).1 hi)
    exact ⟨hway, exists_declaration_of_keeps hgroup hkeeps⟩
  · have hwhole := hfront.append hway
    refine (hreachable i).2 (below_of_openWay h hwhole hmark (keeps_of_openWay h hwhole hj) i ?_)
    exact List.mem_append_right _ hway.trail.mem
  · have hbelow := (hreachable i).1 hi
    obtain ⟨⟨path, hway⟩, hkeeps⟩ := exists_openWay_of_below hbelow
    rw [keeps_eq h.acyclic hway.trail.isBelow, hgroup, Bool.true_and, Bool.and_eq_true,
      Bool.not_eq_true', ← childrenOf_filtered_of_below h.acyclic hbelow] at hkeeps
    simpa using hkeeps.2

end Layout

/-- **Pruning a layout over a forest returns what the rules make of it.** -/
theorem Forest.prune_prunedTo {forest : Forest} {layout : Layout} (minLevel : AccessLevel)
    (h : layout.Over forest) :
    ∃ pruned, (layout.prune forest minLevel).outcome = .ok pruned ∧
      layout.PrunedTo ⟨forest, minLevel⟩ pruned :=
  ⟨_, Layout.prune_outcome h.lt_size, Layout.prunedTo_filtered h⟩

/-- A class in a group, with one section that stays and one that does not, and a group that holds nothing
but a group that becomes empty. -/
def sectionedForest : Forest :=
  Forest.addAll {}
    [.group (.str "Classes") .null,
      { kind := .objcClass, name := .str "Widget" },
      { kind := .objcMark, name := .str "Drawing" },
      { kind := .objcInstanceMethod, name := .str "-draw" },
      { kind := .objcMark, name := .str "Private" },
      { kind := .objcInstanceMethod, name := .str "-secret", level := .privateLevel },
      .group (.str "Internals") .null,
      .group (.str "Structures") .null,
      { kind := .swiftStruct, name := .str "Cache", level := .internalLevel }]

def sectionedLayout : Layout where
  roots := [0, 6]
  children := [(0, [1]), (1, [2, 3, 4, 5]), (6, [7]), (7, [8])]

theorem Forest.prune_prunedTo_sections :
    sectionedLayout.Over sectionedForest ∧
      ∃ pruned, (sectionedLayout.prune sectionedForest .publicLevel).outcome = .ok pruned ∧
        pruned = ⟨[0], [(0, [1]), (1, [2, 3])]⟩ ∧
        sectionedLayout.PrunedTo ⟨sectionedForest, .publicLevel⟩ pruned := by
  have hover : sectionedLayout.Over sectionedForest := Layout.over_of_lt (by decide) (by decide)
  obtain ⟨pruned, hpruned, hrules⟩ := Forest.prune_prunedTo .publicLevel hover
  have heval : (sectionedLayout.prune sectionedForest .publicLevel).outcome =
      .ok ⟨[0], [(0, [1]), (1, [2, 3])]⟩ := by decide
  exact ⟨hover, pruned, hpruned, Except.ok.inj (hpruned.symm.trans heval), hrules⟩

end DocForest
