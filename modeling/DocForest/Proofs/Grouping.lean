import DocForest.Proofs.Layouts
import DocForest.Proofs.Sectioning
import Mathlib.Data.List.Perm.Basic

/-!
# What grouping does to a layout

Every group is a new node that is put above some of the roots.  One such step gives nobody a second
place and loses nobody, hence neither do all of them, whatever the sections are, as long as they list
every root once.

## What is here

* `Layout.Tidy` — nobody has two places, and all nodes exist.
* `Layout.Grown` — a layout and what became of it by new nodes above its roots: **it is tidy, and it
  reaches what it reached before, and the new nodes**.
* `Layout.Tidy.wrap`, `Layout.Tidy.wrapAll` — one step, and one for each list of roots.
* `Forest.grown_grouped` — grouping by modules and categories.
* `Forest.childrenOf_grouped` — the nodes that were there before keep their children.
* `Forest.Enlarged`, `Forest.enlarged_grouped` — the forest gets nodes that are groups without links,
  and keeps all others.
-/

set_option autoImplicit false

namespace DocForest

variable {i g size size' size'' : Nat}

/-! ## New nodes above the roots -/

namespace Layout

variable {layout layout' layout'' : Layout} {entries : List (Nat × List Nat)}
  {roots starts items rest : List Nat}

/-- Nobody has two places, and all nodes are below `size`. -/
structure Tidy (layout : Layout) (size : Nat) : Prop where
  onePlace : OnePlace layout.childrenOf layout.roots
  within : layout.Within size

/-- `layout'` is tidy and reaches what `layout` reaches, and all nodes from `size` to `size'`. -/
structure Grown (layout : Layout) (size : Nat) (layout' : Layout) (size' : Nat) : Prop where
  tidy : layout'.Tidy size'
  le : size ≤ size'
  below_iff : ∀ i, Below layout'.childrenOf layout'.roots i ↔
    Below layout.childrenOf layout.roots i ∨ size ≤ i ∧ i < size'

theorem Grown.refl (h : layout.Tidy size) : Grown layout size layout size where
  tidy := h
  le := Nat.le_refl _
  below_iff i := by
    rw [or_iff_left]
    omega

theorem Grown.trans (h : Grown layout size layout' size')
    (h' : Grown layout' size' layout'' size'') : Grown layout size layout'' size'' where
  tidy := h'.tidy
  le := Nat.le_trans h.le h'.le
  below_iff i := by
    have := h.le
    have := h'.le
    rw [h'.below_iff, h.below_iff, or_assoc]
    refine or_congr_right ⟨fun hi => ?_, fun hi => ?_⟩ <;> omega

theorem Tidy.perm (h : Tidy ⟨roots, entries⟩ size) (hperm : starts.Perm roots) :
    Grown ⟨roots, entries⟩ size ⟨starts, entries⟩ size where
  tidy := {
    onePlace := h.onePlace.perm hperm
    within := ⟨fun i hi => h.within.roots i (hperm.subset hi), h.within.children, h.within.keys⟩ }
  le := Nat.le_refl _
  below_iff i := by
    rw [or_iff_left (by omega)]
    exact ⟨Below.mono hperm.subset fun _ => List.Subset.refl _,
      Below.mono hperm.symm.subset fun _ => List.Subset.refl _⟩

/-- A new entry gives its node its children, and leaves all others theirs. -/
theorem childrenOf_concat (roots starts items : List Nat) (hg : ∀ entry ∈ entries, entry.1 < g)
    (p : Nat) :
    Layout.childrenOf ⟨starts, entries ++ [(g, items)]⟩ p =
      if g = p then items else Layout.childrenOf ⟨roots, entries⟩ p := by
  have hfresh : (entries.find? fun entry => entry.1 = g) = none := by
    refine List.find?_eq_none.2 fun entry hentry heq => ?_
    exact Nat.ne_of_lt (hg entry hentry) (of_decide_eq_true heq)
  simp only [childrenOf, childList?, List.find?_append]
  by_cases hp : g = p
  · subst hp
    simp [hfresh]
  · simp [hp]

/-- **One step: a new node above some of the roots.** -/
theorem Tidy.wrap (h : Tidy ⟨items ++ rest, entries⟩ g) :
    Grown ⟨items ++ rest, entries⟩ g ⟨g :: rest, entries ++ [(g, items)]⟩ (g + 1) := by
  have hchildren := childrenOf_concat (items ++ rest) (g :: rest) items h.within.keys
  have hempty := h.within.childrenOf_eq_nil (Nat.le_refl g)
  have hlt : ∀ i ∈ items ++ rest, i < g := h.within.roots
  refine ⟨⟨?_, ⟨fun i hi => ?_, fun p i hi => ?_, fun entry hentry => ?_⟩⟩, Nat.le_succ g, fun i => ?_⟩
  · exact h.onePlace.wrap (fun hmem => Nat.lt_irrefl g (hlt g hmem))
      (fun p hmem => Nat.lt_irrefl g (h.within.children p g hmem)) hempty hchildren
  · rcases List.mem_cons.1 hi with rfl | hi
    · exact Nat.lt_succ_self i
    · exact Nat.lt_succ_of_lt (hlt i (List.mem_append_right _ hi))
  · rw [hchildren] at hi
    split at hi
    · exact Nat.lt_succ_of_lt (hlt i (List.mem_append_left _ hi))
    · exact Nat.lt_succ_of_lt (h.within.children p i hi)
  · rcases List.mem_append.1 hentry with hentry | hentry
    · exact Nat.lt_succ_of_lt (h.within.keys entry hentry)
    · rw [List.mem_singleton.1 hentry]
      exact Nat.lt_succ_self g
  · rw [below_wrap hempty hchildren, or_comm]
    exact or_congr_right (by omega)

/-- **One new node above each of several lists of roots.** -/
theorem Tidy.wrapAll {first : Nat} (lists : List (List Nat))
    (h : Tidy ⟨lists.flatten ++ rest, entries⟩ first) :
    Grown ⟨lists.flatten ++ rest, entries⟩ first
      ⟨List.range' first lists.length ++ rest,
        entries ++ (List.range' first lists.length).zip lists⟩ (first + lists.length) := by
  induction lists generalizing first rest entries with
  | nil => simpa using Grown.refl h
  | cons items lists ih =>
    rw [List.flatten_cons, List.append_assoc] at h ⊢
    -- the new root goes behind the lists that are still to come, and back to the front at the end
    have hmiddle : ∀ front : List Nat, (front ++ first :: rest).Perm (first :: (front ++ rest)) :=
      fun _ => List.perm_middle
    have hstep := h.wrap
    have hback := hstep.tidy.perm (hmiddle lists.flatten)
    have hrest := ih hback.tidy
    have hfront := hrest.tidy.perm (hmiddle _).symm
    have hall := ((hstep.trans hback).trans hrest).trans hfront
    rw [List.append_assoc] at hall
    have hlength : first + (items :: lists).length = first + 1 + lists.length := by
      rw [List.length_cons]
      omega
    rw [hlength, List.length_cons, List.range'_succ, List.zip_cons_cons]
    exact hall

end Layout

/-! ## The groups of the sections -/

namespace Forest

variable {forest : Forest} {layout : Layout} {more : List Nat}

theorem size_addAll (forest : Forest) (decls : List Declaration) :
    (forest.addAll decls).size = forest.size + decls.length := by
  unfold addAll
  induction decls generalizing forest with
  | nil => rfl
  | cons decl rest ih =>
    rw [List.foldl_cons, ih, size_add, List.length_cons]
    omega

theorem length_groups (inflect : String → String) (part : ModuleSection) :
    (part.groups inflect).length = part.categories.length + 1 := by
  simp [ModuleSection.groups]

/-- **A section puts what it lists below its groups**; `more` are the roots left to later ones. -/
theorem grown_addSection (inflect : String → String) (part : ModuleSection)
    (h : Layout.Tidy ⟨part.items ++ (more ++ layout.roots), layout.children⟩ forest.size) :
    Layout.Grown ⟨part.items ++ (more ++ layout.roots), layout.children⟩ forest.size
      ⟨more ++ (addSection inflect (forest, layout) part).2.roots,
        (addSection inflect (forest, layout) part).2.children⟩
      (addSection inflect (forest, layout) part).1.size := by
  let lists := part.categories.map fun category => forest.inOrder category.items
  have hlists : lists.flatten.Perm part.items := by
    rw [ModuleSection.items, ← List.flatMap_def]
    exact List.Perm.flatMap_left _ fun category _ => ordered_perm _ _ category.items
  have hordered := h.perm (hlists.append_right (more ++ layout.roots))
  have hcategories := hordered.tidy.wrapAll lists
  have hroot := hcategories.tidy.wrap
  have hend : (more ++ (layout.roots ++ [forest.size + lists.length])).Perm
      ((forest.size + lists.length) :: (more ++ layout.roots)) := by
    rw [← List.append_assoc]
    exact List.perm_append_singleton _ _
  have hall := ((hordered.trans hcategories).trans hroot).trans (hroot.tidy.perm hend)
  have hsize : (addSection inflect (forest, layout) part).1.size = forest.size + lists.length + 1 := by
    rw [addSection, size_addAll, length_groups]
    simp [lists, Nat.add_assoc]
  rw [hsize]
  simpa only [addSection, List.range'_eq_map_range, List.append_assoc] using hall

/-- All sections together put all that they list below groups. -/
theorem grown_foldl_addSection (inflect : String → String) (sections : List ModuleSection)
    (forest : Forest) (layout : Layout)
    (h : Layout.Tidy ⟨sections.flatMap ModuleSection.items ++ layout.roots, layout.children⟩
      forest.size) :
    Layout.Grown ⟨sections.flatMap ModuleSection.items ++ layout.roots, layout.children⟩ forest.size
      (sections.foldl (addSection inflect) (forest, layout)).2
      (sections.foldl (addSection inflect) (forest, layout)).1.size := by
  induction sections generalizing forest layout with
  | nil => exact .refl h
  | cons part rest ih =>
    rw [List.flatMap_cons, List.append_assoc] at h ⊢
    have hstep := grown_addSection inflect part h
    exact hstep.trans (ih _ _ hstep.tidy)

/-- **Grouping keeps a layout tidy and loses nothing**, if every root is a guide or has a category. -/
theorem grown_grouped (inflect : String → String) (config : Config) (h : layout.Tidy forest.size)
    (hcategory : ∀ i ∈ layout.roots, forest.isGuide i = false →
      (forest.categoryLabel? i).isSome = true) :
    layout.Grown forest.size (grouped inflect config forest layout).2
      (grouped inflect config forest layout).1.size := by
  have hitems : ((forest.moduleSections config (forest.itemRoots layout)).flatMap
      ModuleSection.items).Perm (forest.itemRoots layout) := by
    refine (forest.perm_items_moduleSections config (h.onePlace.roots_nodup.filter _)).trans ?_
    refine List.Perm.of_eq (List.filter_eq_self.2 fun i hi => ?_)
    obtain ⟨hroot, hguide⟩ := List.mem_filter.1 hi
    exact hcategory i hroot (by simpa using hguide)
  have hroots : ((forest.moduleSections config (forest.itemRoots layout)).flatMap
      ModuleSection.items ++ forest.guideRoots layout).Perm layout.roots := by
    refine (hitems.append_right _).trans (List.perm_append_comm.trans ?_)
    exact List.filter_append_perm forest.isGuide layout.roots
  have htidy : Layout.Tidy ⟨layout.roots, layout.children⟩ forest.size := h
  have hstart := htidy.perm hroots
  exact hstart.trans (grown_foldl_addSection inflect _ forest
    ⟨forest.guideRoots layout, layout.children⟩ hstart.tidy)

/-! ## What is left under the old nodes -/

theorem childrenOf_append (roots starts : List Nat) (entries more : List (Nat × List Nat))
    (h : ∀ entry ∈ more, entry.1 ≠ i) :
    Layout.childrenOf ⟨starts, entries ++ more⟩ i = Layout.childrenOf ⟨roots, entries⟩ i := by
  have hmore : (more.find? fun entry => entry.1 = i) = none :=
    List.find?_eq_none.2 fun entry hentry heq => h entry hentry (of_decide_eq_true heq)
  rw [Layout.childrenOf, Layout.childrenOf, Layout.childList?, Layout.childList?, List.find?_append,
    hmore, Option.or_none]

theorem childrenOf_addSection (inflect : String → String) (part : ModuleSection)
    (hi : i < forest.size) :
    (addSection inflect (forest, layout) part).2.childrenOf i = layout.childrenOf i := by
  simp only [addSection, List.append_assoc]
  refine childrenOf_append _ _ _ _ fun entry hentry heq => ?_
  rcases List.mem_append.1 hentry with hentry | hentry
  · obtain ⟨k, -, hk⟩ := List.mem_map.1 (List.of_mem_zip hentry).1
    omega
  · rw [List.mem_singleton] at hentry
    rw [hentry] at heq
    dsimp only at heq
    omega

theorem size_le_addSection (inflect : String → String) (part : ModuleSection) :
    forest.size ≤ (addSection inflect (forest, layout) part).1.size := by
  rw [addSection, size_addAll]
  exact Nat.le_add_right _ _

theorem childrenOf_foldl_addSection (inflect : String → String) (sections : List ModuleSection)
    (forest : Forest) (layout : Layout) (hi : i < forest.size) :
    (sections.foldl (addSection inflect) (forest, layout)).2.childrenOf i = layout.childrenOf i := by
  induction sections generalizing forest layout with
  | nil => rfl
  | cons part rest ih =>
    rw [List.foldl_cons, ih _ _ (Nat.lt_of_lt_of_le hi (size_le_addSection inflect part)),
      childrenOf_addSection inflect part hi]

/-- **Grouping leaves all nodes their children.** -/
theorem childrenOf_grouped (inflect : String → String) (config : Config) (hi : i < forest.size) :
    (grouped inflect config forest layout).2.childrenOf i = layout.childrenOf i :=
  childrenOf_foldl_addSection inflect _ forest _ hi

/-! ## The nodes of the groups -/

/-- A declaration of the kind that stands over modules and categories. -/
def GroupsOthers (decl : Declaration) : Prop :=
  ∃ name addressName docModule, decl = { Declaration.group name addressName with docModule }

/-- `bigger` has the nodes of `forest`, and behind them groups without links. -/
structure Enlarged (forest bigger : Forest) : Prop where
  size_le : forest.size ≤ bigger.size
  roots : bigger.roots = forest.roots
  kept : ∀ i < forest.size, bigger.node? i = forest.node? i
  group : ∀ i, forest.size ≤ i → i < bigger.size →
    ∃ decl, bigger.node? i = some { decl } ∧ GroupsOthers decl

theorem Enlarged.refl (forest : Forest) : forest.Enlarged forest :=
  ⟨Nat.le_refl _, rfl, fun _ _ => rfl, fun _ hle hlt => absurd hlt (Nat.not_lt.2 hle)⟩

theorem Enlarged.trans {bigger biggest : Forest} (h : forest.Enlarged bigger)
    (h' : bigger.Enlarged biggest) : forest.Enlarged biggest where
  size_le := Nat.le_trans h.size_le h'.size_le
  roots := h'.roots.trans h.roots
  kept i hi := (h'.kept i (Nat.lt_of_lt_of_le hi h.size_le)).trans (h.kept i hi)
  group i hle hlt := by
    by_cases hi : i < bigger.size
    · obtain ⟨decl, hdecl, hgroup⟩ := h.group i hle hi
      exact ⟨decl, (h'.kept i hi).trans hdecl, hgroup⟩
    · exact h'.group i (Nat.not_lt.1 hi) hlt

theorem enlarged_add {decl : Declaration} (h : GroupsOthers decl) :
    forest.Enlarged (forest.add decl) where
  size_le := by
    rw [size_add]
    exact Nat.le_succ _
  roots := rfl
  kept i hi := by rw [node?_add, if_neg (Nat.ne_of_lt hi)]
  group i hle hlt := by
    rw [size_add] at hlt
    obtain rfl : i = forest.size := by omega
    exact ⟨decl, by rw [node?_add, if_pos rfl], h⟩

theorem enlarged_addAll (decls : List Declaration)
    (h : ∀ decl ∈ decls, GroupsOthers decl) : forest.Enlarged (forest.addAll decls) := by
  induction decls generalizing forest with
  | nil => exact .refl forest
  | cons decl rest ih =>
    obtain ⟨hdecl, hrest⟩ := List.forall_mem_cons.1 h
    exact (enlarged_add hdecl).trans (ih hrest)

theorem groupsOthers_of_mem_groups {inflect : String → String} {part : ModuleSection}
    {decl : Declaration} (h : decl ∈ part.groups inflect) : GroupsOthers decl := by
  rcases List.mem_append.1 h with h | h
  · obtain ⟨category, -, rfl⟩ := List.mem_map.1 h
    exact ⟨_, _, _, rfl⟩
  · rw [List.mem_singleton.1 h]
    exact ⟨_, _, _, rfl⟩

/-- **Grouping adds groups, and changes no node.** -/
theorem enlarged_grouped (inflect : String → String) (config : Config) (forest : Forest)
    (layout : Layout) : forest.Enlarged (grouped inflect config forest layout).1 := by
  rw [grouped]
  generalize ({ layout with roots := forest.guideRoots layout } : Layout) = start
  induction forest.moduleSections config (forest.itemRoots layout) generalizing forest start with
  | nil => exact .refl forest
  | cons part rest ih =>
    exact (enlarged_addAll _ fun _ => groupsOthers_of_mem_groups).trans (ih _ _)

end Forest
end DocForest
