import DocForest.Proofs.Hinting
import DocForest.Proofs.KeptSections

/-!
# Hints and sections

Hints move members between the marks that stand among them.  These bound the sections of one container, and
where a node has fragments the members of each container begin a section of their own, without a mark in
front of it: that of the requirements of a constrained extension, say.  There nothing stops the hints, and
**members of different sections change places**.

## What is here

* `Forest.unhinted` — the children of a node before hints move them.
* `Forest.markOf_eq_of_between`, `Forest.markOf_eq_opening` — the marks of two members of one container with no
  mark between them, and the mark of one with no mark in front of it.
* `Forest.build_swaps_by_hint` — **what is known of two children that change places**: their sections
  are the same if they have one container, or if the section of the first one is that which opens the
  container of the second one.
* `Forest.build_crosses_sections` — two children of different sections that change places.
-/

set_option autoImplicit false

namespace DocForest
namespace Forest

variable {config : Config} {inflect : String → String} {records : List Record} {loaded : Loaded}
  {forest frozen : Forest} {front between back : List Nat} {c p x y : Nat}

/-- The children of a node before hints move them: its own members, then those of each of its fragments. -/
def unhinted (forest : Forest) (kept : List Nat) (c : Nat) : List Nat :=
  (c :: forest.fragmentsOf c).flatMap (forest.keptMembers kept)

/-- A child stands among the members of one container: behind some of these and behind the members of the
containers in front of it. -/
theorem exists_container_of_mem_unhinted {kept : List Nat} (hy : y ∈ forest.unhinted kept c) :
    ∃ earlier p later front back, c :: forest.fragmentsOf c = earlier ++ p :: later ∧
      forest.keptMembers kept p = front ++ y :: back ∧
      forest.unhinted kept c = earlier.flatMap (forest.keptMembers kept) ++ front ++ y ::
        (back ++ later.flatMap (forest.keptMembers kept)) := by
  obtain ⟨p, hp, hyp⟩ := List.mem_flatMap.1 hy
  obtain ⟨earlier, later, howners⟩ := List.append_of_mem hp
  obtain ⟨front, back, hmembers⟩ := List.append_of_mem hyp
  refine ⟨earlier, p, later, front, back, howners, hmembers, ?_⟩
  rw [unhinted, howners, List.flatMap_append, List.flatMap_cons, hmembers]
  simp only [List.append_assoc, List.cons_append]

/-! ## Two members without a mark between them -/

section Finished

variable (hfrozen : Frozen (arranged config inflect loaded).2 (arranged config inflect loaded).1 frozen)
  (h : (completed config loaded).Prepared) (hp : p ∈ (filtered config loaded).reachable)

include hfrozen h hp

/-- A member with no mark in front of it is in the section that its container opens. -/
theorem markOf_eq_opening
    (hsplit : frozen.keptMembers (filtered config loaded).reachable p = front ++ y :: back)
    (hfront : ∀ m ∈ front, frozen.isMark m = false) (hy : frozen.isMark y = false) :
    frozen.markOf y = frozen.openingOf p := by
  rw [markOf_frozen hfrozen h hp hsplit hy, sectionBehind_of_no_mark _ hfront]

/-- Two members with no mark between them are in one section. -/
theorem markOf_eq_of_between
    (hsplit : frozen.keptMembers (filtered config loaded).reachable p = front ++ x :: between ++ y :: back)
    (hx : frozen.isMark x = false) (hbetween : ∀ m ∈ between, frozen.isMark m = false)
    (hy : frozen.isMark y = false) : frozen.markOf x = frozen.markOf y := by
  have hsplit' : frozen.keptMembers (filtered config loaded).reachable p =
      front ++ x :: (between ++ y :: back) := by
    rw [hsplit, List.append_assoc, List.cons_append]
  have hnone : ∀ m ∈ x :: between, frozen.isMark m = false := List.forall_mem_cons.2 ⟨hx, hbetween⟩
  rw [markOf_frozen hfrozen h hp hsplit' hx, markOf_frozen hfrozen h hp hsplit hy, sectionBehind_append,
    sectionBehind_of_no_mark _ hnone]

end Finished

/-! ## Two children that change places -/

/-- The children of a node in the finished forest are these in the order of their hints, and no child is one
twice. -/
theorem Built.childrenOf_eq (h : Built config inflect records loaded forest) (hc : c ∈ forest.walk)
    (hstands : forest.Stands (filtered config loaded) c) :
    forest.childrenOf c = forest.inOrder (forest.unhinted (filtered config loaded).reachable c) ∧
      (forest.unhinted (filtered config loaded).reachable c).Nodup := by
  have hconsolidated := consolidated_frozen h.frozen h.prepared
  have hplanned : forest.plannedChildren (filtered config loaded) c =
      forest.unhinted (filtered config loaded).reachable c :=
    hconsolidated.plannedChildren_eq (inInputOrder_visible _ _) hstands
  rw [childrenOf_frozen h.frozen h.prepared hstands hc, hplanned]
  refine ⟨rfl, ?_⟩
  rw [← hplanned]
  exact nodup_plannedChildren hconsolidated.followsCode hstands.unmerged

/-- Two children with no mark between them are in one section if they have one container, or if the first one
is in the section that opens the container of the second one, and not otherwise. -/
theorem Built.markOf_eq_iff (h : Built config inflect records loaded forest)
    (hstands : forest.Stands (filtered config loaded) c)
    (hnodup : (forest.unhinted (filtered config loaded).reachable c).Nodup)
    (hx : forest.isMark x = false) (hy : forest.isMark y = false)
    (hbefore : [x, y].Sublist (forest.unhinted (filtered config loaded).reachable c))
    (hbetween : ∀ front between back,
      forest.unhinted (filtered config loaded).reachable c = front ++ between ++ y :: back → x ∈ front →
        ∀ m ∈ between, forest.isMark m = false) :
    ∃ p, forest.codeParent? y = some p ∧
      (forest.markOf x = forest.markOf y ↔
        forest.codeParent? x = some p ∨ forest.markOf x = forest.openingOf p) := by
  obtain ⟨earlier, p, later, front, back, howners, hmembers, hitems⟩ :=
    exists_container_of_mem_unhinted (hbefore.subset (by simp : y ∈ [x, y]))
  have hcontainer : ∀ {i q}, i ∈ forest.keptMembers (filtered config loaded).reachable q →
      forest.codeParent? i = some q := fun hi => (mem_keptMembers.1 hi).1
  have hvisible : p ∈ (filtered config loaded).reachable :=
    (consolidated_frozen h.frozen h.prepared).reachable_of_mem_fragments hstands (by simp [howners])
  refine ⟨p, hcontainer (by simp [hmembers]), ?_⟩
  rw [hitems] at hnodup hbefore
  rcases List.mem_append.1 (mem_front_of_pair_sublist hnodup hbefore) with hother | hsame
  · -- in another container: what stands in front of the second one in its own stands between the two
    obtain ⟨q, hq, hxq⟩ := List.mem_flatMap.1 hother
    have howners := howners ▸ nodup_cons_fragmentsOf hstands.unmerged
    have hne : q ≠ p := (List.nodup_append.1 howners).2.2 q hq p List.mem_cons_self
    have hnot : forest.codeParent? x ≠ some p := by rwa [hcontainer hxq, ne_eq, Option.some_inj]
    rw [markOf_eq_opening h.frozen h.prepared hvisible hmembers (hbetween _ _ _ hitems hother) hy,
      or_iff_right hnot]
  · obtain ⟨left, right, rfl⟩ := List.append_of_mem hsame
    refine iff_of_true ?_ (.inl (hcontainer (by simp [hmembers])))
    refine markOf_eq_of_between h.frozen h.prepared hvisible hmembers hx ?_ hy
    refine hbetween (earlier.flatMap (forest.keptMembers (filtered config loaded).reachable) ++ (left ++ [x]))
      right (back ++ later.flatMap (forest.keptMembers (filtered config loaded).reachable)) ?_ (by simp)
    rw [hitems]
    simp only [List.append_assoc, List.cons_append, List.nil_append]

/-- **Two children change places only for their hints and with no mark between them**; then they are in one
section exactly if they have one container, or if the first one is in the section that opens the container of
the second one. -/
theorem build_swaps_by_hint (h : (build config inflect records).outcome = .ok forest)
    (hc : c ∈ forest.walk) (hgroup : forest.isGroup c = false)
    (hx : forest.isMark x = false) (hy : forest.isMark y = false)
    (hbefore : [x, y].Sublist (forest.unhinted (keptNodes config records) c))
    (hbehind : [y, x].Sublist (forest.childrenOf c)) :
    Ahead forest.hintOf y x ∧
      (∀ front between back, forest.unhinted (keptNodes config records) c = front ++ between ++ y :: back →
        x ∈ front → ∀ m ∈ between, forest.isMark m = false) ∧
      ∃ p, forest.codeParent? y = some p ∧
        (forest.markOf x = forest.markOf y ↔
          forest.codeParent? x = some p ∨ forest.markOf x = forest.openingOf p) := by
  obtain ⟨loaded, hbuilt⟩ := built_of_build h
  have hstands := (documents_of_frozen hbuilt.frozen hbuilt.prepared).stands_of_mem_walk hc hgroup
  obtain ⟨hchildren, hnodup⟩ := hbuilt.childrenOf_eq hc hstands
  rw [hbuilt.keptNodes_eq] at hbefore ⊢
  rw [hchildren] at hbehind
  obtain ⟨hahead, hbetween⟩ := ahead_of_ordered hnodup hbefore hbehind
  exact ⟨hahead, hbetween, hbuilt.markOf_eq_iff hstands hnodup hx hy hbefore hbetween⟩

/-- A record with one more field. -/
def recordWith (key : String) (value : Json) : Record → Record
  | .obj fields => .obj (fields ++ [(key, value)])
  | record => record

/-- A structure with two members, and a constrained extension of it with a third one.  The last member of
either container has a hint. -/
def stackRecords : List Record :=
  [swiftRecord "s" "struct" "Stack" "s:Stack" .null,
   swiftRecord "p" "function.method.instance" "pop()" "s:Stack.pop" (.str "s"),
   recordWith "nav_order" (.int 2)
     (swiftRecord "q" "function.method.instance" "push()" "s:Stack.push" (.str "s")),
   recordWith "generic_requirements" (.str "Element: Equatable")
     (swiftRecord "e" "extension" "Stack" "s:Stack" .null),
   recordWith "nav_order" (.int 1)
     (swiftRecord "c" "function.method.instance" "contains()" "s:Stack.contains" (.str "e"))]

theorem build_stackRecords : ∃ forest,
    (build { modules := ["M"] } id stackRecords).outcome = .ok forest ∧
      forest.walk = [6, 5, 0, 4, 2, 1] ∧
        forest.unhinted (keptNodes { modules := ["M"] } stackRecords) 0 = [1, 2, 4] ∧
          forest.childrenOf 0 = [4, 2, 1] ∧ forest.isGroup 0 = false ∧ forest.isMark 1 = false ∧
            forest.isMark 2 = false ∧ forest.isMark 4 = false ∧ forest.markOf 1 = {} ∧
              forest.markOf 4 = { name := some "Available where \x60Element\x60: \x60Equatable\x60" } := by
  obtain ⟨forest, hforest, hrun⟩ := Outcome.exists_ok_of_map
    (f := fun forest => ([forest.walk, forest.unhinted (keptNodes { modules := ["M"] } stackRecords) 0,
        forest.childrenOf 0],
      [forest.isGroup 0, forest.isMark 1, forest.isMark 2, forest.isMark 4],
      [forest.markOf 1, forest.markOf 4]))
    (b := ([[6, 5, 0, 4, 2, 1], [1, 2, 4], [4, 2, 1]], [false, false, false, false],
      [{}, { name := some "Available where \x60Element\x60: \x60Equatable\x60" }]))
    (o := (build { modules := ["M"] } id stackRecords).outcome) (by decide +kernel)
  simp only [Prod.mk.injEq, List.cons.injEq, and_true, and_assoc] at hrun
  exact ⟨forest, hforest, hrun⟩

/-- The second member comes ahead of the first one by its hint. -/
theorem build_swaps_by_hint_members : ∃ forest,
    (build { modules := ["M"] } id stackRecords).outcome = .ok forest ∧
      0 ∈ forest.walk ∧ forest.isGroup 0 = false ∧ forest.isMark 1 = false ∧ forest.isMark 2 = false ∧
        [1, 2].Sublist (forest.unhinted (keptNodes { modules := ["M"] } stackRecords) 0) ∧
          [2, 1].Sublist (forest.childrenOf 0) ∧ Ahead forest.hintOf 2 1 ∧
            ∃ p, forest.codeParent? 2 = some p ∧
              (forest.markOf 1 = forest.markOf 2 ↔
                forest.codeParent? 1 = some p ∨ forest.markOf 1 = forest.openingOf p) := by
  obtain ⟨forest, hforest, hwalk, hunhinted, hchildren, hgroup, hfirst, hsecond, -⟩ := build_stackRecords
  have hmem : 0 ∈ forest.walk := by simp [hwalk]
  have hbefore : [1, 2].Sublist (forest.unhinted (keptNodes { modules := ["M"] } stackRecords) 0) := by
    rw [hunhinted]
    decide
  have hbehind : [2, 1].Sublist (forest.childrenOf 0) := by
    rw [hchildren]
    decide
  obtain ⟨hahead, -, hsection⟩ :=
    build_swaps_by_hint hforest hmem hgroup hfirst hsecond hbefore hbehind
  exact ⟨forest, hforest, hmem, hgroup, hfirst, hsecond, hbefore, hbehind, hahead, hsection⟩

/-- **A member of the constrained extension comes ahead of the first member of the structure**, which is in
another section. -/
theorem build_crosses_sections : ∃ forest,
    (build { modules := ["M"] } id stackRecords).outcome = .ok forest ∧
      0 ∈ forest.walk ∧ forest.isGroup 0 = false ∧ forest.isMark 1 = false ∧ forest.isMark 4 = false ∧
        [1, 4].Sublist (forest.unhinted (keptNodes { modules := ["M"] } stackRecords) 0) ∧
          [4, 1].Sublist (forest.childrenOf 0) ∧ forest.markOf 1 ≠ forest.markOf 4 := by
  obtain ⟨forest, hforest, hwalk, hunhinted, hchildren, hgroup, hfirst, -, hother, hmark, hmark'⟩ :=
    build_stackRecords
  refine ⟨forest, hforest, by simp [hwalk], hgroup, hfirst, hother, ?_, ?_, ?_⟩
  · rw [hunhinted]
    decide
  · rw [hchildren]
    decide
  · rw [hmark, hmark']
    decide

end Forest
end DocForest
