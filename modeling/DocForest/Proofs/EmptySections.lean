import DocForest.Proofs.Crossing

/-!
# Headings with nothing under them

The access filter drops the marks in whose sections nothing is left.  Fragments are merged only behind it:
their members go to the node that they are merged into, and the fragments themselves go away, so that **a
mark stands over nothing if all of its section is merged elsewhere**.  This is the only way.  Hints do not
leave the section that they are in, and where the members of several fragments are listed one behind the
other a section only grows.

## What is here

* `sectionOf_filter`, `noEmptySection_filter_iff` — the sections of the siblings that stay.
* `NoEmptySection.flatMap`, `noEmptySection_ordered` — lists of siblings one behind the other, and siblings
  in the order of their hints.
* `Forest.listed` — what stands below a node before fragments are taken out.
* `Forest.build_heads_content_iff` — **which headings have content**.
* `Forest.build_leaves_bare_heading` — a heading that has none.
-/

set_option autoImplicit false

namespace DocForest

variable {isMark keep : Nat → Bool} {hint : Nat → Option Int} {items front back rest pending : List Nat}
  {i : Nat}

/-! ## Sections of siblings -/

theorem noEmptySection_of_no_mark (h : ∀ i ∈ items, isMark i = false) : NoEmptySection isMark items := by
  rintro front m behind rfl hm
  have hnot := h m (List.mem_append_right _ List.mem_cons_self)
  exact absurd (hnot.symm.trans hm) Bool.false_ne_true

theorem noEmptySection_nil (isMark : Nat → Bool) : NoEmptySection isMark [] :=
  noEmptySection_of_no_mark (List.forall_mem_nil _)

theorem noEmptySection_cons :
    NoEmptySection isMark (i :: rest) ↔
      (isMark i = true → sectionOf isMark rest ≠ []) ∧ NoEmptySection isMark rest := by
  constructor
  · intro h
    refine ⟨h [] i rest rfl, fun front m behind heq => h (i :: front) m behind ?_⟩
    rw [heq, List.cons_append]
  · rintro ⟨hfirst, hrest⟩ front m behind heq hm
    cases front with
    | nil =>
      obtain ⟨rfl, rfl⟩ := List.cons.inj heq
      exact hfirst hm
    | cons _ front => exact hrest front m behind (List.cons.inj heq).2 hm

theorem sectionOf_append_ne_nil (h : sectionOf isMark front ≠ []) : sectionOf isMark (front ++ back) ≠ [] := by
  cases front with
  | nil => exact absurd rfl h
  | cons i front =>
    rw [sectionOf_cons] at h
    rw [List.cons_append, sectionOf_cons]
    split at h
    · exact absurd rfl h
    · next hi =>
      rw [if_neg hi]
      exact List.cons_ne_nil _ _

theorem NoEmptySection.append (hfront : NoEmptySection isMark front) (hback : NoEmptySection isMark back) :
    NoEmptySection isMark (front ++ back) := by
  induction front with
  | nil => exact hback
  | cons i front ih =>
    obtain ⟨hi, hrest⟩ := noEmptySection_cons.1 hfront
    rw [List.cons_append]
    exact noEmptySection_cons.2 ⟨fun hm => sectionOf_append_ne_nil (hi hm), ih hrest⟩

/-- **Lists one behind the other**, in each of which every mark has a section, are such a list. -/
theorem NoEmptySection.flatMap {lists : Nat → List Nat}
    (h : ∀ p ∈ items, NoEmptySection isMark (lists p)) : NoEmptySection isMark (items.flatMap lists) := by
  induction items with
  | nil => exact noEmptySection_nil isMark
  | cons p rest ih =>
    rw [List.forall_mem_cons] at h
    rw [List.flatMap_cons]
    exact h.1.append (ih h.2)

/-! ## Siblings that stay -/

theorem sectionOf_filter (hmarks : ∀ m ∈ items, isMark m = true → keep m = true) :
    sectionOf isMark (items.filter keep) = (sectionOf isMark items).filter keep := by
  induction items with
  | nil => rfl
  | cons i rest ih =>
    rw [List.forall_mem_cons] at hmarks
    rw [sectionOf_cons]
    cases hi : isMark i with
    | true =>
      rw [List.filter_cons_of_pos (hmarks.1 hi), sectionOf_cons, hi]
      rfl
    | false =>
      rw [if_neg Bool.false_ne_true, List.filter_cons, List.filter_cons, ← ih hmarks.2]
      split
      · rw [sectionOf_cons, hi, if_neg Bool.false_ne_true]
      · rfl

/-- **Where only what is no mark goes away, a mark is left over nothing if all of its section goes.** -/
theorem noEmptySection_filter_iff (hmarks : ∀ m ∈ items, isMark m = true → keep m = true) :
    NoEmptySection isMark (items.filter keep) ↔
      ∀ front m behind, items = front ++ m :: behind → isMark m = true →
        ∃ i ∈ sectionOf isMark behind, keep i = true := by
  have hsection : ∀ {front m behind}, items = front ++ m :: behind →
      (sectionOf isMark (behind.filter keep) ≠ [] ↔ ∃ i ∈ sectionOf isMark behind, keep i = true) := by
    rintro front m behind rfl
    have hbehind : ∀ m ∈ behind, isMark m = true → keep m = true := fun m hm =>
      hmarks m (List.mem_append_right _ (List.mem_cons_of_mem _ hm))
    rw [sectionOf_filter hbehind, ne_eq, List.filter_eq_nil_iff]
    simp only [not_forall, not_not, exists_prop]
  constructor
  · rintro h front m behind rfl hm
    refine (hsection rfl).1 (h (front.filter keep) m _ ?_ hm)
    rw [List.filter_append, List.filter_cons_of_pos (hmarks m (by simp) hm)]
  · intro h front' m behind' heq hm
    obtain ⟨front, tail, rfl, -, htail⟩ := List.filter_eq_append_iff.1 heq
    obtain ⟨between, behind, rfl, -, -, rfl⟩ := List.filter_eq_cons_iff.1 htail
    have hsplit : front ++ (between ++ m :: behind) = (front ++ between) ++ m :: behind :=
      (List.append_assoc _ _ _).symm
    exact (hsection hsplit).2 (h _ m behind hsplit hm)

/-! ## Siblings in the order of their hints -/

theorem sectionOf_append_of_no_mark (hfront : ∀ i ∈ front, isMark i = false) :
    sectionOf isMark (front ++ back) = front ++ sectionOf isMark back :=
  List.takeWhile_append_of_pos fun i hi => by rw [hfront i hi]; rfl

theorem noEmptySection_append_of_no_mark (hfront : ∀ i ∈ front, isMark i = false) :
    NoEmptySection isMark (front ++ back) ↔ NoEmptySection isMark back := by
  induction front with
  | nil => rfl
  | cons i front ih =>
    rw [List.forall_mem_cons] at hfront
    rw [List.cons_append, noEmptySection_cons, hfront.1, ih hfront.2]
    exact and_iff_right fun h => absurd h Bool.false_ne_true

theorem no_mark_byHint (hpending : ∀ i ∈ pending, isMark i = false) :
    ∀ i ∈ byHint hint pending, isMark i = false := fun i hi =>
  hpending i ((byHint_perm hint pending).mem_iff.1 hi)

/-- The section in front of the first mark is the same, but for its order. -/
theorem sectionOf_orderedSections_perm (hpending : ∀ i ∈ pending, isMark i = false) :
    (sectionOf isMark (orderedSections isMark hint pending items)).Perm
      (pending ++ sectionOf isMark items) := by
  induction items generalizing pending with
  | nil =>
    rw [orderedSections, ← List.append_nil (byHint hint pending),
      sectionOf_append_of_no_mark (no_mark_byHint hpending)]
    exact (byHint_perm hint pending).append_right _
  | cons a rest ih =>
    rw [orderedSections]
    split
    · next ha =>
      rw [sectionOf_append_of_no_mark (no_mark_byHint hpending), sectionOf_cons, sectionOf_cons, if_pos ha,
        if_pos ha]
      exact (byHint_perm hint pending).append_right _
    · next ha =>
      have hmore : ∀ i ∈ pending ++ [a], isMark i = false :=
        List.forall_mem_append.2 ⟨hpending, List.forall_mem_singleton.2 (Bool.eq_false_iff.2 ha)⟩
      refine (ih hmore).trans (List.Perm.of_eq ?_)
      rw [sectionOf_cons, if_neg ha, List.append_assoc, List.singleton_append]

theorem noEmptySection_orderedSections (hpending : ∀ i ∈ pending, isMark i = false) :
    NoEmptySection isMark (orderedSections isMark hint pending items) ↔ NoEmptySection isMark items := by
  induction items generalizing pending with
  | nil => exact iff_of_true (noEmptySection_of_no_mark (no_mark_byHint hpending)) (noEmptySection_nil _)
  | cons a rest ih =>
    rw [orderedSections, noEmptySection_cons]
    split
    · have hnone : ∀ i ∈ ([] : List Nat), isMark i = false := List.forall_mem_nil _
      have hlength : (sectionOf isMark (orderedSections isMark hint [] rest)).length =
          (sectionOf isMark rest).length := (sectionOf_orderedSections_perm hnone).length_eq
      rw [noEmptySection_append_of_no_mark (no_mark_byHint hpending), noEmptySection_cons, ih hnone,
        ← List.length_pos_iff, ← List.length_pos_iff, hlength]
    · next ha =>
      have hmore : ∀ i ∈ pending ++ [a], isMark i = false :=
        List.forall_mem_append.2 ⟨hpending, List.forall_mem_singleton.2 (Bool.eq_false_iff.2 ha)⟩
      rw [ih hmore, and_iff_right fun h => absurd h ha]

/-- **Hints take nothing out of the section of a mark**, and put nothing in. -/
theorem noEmptySection_ordered :
    NoEmptySection isMark (ordered isMark hint items) ↔ NoEmptySection isMark items := by
  rw [ordered]
  split
  · exact noEmptySection_orderedSections (List.forall_mem_nil _)
  · rfl

namespace Forest

variable {config : Config} {inflect : String → String} {records : List Record} {loaded : Loaded}
  {forest frozen : Forest} {c m p i : Nat}

/-! ## What stands below a node -/

/-- The kept members of a node, then those of each of its fragments, merged ones included. -/
def listed (forest : Forest) (kept : List Nat) (c : Nat) : List Nat :=
  (c :: forest.fragmentsOf c).flatMap fun p => (forest.codeChildren p).filter fun i => kept.contains i

theorem unhinted_eq_filter (forest : Forest) (kept : List Nat) (c : Nat) :
    forest.unhinted kept c = (forest.listed kept c).filter fun i => !forest.isMerged i := by
  rw [unhinted, listed, List.filter_flatMap]
  refine List.flatMap_congr fun p _ => ?_
  rw [keptMembers, List.filter_filter]
  exact List.filter_congr fun i _ => Bool.and_comm _ _

/-- The filter leaves no mark over nothing. -/
theorem noEmptySection_visible (forest : Forest) (minLevel : AccessLevel) (p : Nat) :
    NoEmptySection forest.isMark ((forest.visible minLevel).childrenOf p) := by
  rw [visible, Layout.childrenOf_filtered]
  split
  · exact noEmptySection_dropEmptySections _ _
  · exact noEmptySection_nil _

theorem isMark_frozen
    (hfrozen : Frozen (arranged config inflect loaded).2 (arranged config inflect loaded).1 frozen) :
    frozen.isMark = (completed config loaded).isMark := by
  have hgroup : ∀ decl, GroupsOthers decl → ({ decl } : Node).decl.kind.isMark = false := by
    rintro decl ⟨name, addressName, docModule, rfl⟩
    rfl
  funext i
  rw [isMark, isMark, satisfies_eq_view, satisfies_eq_view, view_frozen hfrozen (fun _ _ _ => rfl) hgroup,
    consolidated, view_merged fun _ _ _ => rfl]

section Built

variable (h : Built config inflect records loaded forest)

include h

theorem Built.not_isMerged_of_isMark (hm : forest.isMark m = true) : forest.isMerged m = false := by
  rw [isMark_frozen h.frozen] at hm
  rw [isMerged_eq_false, mergedInto?_frozen h.frozen]
  exact mergedInto?_of_isMark h.prepared.mergedInto hm

/-- **Before fragments are taken out there is no mark over nothing.** -/
theorem Built.noEmptySection_listed (hstands : forest.Stands (filtered config loaded) c) :
    NoEmptySection forest.isMark (forest.listed (filtered config loaded).reachable c) := by
  have hconsolidated := consolidated_frozen h.frozen h.prepared
  refine NoEmptySection.flatMap fun p hp => ?_
  have hvisible := hconsolidated.reachable_of_mem_fragments hstands hp
  rw [← hconsolidated.childrenOf_visible (inInputOrder_visible _ _) hvisible, isMark_frozen h.frozen]
  exact noEmptySection_visible _ _ _

/-- **Afterwards there is one if its section is merged.** -/
theorem Built.noEmptySection_childrenOf_iff (hc : c ∈ forest.walk)
    (hstands : forest.Stands (filtered config loaded) c) :
    NoEmptySection forest.isMark (forest.childrenOf c) ↔
      ∀ front m behind, forest.listed (filtered config loaded).reachable c = front ++ m :: behind →
        forest.isMark m = true → ∃ i ∈ sectionOf forest.isMark behind, forest.mergedInto? i = none := by
  have hmarks : ∀ m ∈ forest.listed (filtered config loaded).reachable c, forest.isMark m = true →
      (!forest.isMerged m) = true := fun m _ hm => by rw [h.not_isMerged_of_isMark hm]; rfl
  rw [(h.childrenOf_eq hc hstands).1, inOrder, noEmptySection_ordered, unhinted_eq_filter,
    noEmptySection_filter_iff hmarks]
  simp only [Bool.not_eq_true', isMerged_eq_false]

theorem Built.listed_of_le (hle : loaded.forest.size ≤ c) (kept : List Nat) : forest.listed kept c = [] := by
  have hmembers : forest.codeChildren c = [] := by
    rw [List.eq_nil_iff_forall_not_mem]
    intro i hi
    rw [mem_codeChildren, h.codeParent?] at hi
    have hlt := Record.containerOf?_lt hi
    rw [← h.loads.size] at hlt
    exact Nat.not_lt.2 hle hlt
  have hfragments : forest.fragmentsOf c = [] := by
    rw [List.eq_nil_iff_forall_not_mem]
    intro i hi
    have hvisible := ((consolidated_frozen h.frozen h.prepared).absorbed (mem_fragmentsOf.1 hi)).2.1
    exact Nat.not_lt.2 hle (lt_size_of_mem_filtered hvisible)
  rw [listed, hfragments, List.flatMap_singleton, hmembers, List.filter_nil]

/-- A member of anything stands below what is left of its container, -/
theorem Built.mem_childrenOf_standing (hi : i ∈ forest.walk) (hp : forest.codeParent? i = some p) :
    forest.Stands (filtered config loaded) (forest.standing p) ∧
      i ∈ forest.childrenOf (forest.standing p) := by
  have hdocuments := documents_of_frozen h.frozen h.prepared
  have hlt : i < loaded.forest.size := by
    rw [h.loads.size]
    exact Record.lt_of_containerOf? (h.codeParent? ▸ hp)
  obtain ⟨hstands, hends⟩ := (hdocuments.mem_walk_iff_of_lt hlt).1 hi
  have howner : forest.owner? i = some (forest.standing p) := owner?_eq_some.2 ⟨p, hp, rfl⟩
  have habove := hdocuments.consolidated.stands_of_owner hstands.reachable howner
  have hwalk := hdocuments.mem_walk.2 (.inl ⟨habove, hends.tail howner⟩)
  refine ⟨habove, ?_⟩
  rw [childrenOf_frozen h.frozen h.prepared habove hwalk, mem_inOrder, mem_plannedChildren habove.unmerged]
  exact ⟨hstands.unmerged, p, rfl, (hdocuments.consolidated.followsCode.container hstands.reachable hp).2⟩

/-- so that nothing below a group is a member of anything. -/
theorem Built.codeParent?_of_mem_childrenOf (hle : loaded.forest.size ≤ c) (hi : i ∈ forest.childrenOf c) :
    forest.codeParent? i = none := by
  have hdocuments := documents_of_frozen h.frozen h.prepared
  rw [Option.eq_none_iff_forall_ne_some]
  intro p hp
  obtain ⟨hstands, hstanding⟩ := h.mem_childrenOf_standing (hdocuments.mem_walk_of_child hi) hp
  have hsame : forest.standing p = c :=
    Option.some.inj ((hdocuments.mem_childrenOf.1 hstanding).symm.trans (hdocuments.mem_childrenOf.1 hi))
  exact Nat.not_lt.2 hle (hsame ▸ lt_size_of_mem_filtered hstands.reachable)

/-- A mark is a member of something, if it is shown. -/
theorem Built.not_isMark_of_top (hi : i ∈ forest.walk) (hnone : forest.codeParent? i = none) :
    forest.isMark i = false := by
  have hdocuments := documents_of_frozen h.frozen h.prepared
  cases hgroup : forest.isGroup i with
  | true =>
    refine Bool.eq_false_iff.2 fun hmark => ?_
    exact Bool.false_ne_true ((not_isGroup_of_isMark hmark).symm.trans hgroup)
  | false =>
    have hreachable := (hdocuments.stands_of_mem_walk hi hgroup).reachable
    have hroot := hdocuments.consolidated.followsCode.mem_roots hreachable hnone
    rw [isMark_frozen h.frozen]
    exact (mem_roots_candidateLayout.1 ((Filter.keptOf_sublist _ _ _ _).subset hroot)).2.2

end Built

/-- **Before fragments are merged no mark stands over nothing.  Afterwards one does if all of its section is
merged into other nodes**, and only then. -/
theorem build_heads_content_iff (h : (build config inflect records).outcome = .ok forest)
    (hc : c ∈ forest.walk) :
    NoEmptySection forest.isMark (forest.listed (keptNodes config records) c) ∧
      (NoEmptySection forest.isMark (forest.childrenOf c) ↔
        ∀ front m behind, forest.listed (keptNodes config records) c = front ++ m :: behind →
          forest.isMark m = true → ∃ i ∈ sectionOf forest.isMark behind, forest.mergedInto? i = none) := by
  obtain ⟨loaded, hbuilt⟩ := built_of_build h
  rw [hbuilt.keptNodes_eq]
  rcases (documents_of_frozen hbuilt.frozen hbuilt.prepared).mem_walk.1 hc with ⟨hstands, -⟩ | ⟨hle, -⟩
  · exact ⟨hbuilt.noEmptySection_listed hstands, hbuilt.noEmptySection_childrenOf_iff hc hstands⟩
  · have hmarks : ∀ i ∈ forest.childrenOf c, forest.isMark i = false := fun i hi =>
      hbuilt.not_isMark_of_top ((documents_of_frozen hbuilt.frozen hbuilt.prepared).mem_walk_of_child hi)
        (hbuilt.codeParent?_of_mem_childrenOf hle hi)
    rw [hbuilt.listed_of_le hle]
    refine ⟨noEmptySection_nil _, iff_of_true (noEmptySection_of_no_mark hmarks) fun front m behind heq => ?_⟩
    simp at heq

/-- A structure, with some members. -/
def outerRecords (members : List Record) : List Record :=
  swiftRecord "a" "struct" "Outer" "s:Outer" .null :: members

/-- A structure in another one.  Two of them are fragments of one type. -/
def innerRecord (id : String) : Record :=
  swiftRecord id "struct" "Inner" "s:Inner" (.str "a")

/-- A mark in a container. -/
def markRecord (name parent : String) : Record :=
  .obj [("kind", .str "source.lang.swift.syntaxtype.comment.mark"), ("name", .str name),
    ("parent", .str parent)]

/-- A mark in front of both fragments keeps one of them. -/
theorem build_heads_content_fragments : ∃ forest,
    (build { modules := ["M"] } id
      (outerRecords [markRecord "MARK: - Inner" "a", innerRecord "b", innerRecord "c"])).outcome = .ok forest ∧
        0 ∈ forest.walk ∧ forest.isMark 1 = true ∧ forest.childrenOf 0 = [1, 2] ∧
          forest.mergedInto? 3 = some 2 ∧ NoEmptySection forest.isMark (forest.childrenOf 0) := by
  obtain ⟨forest, hforest, hrun⟩ := Outcome.exists_ok_of_map
    (f := fun forest => ([forest.walk, forest.childrenOf 0, forest.listed (keptNodes { modules := ["M"] }
      (outerRecords [markRecord "MARK: - Inner" "a", innerRecord "b", innerRecord "c"])) 0],
      [forest.isMark 1, forest.isMark 2, forest.isMark 3], [forest.mergedInto? 2, forest.mergedInto? 3]))
    (b := ([[5, 4, 0, 1, 2], [1, 2], [1, 2, 3]], [true, false, false], [none, some 2]))
    (o := (build { modules := ["M"] } id
      (outerRecords [markRecord "MARK: - Inner" "a", innerRecord "b", innerRecord "c"])).outcome) (by decide +kernel)
  simp only [Prod.mk.injEq, List.cons.injEq, and_true, and_assoc] at hrun
  obtain ⟨hwalk, hchildren, hlisted, hmark, hfirst, hsecond, hstays, hmerged⟩ := hrun
  have hmem : 0 ∈ forest.walk := by simp [hwalk]
  refine ⟨forest, hforest, hmem, hmark, hchildren, hmerged, ?_⟩
  refine (build_heads_content_iff hforest hmem).2.2 fun front m behind heq hm => ?_
  rw [hlisted] at heq
  rcases front with _ | ⟨_, _ | ⟨_, _ | ⟨_, _⟩⟩⟩
  · obtain ⟨rfl, rfl⟩ := List.cons.inj heq
    exact ⟨2, by simp [sectionOf, hfirst], hstays⟩
  · obtain ⟨rfl, -⟩ := List.cons.inj (List.cons.inj heq).2
    exact absurd (hm.symm.trans hfirst) (by decide)
  · obtain ⟨rfl, -⟩ := List.cons.inj (List.cons.inj (List.cons.inj heq).2).2
    exact absurd (hm.symm.trans hsecond) (by decide)
  · simp at heq

/-- **A mark between both fragments loses all that stands behind it.** -/
theorem build_leaves_bare_heading : ∃ forest,
    (build { modules := ["M"] } id
      (outerRecords [innerRecord "b", markRecord "MARK: - Inner" "a", innerRecord "c"])).outcome = .ok forest ∧
        0 ∈ forest.walk ∧ forest.isMark 2 = true ∧ forest.childrenOf 0 = [1, 2] ∧
          ¬NoEmptySection forest.isMark (forest.childrenOf 0) := by
  obtain ⟨forest, hforest, hrun⟩ := Outcome.exists_ok_of_map
    (f := fun forest => (forest.walk, forest.isMark 2, forest.childrenOf 0))
    (b := ([5, 4, 0, 1, 2], true, [1, 2]))
    (o := (build { modules := ["M"] } id
      (outerRecords [innerRecord "b", markRecord "MARK: - Inner" "a", innerRecord "c"])).outcome) (by decide +kernel)
  simp only [Prod.mk.injEq] at hrun
  obtain ⟨hwalk, hmark, hchildren⟩ := hrun
  refine ⟨forest, hforest, by simp [hwalk], hmark, hchildren, fun h => ?_⟩
  rw [hchildren] at h
  exact h [1] 2 [] rfl hmark rfl

end Forest
end DocForest
