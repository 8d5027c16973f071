import DocForest.Proofs.EmptySections
import DocForest.Proofs.Hiding

/-!
# The mark in front of a child

A child of the documentation carries the mark of its section, which is assigned before anything is left out,
filtered or moved; and marks stand among the children, where a reader takes the nearest one in front of a
child for its heading.  **The two agree below every node into which nothing is merged**, and where no mark
stands in front of a child, it carries the one that its container opens with.

Below a node with fragments this fails: the members of a fragment begin a section of their own, and there is
no mark in front of them.

## What is here

* `Forest.sectionMarks_of_no_mark`, `Forest.sectionMarks_inOrder_perm` — siblings are in the same sections
  when hints move them.
* `Forest.sectionBehind_of_nearest` — the section behind a mark.
* `Forest.Built.markOf_eq_sectionBehind`, `Forest.Built.markOf_of_top` — the mark that a child carries, below
  a node of the records and below a group.
* `Forest.build_carries_nearest_mark` — **a child carries the nearest mark in front of it**.
-/

set_option autoImplicit false

namespace DocForest

theorem Declaration.mark_of_ofRecord {record : Record} {decl : Declaration}
    (h : Declaration.ofRecord record = .ok decl) : decl.mark = {} := by
  cases record with
  | obj fields =>
    simp only [ofRecord, ofFields, Outcome.bind_eq_ok, Outcome.pure_eq_ok] at h
    obtain ⟨level, -, inherited, -, parameters, -, hint, -, rfl⟩ := h
    rfl
  | _ => cases h

namespace Forest

variable {config : Config} {inflect : String → String} {records : List Record} {loaded : Loaded}
  {forest : Forest} {current : SectionMark} {front between back items pending : List Nat} {c i m p : Nat}

/-! ## Sections of siblings that are moved -/

theorem sectionMarks_of_no_mark (current : SectionMark) (h : ∀ i ∈ items, forest.isMark i = false) :
    forest.sectionMarks current items =
      (items.filter fun i => (forest.decl? i).isSome).map fun i => (i, current) := by
  induction items with
  | nil => rfl
  | cons i rest ih =>
    rw [List.forall_mem_cons] at h
    have hnot : forest.opensSection i = false :=
      Bool.eq_false_iff.2 fun hopen => Bool.false_ne_true (h.1.symm.trans (isMark_of_opensSection hopen))
    rw [sectionMarks_cons, sectionAfter_of_not_opens current hnot, ih h.2, h.1, Bool.not_false,
      Bool.and_true, List.filter_cons]
    split <;> rfl

/-- Hints leave the siblings of one section in it. -/
theorem sectionMarks_byHint_perm (current : SectionMark) (hpending : ∀ i ∈ pending, forest.isMark i = false) :
    (forest.sectionMarks current (byHint forest.hintOf pending)).Perm
      (forest.sectionMarks current pending) := by
  rw [sectionMarks_of_no_mark _ hpending, sectionMarks_of_no_mark _ (no_mark_byHint hpending)]
  exact ((byHint_perm forest.hintOf pending).filter _).map _

theorem sectionMarks_orderedSections_perm (current : SectionMark)
    (hpending : ∀ i ∈ pending, forest.isMark i = false) :
    (forest.sectionMarks current (orderedSections forest.isMark forest.hintOf pending items)).Perm
      (forest.sectionMarks current (pending ++ items)) := by
  induction items generalizing pending current with
  | nil =>
    rw [orderedSections, List.append_nil]
    exact sectionMarks_byHint_perm current hpending
  | cons a rest ih =>
    rw [orderedSections]
    split
    · -- in front of the mark the section is one and the same, and behind it another one begins
      rw [sectionMarks_append, sectionMarks_append, sectionMarks_cons, sectionMarks_cons,
        sectionBehind_of_no_mark _ hpending, sectionBehind_of_no_mark _ (no_mark_byHint hpending)]
      exact (sectionMarks_byHint_perm current hpending).append ((ih _ (List.forall_mem_nil _)).append_left _)
    · next ha =>
      rw [List.append_cons pending a rest]
      exact ih _ (List.forall_mem_append.2
        ⟨hpending, List.forall_mem_singleton.2 (Bool.eq_false_iff.2 ha)⟩)

/-- **Siblings are in the same sections when hints move them.** -/
theorem sectionMarks_inOrder_perm (current : SectionMark) (items : List Nat) :
    (forest.sectionMarks current (forest.inOrder items)).Perm (forest.sectionMarks current items) := by
  rw [inOrder, ordered]
  split
  · exact sectionMarks_orderedSections_perm current (List.forall_mem_nil _)
  · exact List.Perm.refl _

/-- **Behind a mark that opens a section the siblings are in this one**, up to the next mark. -/
theorem sectionBehind_of_nearest (current : SectionMark) (hm : forest.opensSection m = true)
    (hbetween : ∀ i ∈ between, forest.isMark i = false) :
    forest.sectionBehind current (front ++ m :: between) = .ofComment (forest.nameTextOf m) := by
  have hafter : ∀ current, forest.sectionAfter current m = .ofComment (forest.nameTextOf m) := fun current => by
    rw [sectionAfter, hm, if_pos rfl]
  rw [List.append_cons, sectionBehind_append, sectionBehind_append, sectionBehind_of_no_mark _ hbetween]
  exact hafter _

/-! ## The marks of children -/

section Built

variable (h : Built config inflect records loaded forest)

include h

/-- **Below a node without fragments the marks among the children tell the mark of a child.** -/
theorem Built.markOf_eq_sectionBehind (hp : p ∈ forest.walk)
    (hstands : forest.Stands (filtered config loaded) p) (hfragments : forest.fragmentsOf p = [])
    (hsplit : forest.childrenOf p = front ++ c :: back) (hc : forest.isMark c = false) :
    forest.markOf c = forest.sectionBehind (forest.openingOf p) front := by
  obtain ⟨hchildren, hnodup⟩ := h.childrenOf_eq hp hstands
  rw [unhinted, hfragments, List.flatMap_singleton] at hchildren hnodup
  have hmember : c ∈ forest.keptMembers (filtered config loaded).reachable p := by
    rw [← mem_inOrder, ← hchildren, hsplit]
    exact List.mem_append_right _ List.mem_cons_self
  have hlt : c < forest.size := lt_of_codeParent? (mem_keptMembers.1 hmember).1
  obtain ⟨front', back', hsplit'⟩ := List.append_of_mem hmember
  -- the section in the order of the children is one in input order, and there is only one for each child
  have hmoved := (sectionMarks_inOrder_perm (forest.openingOf p) _).subset
    (hchildren ▸ hsplit ▸ mem_sectionMarks_append hlt hc)
  have hplace : (c, forest.sectionBehind (forest.openingOf p) front') ∈ forest.sectionMarks
      (forest.openingOf p) (forest.keptMembers (filtered config loaded).reachable p) := by
    rw [hsplit']
    exact mem_sectionMarks_append hlt hc
  have hkeys := hnodup.sublist (forest.sectionMarks_sublist (forest.openingOf p) _)
  have hvisible := hstands.reachable
  rw [markOf_frozen h.frozen h.prepared hvisible hsplit' hc]
  exact congrArg Prod.snd (List.inj_on_of_nodup_map hkeys hplace hmoved rfl)

theorem Built.markOf_of_top (hnone : forest.codeParent? i = none) : forest.markOf i = {} := by
  have hgroup : ∀ decl, GroupsOthers decl → ({ decl } : Node).decl.mark = {} := by
    rintro decl ⟨name, addressName, docModule, rfl⟩
    rfl
  have hnested := h.loads.nested h.nesting
  have hmodules : (loaded.forest.fillModules config).Nested :=
    hnested.congr (codeParent?_fillModules config _) (Nat.le_of_eq (size_fillModules config _).symm)
  have hsection : (loaded.forest.fillModules config).sectionOf? i = none := by
    rw [codeParent?_frozen h.frozen, codeParent?_completed] at hnone
    rw [sectionOf?, codeParent?_fillModules, hnone, Option.bind_none]
  have hmark : (completed config loaded).markOf i = {} := by
    rw [markOf_eq_view, completed, view_deriveLevels_of fun _ _ => rfl, ← markOf_eq_view, markOf,
      decl?_assignMarks hmodules, hsection, decl?_fillModules hnested]
    cases hdecl : loaded.forest.decl? i with
    | none => rfl
    | some decl =>
      rw [h.loads.decl?, Option.bind_eq_some_iff] at hdecl
      obtain ⟨record, -, hrecord⟩ := hdecl
      obtain ⟨_, hok, rfl⟩ :=
        Outcome.exists_ok_of_map (f := id) (b := decl) (congrArg (Option.map id) hrecord)
      have hfresh := Declaration.mark_of_ofRecord hok
      exact hfresh
  rw [markOf_eq_view, view_frozen h.frozen (fun _ _ _ => rfl) hgroup, consolidated,
    view_merged fun _ _ _ => rfl, ← markOf_eq_view, hmark]

theorem Built.opensSection_of_isMark (hm : m ∈ forest.walk) (hmark : forest.isMark m = true) :
    forest.opensSection m = true := by
  have hdocuments := documents_of_frozen h.frozen h.prepared
  have hstands := hdocuments.stands_of_mem_walk hm (not_isGroup_of_isMark hmark)
  rw [← isCandidate_of_isMark hmark]
  exact (hdocuments.admitted hstands.reachable).candidate

end Built

/-- The members of a group would be in no section. -/
theorem openingOf_of_isGroup (h : forest.isGroup p = true) : forest.openingOf p = {} := by
  obtain ⟨decl, hdecl, hgroup⟩ := (Option.any_eq_true _ _).1 h
  have hkind : decl.kind = .overview := of_decide_eq_true hgroup
  rw [openingOf, hdecl, Option.elim_some, Declaration.markForMembers, Declaration.isConstrained, hkind]
  rfl

/-- **Below a node without fragments a child carries the nearest mark in front of it**, and if there is none,
the mark that the node opens with. -/
theorem build_carries_nearest_mark (h : (build config inflect records).outcome = .ok forest)
    (hp : p ∈ forest.walk) (hfragments : forest.fragmentsOf p = [])
    (hsplit : forest.childrenOf p = front ++ c :: back) (hc : forest.isMark c = false) :
    (∀ ahead m between, front = ahead ++ m :: between → forest.isMark m = true →
      (∀ i ∈ between, forest.isMark i = false) → forest.markOf c = .ofComment (forest.nameTextOf m)) ∧
        ((∀ i ∈ front, forest.isMark i = false) → forest.markOf c = forest.openingOf p) := by
  obtain ⟨loaded, hbuilt⟩ := built_of_build h
  have hdocuments := documents_of_frozen hbuilt.frozen hbuilt.prepared
  rcases hdocuments.mem_walk.1 hp with ⟨hstands, -⟩ | ⟨hle, hlt⟩
  · have hmark := hbuilt.markOf_eq_sectionBehind hp hstands hfragments hsplit hc
    refine ⟨?_, fun hfront => hmark.trans (sectionBehind_of_no_mark _ hfront)⟩
    rintro ahead m between rfl hm hbetween
    have hchild : m ∈ forest.childrenOf p := by simp [hsplit]
    have hopens := hbuilt.opensSection_of_isMark (hdocuments.mem_walk_of_child hchild) hm
    exact hmark.trans (sectionBehind_of_nearest _ hopens hbetween)
  · have htop : ∀ i ∈ forest.childrenOf p, forest.codeParent? i = none := fun i =>
      hbuilt.codeParent?_of_mem_childrenOf hle
    constructor
    · rintro ahead m between rfl hm
      have hchild : m ∈ forest.childrenOf p := by simp [hsplit]
      have hnot := hbuilt.not_isMark_of_top (hdocuments.mem_walk_of_child hchild) (htop m hchild)
      exact absurd (hnot.symm.trans hm) Bool.false_ne_true
    · have hchild : c ∈ forest.childrenOf p := by simp [hsplit]
      rw [hbuilt.markOf_of_top (htop c hchild), openingOf_of_isGroup (hdocuments.group hle hlt)]
      exact fun _ => rfl

/-- A structure with a mark between its members, the last of which has a hint. -/
def dialRecords : List Record :=
  [swiftRecord "d" "struct" "Dial" "s:Dial" .null,
   swiftRecord "t" "function.method.instance" "turn()" "s:Dial.turn" (.str "d"),
   markRecord "MARK: - Limits" "d",
   swiftRecord "u" "function.method.instance" "upper()" "s:Dial.upper" (.str "d"),
   recordWith "nav_order" (.int 1)
     (swiftRecord "l" "function.method.instance" "lower()" "s:Dial.lower" (.str "d"))]

/-- The hint brings the last member to the mark, behind which the other one still is. -/
theorem build_carries_nearest_mark_limits : ∃ forest,
    (build { modules := ["M"] } id dialRecords).outcome = .ok forest ∧
      0 ∈ forest.walk ∧ forest.fragmentsOf 0 = [] ∧ forest.childrenOf 0 = [1, 2, 4] ++ 3 :: [] ∧
        forest.isMark 3 = false ∧ forest.markOf 3 = .ofComment (forest.nameTextOf 2) := by
  obtain ⟨forest, hforest, hrun⟩ := Outcome.exists_ok_of_map
    (f := fun forest => ([forest.walk, forest.fragmentsOf 0, forest.childrenOf 0],
      [forest.isMark 2, forest.isMark 3, forest.isMark 4]))
    (b := ([[6, 5, 0, 1, 2, 4, 3], [], [1, 2, 4, 3]], [true, false, false]))
    (o := (build { modules := ["M"] } id dialRecords).outcome) (by decide +kernel)
  simp only [Prod.mk.injEq, List.cons.injEq, and_true, and_assoc] at hrun
  obtain ⟨hwalk, hfragments, hchildren, hmark, hchild, hbetween⟩ := hrun
  have hmem : 0 ∈ forest.walk := by simp [hwalk]
  refine ⟨forest, hforest, hmem, hfragments, hchildren, hchild, ?_⟩
  exact (build_carries_nearest_mark hforest hmem hfragments hchildren hchild).1 [1] 2 [4] rfl hmark
    (List.forall_mem_singleton.2 hbetween)

end Forest
end DocForest
