import DocForest.Proofs.Noninterference

/-!
# Which extensions the access filter keeps

The level of an extension that states none is derived from its members, one extension after the other in the
order of the records, and the access filter compares it with the least level.  An extension that comes before
another one in it is given its level too early.  Otherwise the members have their levels when it gets its own,
so that **it is kept exactly if one of its members reaches the least level**.  The member need not be one that
can be documented.

## What is here

* `Forest.decl?_deriveLevels_of_not_mem` — a level that is stated stays.
* `Forest.widest?_deriveLevels` — a level that is derived behind those of the members is the most visible one
  of these, also in the end.
* `Forest.mem_reachable_visible_of_top` — what the filter keeps outside all containers.
* `Forest.build_keeps_open_extension_iff` — **which extensions are kept**.
* `Forest.build_misjudges_open_extensions` — extensions that are kept or not although this is not so for their
  members that can be documented.
-/

set_option autoImplicit false

namespace DocForest
namespace Forest

variable {config : Config} {inflect : String → String} {records : List Record} {loaded : Loaded}
  {forest : Forest} {minLevel level : AccessLevel} {levels : List AccessLevel} {decl : Declaration}
  {openNodes front back : List Nat} {i : Nat}

/-! ## Levels that are settled -/

theorem decl?_deriveLevels_of_not_mem (h : i ∉ openNodes) :
    (forest.deriveLevels openNodes).decl? i = forest.decl? i := by
  induction openNodes generalizing forest with
  | nil => rfl
  | cons j rest ih =>
    rw [List.mem_cons, not_or] at h
    exact (ih h.2).trans ((decl?_deriveLevel forest j i).trans (if_neg (Ne.symm h.1)))

theorem memberLevels_deriveLevels (h : ∀ c, forest.codeParent? c = some i → c ∉ openNodes) :
    (forest.deriveLevels openNodes).memberLevels i = forest.memberLevels i :=
  memberLevels_congr (size_deriveLevels _ _) (codeParent?_deriveLevels _ _)
    fun c hc => decl?_deriveLevels_of_not_mem (h c hc)

/-- **A level that is derived behind those of the members is the most visible one of these**, whatever is
derived behind it. -/
theorem widest?_deriveLevels (hi : i ∉ back) (hlast : ∀ c, forest.codeParent? c = some i → c ∉ i :: back)
    (hdecl : (forest.deriveLevels (front ++ i :: back)).decl? i = some decl)
    (hmember : (forest.deriveLevels (front ++ i :: back)).memberLevels i ≠ []) :
    widest? ((forest.deriveLevels (front ++ i :: back)).memberLevels i) = some decl.level := by
  have hsplit : forest.deriveLevels (front ++ i :: back) =
      (forest.deriveLevels front).deriveLevels (i :: back) := List.foldl_append
  have hlevels : (forest.deriveLevels (front ++ i :: back)).memberLevels i =
      (forest.deriveLevels front).memberLevels i := by
    rw [hsplit]
    exact memberLevels_deriveLevels fun c hc => hlast c (codeParent?_deriveLevels forest front ▸ hc)
  rw [hlevels] at hmember ⊢
  have hstep : (forest.deriveLevels (front ++ i :: back)).decl? i =
      ((forest.deriveLevels front).decl? i).map ((forest.deriveLevels front).withLevel i) := by
    rw [hsplit]
    refine (decl?_deriveLevels_of_not_mem hi).trans ?_
    rw [decl?_deriveLevel, if_pos rfl]
  rw [hstep, Option.map_eq_some_iff] at hdecl
  obtain ⟨before, -, rfl⟩ := hdecl
  rw [withLevel]
  cases hwidest : widest? ((forest.deriveLevels front).memberLevels i) with
  | none => exact absurd (widest?_eq_none_iff.1 hwidest) hmember
  | some level => rfl

/-- The most visible level reaches the least one if any level does. -/
theorem le_widest?_iff (h : widest? levels = some level) :
    minLevel ≤ level ↔ ∃ other ∈ levels, minLevel ≤ other := by
  obtain ⟨hmem, hle⟩ := widest?_eq_some_iff.1 h
  exact ⟨fun hlevel => ⟨level, hmem, hlevel⟩, fun ⟨other, hother, hreaches⟩ =>
    Nat.le_trans hreaches (hle other hother)⟩

/-! ## What is kept -/

/-- **Outside all containers a candidate is kept if its level is not too low.** -/
theorem mem_reachable_visible_of_top (hparent : forest.codeParent? i = none)
    (hcandidate : forest.isCandidate i = true) (hmark : forest.isMark i = false) :
    i ∈ (forest.visible minLevel).reachable ↔ Filter.rejects ⟨forest, minLevel⟩ i = false := by
  have hfollows := forest.visible_followsCode minLevel
  have hroot : i ∈ (forest.visible minLevel).roots ↔ Filter.rejects ⟨forest, minLevel⟩ i = false := by
    rw [roots_visible, mem_sparedTops]
    exact and_iff_right ⟨hcandidate, hparent, hmark⟩
  rw [← hroot]
  exact ⟨fun hi => hfollows.mem_roots hi hparent, hfollows.reachable_of_mem_roots⟩

section Built

variable (h : Built config inflect records loaded forest)

include h

/-- An extension gets the most visible level of its members if none of these is given its own level behind
it. -/
theorem Built.widest?_completed (hopen : Record.leavesLevelAt records i = true)
    (hlast : ∀ c ∈ forest.codeChildren i, Record.leavesLevelAt records c = true → c < i)
    (hdecl : (completed config loaded).decl? i = some decl)
    (hmember : (completed config loaded).memberLevels i ≠ []) :
    widest? ((completed config loaded).memberLevels i) = some decl.level := by
  obtain ⟨front, back, hsplit⟩ := List.append_of_mem (h.loads.mem_implicit.2 hopen)
  have hascending : (front ++ i :: back).Pairwise (· < ·) := by
    rw [← hsplit, h.loads.implicit]
    exact List.pairwise_lt_range.filter _
  have hbehind : ∀ j ∈ back, i < j :=
    (List.pairwise_cons.1 (List.pairwise_append.1 hascending).2.1).1
  have hparent : ((loaded.forest.fillModules config).assignMarks).codeParent? = forest.codeParent? := by
    rw [codeParent?_assignMarks, codeParent?_fillModules, codeParent?_frozen h.frozen, codeParent?_completed]
  rw [completed, hsplit] at hdecl hmember ⊢
  refine widest?_deriveLevels (fun hi => Nat.lt_irrefl i (hbehind i hi)) (fun c hc hmem => ?_) hdecl hmember
  have hleaves : Record.leavesLevelAt records c = true := by
    rw [← h.loads.mem_implicit, hsplit]
    exact List.mem_append_right _ hmem
  have hlt := hlast c (mem_codeChildren.2 (hparent ▸ hc)) hleaves
  rcases List.mem_cons.1 hmem with rfl | hmem
  · exact Nat.lt_irrefl c hlt
  · exact Nat.lt_asymm hlt (hbehind c hmem)

/-- The levels that the filter compares are those that the members have in the end. -/
theorem Built.exists_memberLevel_iff (test : AccessLevel → Bool) :
    (∃ level ∈ (completed config loaded).memberLevels i, test level = true) ↔
      ∃ c ∈ forest.codeChildren i, forest.isMark c = false ∧
        forest.satisfies c (fun member => test member.level) = true := by
  have hmember : ∀ {c}, c ∈ forest.codeChildren i ↔ (completed config loaded).codeParent? c = some i := by
    intro c
    rw [mem_codeChildren, codeParent?_frozen h.frozen]
  have hdecl : ∀ {c}, c ∈ forest.codeChildren i → forest.decl? c = (completed config loaded).decl? c := by
    intro c hc
    refine decl?_frozen h.frozen ?_
    rw [← size_completed config]
    exact lt_of_codeParent? (hmember.1 hc)
  constructor
  · rintro ⟨level, hlevel, htest⟩
    obtain ⟨c, member, hc, hgiven, hmark, rfl⟩ := mem_memberLevels.1 hlevel
    rw [← hmember] at hc
    rw [← hdecl hc] at hgiven
    refine ⟨c, hc, ?_, (Option.any_eq_true _ _).2 ⟨member, hgiven, htest⟩⟩
    rw [isMark, satisfies, hgiven, Option.any_some, hmark]
  · rintro ⟨c, hc, hmark, htest⟩
    obtain ⟨member, hgiven, htest⟩ := (Option.any_eq_true _ _).1 htest
    rw [isMark, satisfies, hgiven, Option.any_some] at hmark
    rw [hdecl hc] at hgiven
    exact ⟨_, mem_memberLevels.2 ⟨c, member, hmember.1 hc, hgiven, hmark, rfl⟩, htest⟩

theorem Built.memberLevels_ne_nil (hmember : ∃ c ∈ forest.codeChildren i, forest.isMark c = false) :
    (completed config loaded).memberLevels i ≠ [] := by
  obtain ⟨c, hc, hmark⟩ := hmember
  obtain ⟨decl, hdecl⟩ := exists_decl? (lt_of_codeParent? (mem_codeChildren.1 hc))
  have hexists : forest.satisfies c (fun _ => true) = true := by
    rw [satisfies, hdecl, Option.any_some]
  obtain ⟨level, hlevel, -⟩ := (h.exists_memberLevel_iff fun _ => true).2 ⟨c, hc, hmark, hexists⟩
  exact List.ne_nil_of_mem hlevel

/-- Outside all containers the filter keeps what is documented and reaches the least level. -/
theorem Built.mem_keptNodes_iff_of_top (htop : forest.codeParent? i = none)
    (hdecl : (completed config loaded).decl? i = some decl) (hdocumented : decl.kind.isDocumented = true)
    (hext : decl.kind.isExtension = true) : i ∈ keptNodes config records ↔ config.minLevel ≤ decl.level := by
  obtain ⟨hnomark, hnogroup⟩ := Kind.of_isExtension hext
  have hparent : (completed config loaded).codeParent? i = none := by
    rw [← codeParent?_frozen h.frozen, htop]
  have hmark : (completed config loaded).isMark i = false := by
    rw [isMark, satisfies, hdecl, Option.any_some, hnomark]
  have hcandidate : (completed config loaded).isCandidate i = true := by
    rw [isCandidate, satisfies, hdecl, Option.any_some, Declaration.isCandidate, hnomark, hdocumented,
      if_neg Bool.false_ne_true, Bool.true_or]
  rw [h.keptNodes_eq, filtered, mem_reachable_visible_of_top hparent hcandidate hmark, rejects_of_decl? hdecl,
    hnomark, hnogroup, Bool.or_false, Bool.not_false, Bool.true_and, decide_eq_false_iff_not,
    AccessLevel.not_lt_iff_le]

end Built

/-- Whether a node has at least some level. -/
def reaches (forest : Forest) (minLevel : AccessLevel) (i : Nat) : Bool :=
  forest.satisfies i fun decl => minLevel ≤ decl.level

/-- **An extension that states no level is kept exactly if one of its members reaches the least level**, if it
has members and stands in no container. -/
theorem build_keeps_open_extension_iff (h : (build config inflect records).outcome = .ok forest)
    (hopen : Record.leavesLevelAt records i = true) (htop : forest.codeParent? i = none)
    (hdocumented : (forest.kindOf i).isDocumented = true)
    (hmember : ∃ c ∈ forest.codeChildren i, forest.isMark c = false)
    (hlast : ∀ c ∈ forest.codeChildren i, Record.leavesLevelAt records c = true → c < i) :
    i ∈ keptNodes config records ↔
      ∃ c ∈ forest.codeChildren i, forest.isMark c = false ∧ forest.reaches config.minLevel c = true := by
  obtain ⟨loaded, hbuilt⟩ := built_of_build h
  have hi : i ∈ loaded.implicit := hbuilt.loads.mem_implicit.2 hopen
  have hext : (completed config loaded).isExtension i = true :=
    (satisfies_congr (view_completed (fun _ _ _ _ => rfl) _ _)).trans (hbuilt.loads.isExtension_of_implicit hi)
  obtain ⟨decl, hdecl, hkind⟩ := (Option.any_eq_true _ _).1 hext
  have hlt : i < loaded.forest.size := by
    rw [← size_completed config]
    exact lt_of_decl? hdecl
  rw [kindOf, decl?_frozen hbuilt.frozen hlt, hdecl, Option.elim_some] at hdocumented
  have hwidest := hbuilt.widest?_completed hopen hlast hdecl (hbuilt.memberLevels_ne_nil hmember)
  have hreaches := hbuilt.exists_memberLevel_iff (i := i) fun level => decide (config.minLevel ≤ level)
  simp only [decide_eq_true_eq] at hreaches
  rw [hbuilt.mem_keptNodes_iff_of_top htop hdecl hdocumented hkind, le_widest?_iff hwidest, hreaches]
  rfl

/-- An extension, -/
def boxRecord : Record :=
  leveledRecord "e" "extension" "Box" .null .null

/-- and another one in it with a method. -/
def lidRecords : List Record :=
  [leveledRecord "i" "extension" "Lid" (.str "e") .null,
   leveledRecord "f" "function.method.instance" "lift()" (.str "i")
    (.str "source.lang.swift.accessibility.public")]

/-- The inner extension is given the level of its method first, for which the outer one is kept. -/
theorem build_keeps_open_extension_lid : ∃ forest,
    (build { modules := ["M"] } id (lidRecords ++ [boxRecord])).outcome = .ok forest ∧
      Record.leavesLevelAt (lidRecords ++ [boxRecord]) 2 = true ∧ forest.codeParent? 2 = none ∧
        (forest.kindOf 2).isDocumented = true ∧ (∃ c ∈ forest.codeChildren 2, forest.isMark c = false) ∧
          (∀ c ∈ forest.codeChildren 2, Record.leavesLevelAt (lidRecords ++ [boxRecord]) c = true → c < 2) ∧
            2 ∈ keptNodes { modules := ["M"] } (lidRecords ++ [boxRecord]) := by
  obtain ⟨forest, hforest, hrun⟩ := Outcome.exists_ok_of_map
    (f := fun forest => (forest.codeParent? 2, forest.codeChildren 2,
      [Record.leavesLevelAt (lidRecords ++ [boxRecord]) 2, (forest.kindOf 2).isDocumented,
        !forest.isMark 0, forest.reaches .publicLevel 0]))
    (b := (none, [0], [true, true, true, true]))
    (o := (build { modules := ["M"] } id (lidRecords ++ [boxRecord])).outcome) (by decide +kernel)
  simp only [Prod.mk.injEq, List.cons.injEq, Bool.not_eq_true', and_true] at hrun
  obtain ⟨htop, hmembers, hopen, hdocumented, hmark, hreaches⟩ := hrun
  have hmember : 0 ∈ forest.codeChildren 2 := hmembers ▸ List.mem_cons_self
  have hlast : ∀ c ∈ forest.codeChildren 2,
      Record.leavesLevelAt (lidRecords ++ [boxRecord]) c = true → c < 2 := by
    intro c hc _
    rw [hmembers, List.mem_singleton] at hc
    omega
  refine ⟨forest, hforest, hopen, htop, hdocumented, ⟨0, hmember, hmark⟩, hlast, ?_⟩
  exact (build_keeps_open_extension_iff hforest hopen htop hdocumented ⟨0, hmember, hmark⟩ hlast).2
    ⟨0, hmember, hmark, hreaches⟩

/-- The first record is that of an extension outside all containers that states no level and has members that
can be documented, and it is not true that it is kept exactly if one of these reaches the least level. -/
def MisjudgesFirst (records : List Record) : Prop :=
  ∃ forest, (build { modules := ["M"] } id records).outcome = .ok forest ∧
    Record.leavesLevelAt records 0 = true ∧ forest.codeParent? 0 = none ∧
      (∃ c ∈ forest.candidateChildren 0, forest.isMark c = false) ∧
        ¬(0 ∈ keptNodes { modules := ["M"] } records ↔ ∃ c ∈ forest.candidateChildren 0,
          forest.isMark c = false ∧ forest.reaches .publicLevel c = true)

/-- It is not true with one such member if only one of the two is the case. -/
theorem misjudgesFirst_of_member {c : Nat} {k : Bool}
    (h : (build { modules := ["M"] } id records).outcome.toOption.map (fun forest =>
      ((Record.leavesLevelAt records 0, forest.codeParent? 0, forest.candidateChildren 0),
        [(keptNodes { modules := ["M"] } records).contains 0, forest.isMark c,
          forest.reaches .publicLevel c])) = some ((true, none, [c]), [k, false, !k])) :
    MisjudgesFirst records := by
  obtain ⟨forest, hforest, hrun⟩ := Outcome.exists_ok_of_map h
  simp only [Prod.mk.injEq, List.cons.injEq, and_true] at hrun
  obtain ⟨⟨hopen, htop, hmembers⟩, hkept, hmark, hreaches⟩ := hrun
  refine ⟨forest, hforest, hopen, htop, ⟨c, hmembers ▸ List.mem_cons_self, hmark⟩, fun h => ?_⟩
  rw [hmembers, ← List.contains_iff_mem, hkept] at h
  simp [hmark, hreaches] at h

/-- An extension with a generic parameter that is visible and a method that is not. -/
def stringRecords : List Record :=
  [leveledRecord "s" "extension" "String" .null .null,
   leveledRecord "t" "generic_type_param" "T" (.str "s") (.str "source.lang.swift.accessibility.public"),
   leveledRecord "h" "function.method.instance" "hush()" (.str "s")
    (.str "source.lang.swift.accessibility.private")]

/-- An extension of a kind that is not known, with a method that is visible. -/
def actorRecords : List Record :=
  [leveledRecord "a" "extension.actor" "Box" .null .null,
   leveledRecord "o" "function.method.instance" "open()" (.str "a")
    (.str "source.lang.swift.accessibility.public")]

/-- **The members that can be documented do not tell which extensions are kept.**  The generic parameter keeps
the first one.  The second one is of a kind that is not documented.  The third one comes before the extension in
it, which is given the level of its method too late. -/
theorem build_misjudges_open_extensions :
    MisjudgesFirst stringRecords ∧ MisjudgesFirst actorRecords ∧
      MisjudgesFirst (boxRecord :: lidRecords) := by
  refine ⟨misjudgesFirst_of_member (c := 2) (k := true) ?_, misjudgesFirst_of_member (c := 1) (k := false) ?_,
    misjudgesFirst_of_member (c := 1) (k := false) ?_⟩ <;> decide +kernel

end Forest
end DocForest
