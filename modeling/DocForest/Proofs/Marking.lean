import DocForest.Proofs.Completion
import DocForest.Proofs.Filtering
import DocForest.Proofs.Renumbering

/-!
# Which section a declaration is in

A member stands in the section of the last mark in front of it, or in the one that its container opens.
Members that are no marks do not matter to each other, so **sections stay if other members go, as long as
all marks stay**.

## What is here

* `Forest.sectionMarks_sublist`, `Forest.sectionMarks_filter`, `Forest.sectionMarks_map` — siblings with
  their sections, some of the siblings, and siblings under new numbers.
* `Forest.sectionBehind`, `Forest.mem_sectionMarks_append` — the section of a sibling, from those in front
  of it; `Forest.sectionBehind_of_no_mark`, without a mark there it is that which is open before.
* `Forest.markOf`, `Forest.openingOf` — the mark that a node carries, and the one that its members begin with.
* `Forest.memberMarks_congr` — sections do not depend on anything that is filled in.
* `Forest.sectionOf?`, `Forest.decl?_assignMarks` — the section that a node is given.
* `Relabels.assignMarks` — sections do not depend on other members that are no marks.
-/

set_option autoImplicit false

namespace DocForest
namespace Forest

variable {forest part whole : Forest} {e : Nat → Nat} {i j p : Nat}

theorem find?_key_eq_some {β : Type} {entries : List (Nat × β)} {b : β}
    (hnodup : (entries.map (·.1)).Nodup) :
    (entries.find? fun entry => entry.1 = j).map (·.2) = some b ↔ (j, b) ∈ entries := by
  induction entries with
  | nil => simp
  | cons entry rest ih =>
    obtain ⟨hentry, hrest⟩ := List.nodup_cons.1 hnodup
    obtain ⟨k, c⟩ := entry
    by_cases hk : k = j
    · subst hk
      have hother : (k, b) ∉ rest := fun hmem => hentry (List.mem_map.2 ⟨_, hmem, rfl⟩)
      simp [hother, eq_comm]
    · simpa [hk, Ne.symm hk] using ih hrest

/-! ## Siblings -/

theorem sectionMarks_sublist (forest : Forest) (current : SectionMark) (siblings : List Nat) :
    ((forest.sectionMarks current siblings).map (·.1)).Sublist siblings := by
  induction siblings generalizing current with
  | nil => exact List.Sublist.refl _
  | cons i rest ih =>
    rw [sectionMarks]
    split
    · exact (ih current).cons i
    · split
      · exact (ih _).cons i
      · exact (ih current).cons_cons i

/-- Whether a node is a mark that opens a section. -/
def opensSection (forest : Forest) (i : Nat) : Bool :=
  forest.satisfies i fun decl => decl.kind.isMark && decl.isTask

/-- The section behind a sibling. -/
def sectionAfter (forest : Forest) (current : SectionMark) (i : Nat) : SectionMark :=
  if forest.opensSection i then .ofComment (forest.nameTextOf i) else current

theorem isMark_of_opensSection (h : forest.opensSection i = true) : forest.isMark i = true := by
  obtain ⟨decl, hdecl, htest⟩ := (Option.any_eq_true _ _).1 h
  exact (Option.any_eq_true _ _).2 ⟨decl, hdecl, (Bool.and_eq_true_iff.1 htest).1⟩

theorem sectionAfter_of_not_opens (current : SectionMark) (h : forest.opensSection i = false) :
    forest.sectionAfter current i = current := by
  rw [sectionAfter, h, if_neg Bool.false_ne_true]

/-- A sibling that is no mark is given the section that it stands in. -/
theorem sectionMarks_cons (forest : Forest) (current : SectionMark) (i : Nat) (rest : List Nat) :
    forest.sectionMarks current (i :: rest) =
      (if (forest.decl? i).isSome && !forest.isMark i then [(i, current)] else [])
        ++ forest.sectionMarks (forest.sectionAfter current i) rest := by
  rw [sectionMarks, sectionAfter, opensSection, isMark, satisfies, satisfies, nameTextOf, nameOf]
  cases forest.decl? i with
  | none => rfl
  | some decl => cases hmark : decl.kind.isMark <;> simp [hmark, Declaration.nameText]

/-- **Without some siblings the others have the same sections**, if those that open one stay. -/
theorem sectionMarks_filter {keep : Nat → Bool} (current : SectionMark) {siblings : List Nat}
    (hopens : ∀ i ∈ siblings, forest.opensSection i = true → keep i = true) :
    forest.sectionMarks current (siblings.filter keep) =
      (forest.sectionMarks current siblings).filter fun entry => keep entry.1 := by
  induction siblings generalizing current with
  | nil => rfl
  | cons i rest ih =>
    obtain ⟨hi, hrest⟩ := List.forall_mem_cons.1 hopens
    rw [List.filter_cons, sectionMarks_cons, List.filter_append, ← ih _ hrest]
    cases hkeep : keep i with
    | true =>
      rw [if_pos rfl, sectionMarks_cons]
      split <;> simp [hkeep]
    | false =>
      have hnot : forest.opensSection i = false :=
        Bool.eq_false_iff.2 fun hopen => Bool.false_ne_true (hkeep.symm.trans (hi hopen))
      rw [if_neg Bool.false_ne_true, sectionAfter_of_not_opens current hnot]
      split <;> simp [hkeep]

/-- The section behind several siblings, one after the other. -/
def sectionBehind (forest : Forest) (current : SectionMark) (siblings : List Nat) : SectionMark :=
  siblings.foldl forest.sectionAfter current

theorem sectionBehind_append (forest : Forest) (current : SectionMark) (front back : List Nat) :
    forest.sectionBehind current (front ++ back) =
      forest.sectionBehind (forest.sectionBehind current front) back :=
  List.foldl_append

theorem sectionMarks_append (forest : Forest) (current : SectionMark) (front back : List Nat) :
    forest.sectionMarks current (front ++ back) =
      forest.sectionMarks current front ++ forest.sectionMarks (forest.sectionBehind current front) back := by
  induction front generalizing current with
  | nil => rfl
  | cons i rest ih =>
    rw [List.cons_append, sectionMarks_cons, sectionMarks_cons, ih, List.append_assoc]
    rfl

/-- **A sibling is given the section behind those in front of it.** -/
theorem mem_sectionMarks_append {current : SectionMark} {front back : List Nat} (hi : i < forest.size)
    (hmark : forest.isMark i = false) :
    (i, forest.sectionBehind current front) ∈ forest.sectionMarks current (front ++ i :: back) := by
  have hdecl : (forest.decl? i).isSome = true := by
    rw [decl?, Option.isSome_map, node?_isSome_iff]
    exact hi
  rw [sectionMarks_append, sectionMarks_cons, hdecl, hmark]
  exact List.mem_append_right _ (List.mem_append_left _ List.mem_cons_self)

theorem sectionBehind_of_no_mark (current : SectionMark) {siblings : List Nat}
    (h : ∀ i ∈ siblings, forest.isMark i = false) : forest.sectionBehind current siblings = current := by
  induction siblings with
  | nil => rfl
  | cons i rest ih =>
    rw [List.forall_mem_cons] at h
    have hnot : forest.opensSection i = false :=
      Bool.eq_false_iff.2 fun hopen => Bool.false_ne_true (h.1.symm.trans (isMark_of_opensSection hopen))
    rw [sectionBehind, List.foldl_cons, sectionAfter_of_not_opens current hnot]
    exact ih h.2

theorem sectionBehind_congr {other : Forest} {siblings : List Nat}
    (h : ∀ i ∈ siblings, other.decl? i = forest.decl? i) (current : SectionMark) :
    other.sectionBehind current siblings = forest.sectionBehind current siblings := by
  refine List.foldl_ext _ _ _ fun current i hi => ?_
  rw [sectionAfter, sectionAfter, opensSection, opensSection, satisfies, satisfies, nameTextOf, nameTextOf,
    nameOf, nameOf, h i hi]

/-- Sections depend on the kinds and the names of the siblings alone. -/
theorem sectionMarks_congr {other : Forest} {siblings : List Nat}
    (h : ∀ i ∈ siblings, (other.decl? i).map (fun decl => (decl.kind, decl.name)) =
      (forest.decl? i).map fun decl => (decl.kind, decl.name)) (current : SectionMark) :
    other.sectionMarks current siblings = forest.sectionMarks current siblings := by
  induction siblings generalizing current with
  | nil => rfl
  | cons i rest ih =>
    obtain ⟨hi, hrest⟩ := List.forall_mem_cons.1 h
    rw [sectionMarks, sectionMarks]
    cases hdecl : forest.decl? i with
    | none =>
      rw [hdecl, Option.map_none, Option.map_eq_none_iff] at hi
      rw [hi]
      exact ih hrest current
    | some decl =>
      rw [hdecl, Option.map_some, Option.map_eq_some_iff] at hi
      obtain ⟨same, hsame, heq⟩ := hi
      obtain ⟨hkind, hname⟩ := Prod.mk.inj heq
      cases hmark : decl.kind.isMark <;> cases htask : decl.kind.isTask decl.name.plainText <;>
        simp [hsame, hkind, hname, hmark, htask, Declaration.isTask, Declaration.nameText, ih hrest]

theorem sectionMarks_map (h : ∀ i, whole.decl? (e i) = part.decl? i) (current : SectionMark)
    (siblings : List Nat) :
    whole.sectionMarks current (siblings.map e) =
      (part.sectionMarks current siblings).map fun entry => (e entry.1, entry.2) := by
  induction siblings generalizing current with
  | nil => rfl
  | cons i rest ih =>
    rw [List.map_cons, sectionMarks, sectionMarks, h]
    split
    · exact ih current
    · split
      · exact ih _
      · rw [List.map_cons, ih]

/-! ## Members -/

/-- The section mark of a node. -/
def markOf (forest : Forest) (i : Nat) : SectionMark :=
  (forest.decl? i).elim {} (·.mark)

theorem markOf_eq_view (forest : Forest) (i : Nat) :
    forest.markOf i = (forest.view (·.decl.mark) i).getD {} := by
  unfold markOf decl? view
  cases forest.node? i <;> rfl

/-- The section mark of the members of a node that stand in front of the first mark among them. -/
def openingOf (forest : Forest) (p : Nat) : SectionMark :=
  (forest.decl? p).elim {} (·.markForMembers)

theorem openingOf_eq_map (forest : Forest) (p : Nat) :
    forest.openingOf p = ((forest.decl? p).map Declaration.markForMembers).getD {} := by
  rw [openingOf]
  cases forest.decl? p <;> rfl

/-- Sections do not depend on anything that is filled in. -/
theorem memberMarks_congr {other : Forest} (hsize : other.size = forest.size)
    (h : ∀ {β : Type} {read : Node → β}, Settled read → ∀ i, other.view read i = forest.view read i)
    (p : Nat) : other.memberMarks p = forest.memberMarks p := by
  have hdecl : ∀ {β : Type} {read : Declaration → β}, Settled (fun node => read node.decl) →
      ∀ i, (other.decl? i).map read = (forest.decl? i).map read := by
    intro β read hread i
    have hview := h hread i
    rw [view, view] at hview
    rw [decl?, decl?, Option.map_map, Option.map_map]
    exact hview
  have hparent : other.codeParent? = forest.codeParent? :=
    codeParent?_congr fun _ => h (fun _ _ _ _ => rfl) _
  have hopening : other.openingOf p = forest.openingOf p := by
    rw [openingOf_eq_map, openingOf_eq_map, hdecl fun _ _ _ _ => rfl]
  have hmembers : other.codeChildren p = forest.codeChildren p := by
    rw [codeChildren, codeChildren, hsize, hparent]
  have hmarks : ∀ current siblings,
      other.sectionMarks current siblings = forest.sectionMarks current siblings :=
    fun current siblings => sectionMarks_congr (fun i _ => hdecl (fun _ _ _ _ => rfl) i) current
  rw [memberMarks, ← openingOf, hopening, hmembers, hmarks]
  rfl

/-- The section that a node is given: the one that it has among the members of its container. -/
def sectionOf? (forest : Forest) (j : Nat) : Option SectionMark :=
  (forest.codeParent? j).bind fun p =>
    ((forest.memberMarks p).find? fun entry => entry.1 = j).map (·.2)

theorem memberMarks_sublist (forest : Forest) (p : Nat) :
    ((forest.memberMarks p).map (·.1)).Sublist (forest.codeChildren p) :=
  forest.sectionMarks_sublist _ _

theorem codeParent?_of_mem_memberMarks {entry : Nat × SectionMark} (h : entry ∈ forest.memberMarks p) :
    forest.codeParent? entry.1 = some p :=
  mem_codeChildren.1 ((forest.memberMarks_sublist p).subset (List.mem_map_of_mem h))

theorem nodup_memberMarks (forest : Forest) :
    (((List.range forest.size).flatMap forest.memberMarks).map (·.1)).Nodup := by
  rw [List.map_flatMap]
  refine List.nodup_flatMap.2 ⟨fun p _ => ?_, List.nodup_range.imp fun {p q} hne => ?_⟩
  · exact (forest.nodup_codeChildren p).sublist (forest.memberMarks_sublist p)
  · intro j hp hq
    have hjp := mem_codeChildren.1 ((forest.memberMarks_sublist p).subset hp)
    have hjq := mem_codeChildren.1 ((forest.memberMarks_sublist q).subset hq)
    exact hne (Option.some.inj (hjp.symm.trans hjq))

theorem sectionOf?_eq_some {mark : SectionMark} :
    forest.sectionOf? j = some mark ↔ ∃ p, (j, mark) ∈ forest.memberMarks p := by
  have hnodup : ∀ p, ((forest.memberMarks p).map (·.1)).Nodup := fun p =>
    (forest.nodup_codeChildren p).sublist (forest.memberMarks_sublist p)
  rw [sectionOf?, Option.bind_eq_some_iff]
  simp only [find?_key_eq_some (hnodup _)]
  exact ⟨fun ⟨p, _, hj⟩ => ⟨p, hj⟩, fun ⟨p, hj⟩ => ⟨p, codeParent?_of_mem_memberMarks hj, hj⟩⟩

/-- Among all members a node is found below its container. -/
theorem find?_memberMarks (h : forest.Nested) (j : Nat) :
    (((List.range forest.size).flatMap forest.memberMarks).find? fun entry => entry.1 = j).map (·.2) =
      forest.sectionOf? j := by
  refine Option.ext fun mark => ?_
  rw [find?_key_eq_some forest.nodup_memberMarks, sectionOf?_eq_some, List.mem_flatMap]
  refine exists_congr fun p => ?_
  rw [List.mem_range, and_iff_right_iff_imp]
  exact fun hj => h.container_lt (codeParent?_of_mem_memberMarks hj)

/-- **Every member is given its section, and nothing else is changed.** -/
theorem decl?_assignMarks (h : forest.Nested) (j : Nat) :
    forest.assignMarks.decl? j = (forest.decl? j).map fun decl =>
      { decl with mark := (forest.sectionOf? j).getD decl.mark } := by
  rw [decl?, decl?, ← find?_memberMarks h]
  refine (congrArg _ (node?_modifyAll _ _ _ forest.nodup_memberMarks j)).trans ?_
  -- either there is no such entry or it tells the mark, and either there is no such node or it gets it
  cases ((List.range forest.size).flatMap forest.memberMarks).find? fun entry => entry.1 = j <;>
    cases forest.node? j <;> rfl

theorem codeParent?_assignMarks (forest : Forest) :
    forest.assignMarks.codeParent? = forest.codeParent? :=
  codeParent?_congr fun _ => view_putMarks (fun _ _ _ _ => rfl) _

theorem size_assignMarks (forest : Forest) : forest.assignMarks.size = forest.size :=
  congrArg Prod.fst (bounds_putMarks forest _)

/-! ## More members -/

/-- The same members have the same sections, if all marks among them stay. -/
theorem Relabels.memberMarks (h : Relabels e part whole) {keep : Nat → Bool}
    (hkeep : ∀ j, j < whole.size → (keep j = true ↔ ∃ i, e i = j))
    (hmarks : ∀ {c}, whole.codeParent? c = some (e p) → whole.isMark c = true → keep c = true) :
    (whole.memberMarks (e p)).filter (fun entry => keep entry.1) =
      (part.memberMarks p).map fun entry => (e entry.1, entry.2) := by
  have hopens : ∀ c ∈ whole.codeChildren (e p), whole.opensSection c = true → keep c = true :=
    fun c hc hopen => hmarks (mem_codeChildren.1 hc) (isMark_of_opensSection hopen)
  rw [Forest.memberMarks, ← sectionMarks_filter _ hopens, h.codeChildren hkeep, sectionMarks_map h.decl?,
    h.decl?, Forest.memberMarks]

/-- **Sections do not depend on other members that are no marks.** -/
theorem Relabels.assignMarks (h : Relabels e part whole) (hpart : part.Nested) (hwhole : whole.Nested)
    (hmarks : ∀ {c p}, whole.codeParent? c = some (e p) → whole.isMark c = true → ∃ i, e i = c) :
    Relabels e part.assignMarks whole.assignMarks := by
  classical
  have hkeep : ∀ j, j < whole.size → (decide (∃ i, e i = j) = true ↔ ∃ i, e i = j) :=
    fun j _ => decide_eq_true_iff
  have hsection : ∀ i, whole.sectionOf? (e i) = part.sectionOf? i := by
    intro i
    refine Option.ext fun mark => ?_
    rw [sectionOf?_eq_some, sectionOf?_eq_some]
    constructor
    · rintro ⟨q, hi⟩
      have hq := codeParent?_of_mem_memberMarks hi
      rw [h.codeParent?] at hq
      obtain ⟨p, -, rfl⟩ := Option.map_eq_some_iff.1 hq
      have hmem : (e i, mark) ∈ (whole.memberMarks (e p)).filter fun entry => decide (∃ i, e i = entry.1) :=
        List.mem_filter.2 ⟨hi, decide_eq_true ⟨i, rfl⟩⟩
      rw [h.memberMarks hkeep fun hc hmark => decide_eq_true (hmarks hc hmark)] at hmem
      obtain ⟨entry, hentry, heq⟩ := List.mem_map.1 hmem
      obtain ⟨hindex, rfl⟩ := Prod.mk.inj heq
      exact ⟨p, h.injective hindex ▸ hentry⟩
    · rintro ⟨p, hi⟩
      have hmem : (e i, mark) ∈ (part.memberMarks p).map fun entry => (e entry.1, entry.2) :=
        List.mem_map_of_mem hi
      rw [← h.memberMarks hkeep fun hc hmark => decide_eq_true (hmarks hc hmark)] at hmem
      exact ⟨e p, (List.mem_filter.1 hmem).1⟩
  refine h.congr (size_assignMarks _) (size_assignMarks _) (codeParent?_assignMarks _)
    (codeParent?_assignMarks _) (fun i => satisfies_congr (view_putMarks (fun _ _ _ _ => rfl) _)) fun i => ?_
  rw [decl?_assignMarks hwhole, decl?_assignMarks hpart, hsection, h.decl?]

end Forest
end DocForest
