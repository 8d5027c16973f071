import DocForest.Proofs.Completion
import DocForest.Proofs.Filtering
import DocForest.Proofs.Renumbering

/-!
# Which level an extension gets

An extension that states no level is as visible as its most visible member.  The levels are derived one
after the other, so that one could depend on another if such an extension stood in a second one.  Where
none does, **every level follows from the levels that are stated**, and an extension that is visible has a
visible member that makes it so.

## What is here

* `Forest.widest?_eq_some_iff` — the most visible of some levels.
* `Forest.OpenApart` — no extension whose level is open stands in another one.
* `Forest.decl?_deriveLevels` — **the levels in the end**.
* `Forest.Spares` — some nodes are all that a least level does not hide.
* `Relabels.deriveLevels` — levels do not depend on members that are hidden;
  `Relabels.deriveLevels_of_onto` — nor on how the members are numbered.
-/

set_option autoImplicit false

namespace DocForest

variable {e : Nat → Nat} {minLevel level : AccessLevel}

namespace AccessLevel

theorem le_antisymm {a b : AccessLevel} (hab : a ≤ b) (hba : b ≤ a) : a = b :=
  rank_injective (Nat.le_antisymm hab hba)

theorem max_eq_or (a b : AccessLevel) : a.max b = a ∨ a.max b = b := by
  unfold AccessLevel.max
  split
  · exact .inr rfl
  · exact .inl rfl

theorem le_max_left (a b : AccessLevel) : a ≤ a.max b := by
  rw [le_iff_rank_le, rank_max]
  exact Nat.le_max_left _ _

theorem le_max_right (a b : AccessLevel) : b ≤ a.max b := by
  rw [le_iff_rank_le, rank_max]
  exact Nat.le_max_right _ _

theorem max_le_iff {a b c : AccessLevel} : a.max b ≤ c ↔ a ≤ c ∧ b ≤ c := by
  rw [le_iff_rank_le, rank_max]
  exact Nat.max_le

theorem max_comm (a b : AccessLevel) : a.max b = b.max a :=
  le_antisymm (max_le_iff.2 ⟨le_max_right b a, le_max_left b a⟩)
    (max_le_iff.2 ⟨le_max_right a b, le_max_left a b⟩)

theorem max_self (a : AccessLevel) : a.max a = a := by
  rcases max_eq_or a a with h | h <;> exact h

theorem foldl_max_mem (first : AccessLevel) (rest : List AccessLevel) :
    rest.foldl AccessLevel.max first ∈ first :: rest := by
  induction rest generalizing first with
  | nil => exact List.mem_singleton_self _
  | cons next rest ih =>
    rw [List.foldl_cons]
    rcases List.mem_cons.1 (ih (first.max next)) with heq | hmem
    · rw [heq]
      rcases max_eq_or first next with hmax | hmax <;> rw [hmax] <;> simp
    · exact List.mem_cons_of_mem _ (List.mem_cons_of_mem _ hmem)

theorem le_foldl_max {other first : AccessLevel} {rest : List AccessLevel} (h : other ∈ first :: rest) :
    other ≤ rest.foldl AccessLevel.max first := by
  induction rest generalizing first other with
  | nil =>
    rw [List.mem_singleton.1 h]
    exact Nat.le_refl _
  | cons next rest ih =>
    have hmax : first.max next ≤ rest.foldl AccessLevel.max (first.max next) := ih List.mem_cons_self
    rw [List.foldl_cons]
    rcases List.mem_cons.1 h with rfl | h
    · exact Nat.le_trans (le_max_left _ _) hmax
    · rcases List.mem_cons.1 h with rfl | h
      · exact Nat.le_trans (le_max_right _ _) hmax
      · exact ih (List.mem_cons_of_mem _ h)

theorem foldl_max_eq_iff (first : AccessLevel) (rest : List AccessLevel) :
    rest.foldl AccessLevel.max first = level ↔
      level ∈ first :: rest ∧ ∀ other ∈ first :: rest, other ≤ level := by
  constructor
  · rintro rfl
    exact ⟨foldl_max_mem first rest, fun _ => le_foldl_max⟩
  · exact fun h => le_antisymm (h.2 _ (foldl_max_mem first rest)) (le_foldl_max h.1)

end AccessLevel

theorem Kind.of_isExtension {kind : Kind} (h : kind.isExtension = true) :
    kind.isMark = false ∧ kind.isOverview = false := by
  constructor
  · by_contra hmark
    rw [Bool.not_eq_false, isMark, Bool.or_eq_true, decide_eq_true_eq, decide_eq_true_eq] at hmark
    rcases hmark with rfl | rfl <;> exact absurd h (by decide)
  · by_contra hgroup
    rw [Bool.not_eq_false, isOverview, decide_eq_true_eq] at hgroup
    subst hgroup
    exact absurd h (by decide)

namespace Forest

variable {forest state part whole : Forest} {done todo : List Nat} {i j p c : Nat}

/-! ## The levels of members -/

/-- **The most visible level is one of the levels, and none is more visible.** -/
theorem widest?_eq_some_iff {levels : List AccessLevel} :
    widest? levels = some level ↔ level ∈ levels ∧ ∀ other ∈ levels, other ≤ level := by
  cases levels with
  | nil => simp [widest?]
  | cons first rest => rw [widest?, Option.some.injEq, AccessLevel.foldl_max_eq_iff]

theorem widest?_eq_none_iff {levels : List AccessLevel} : widest? levels = none ↔ levels = [] := by
  cases levels <;> simp [widest?]

theorem mem_memberLevels :
    level ∈ forest.memberLevels i ↔
      ∃ c decl, forest.codeParent? c = some i ∧ forest.decl? c = some decl ∧
        decl.kind.isMark = false ∧ decl.level = level := by
  simp only [memberLevels, List.mem_filterMap, mem_codeChildren, Option.ite_none_left_eq_some,
    Option.some.injEq, Bool.not_eq_true]
  constructor
  · rintro ⟨decl, ⟨c, hc, hdecl⟩, hmark, hlevel⟩
    exact ⟨c, decl, hc, hdecl, hmark, hlevel⟩
  · rintro ⟨c, decl, hc, hdecl, hmark, hlevel⟩
    exact ⟨decl, ⟨c, hc, hdecl⟩, hmark, hlevel⟩

/-- The levels of members follow from their declarations. -/
theorem memberLevels_congr (hsize : state.size = forest.size)
    (hparent : state.codeParent? = forest.codeParent?)
    (hdecl : ∀ c, forest.codeParent? c = some i → state.decl? c = forest.decl? c) :
    state.memberLevels i = forest.memberLevels i := by
  have hchildren : state.codeChildren i = forest.codeChildren i := by
    rw [codeChildren, codeChildren, hsize, hparent]
  rw [memberLevels, memberLevels, hchildren]
  refine congrArg _ (List.filterMap_congr fun c hc => ?_)
  exact hdecl c (mem_codeChildren.1 hc)

/-! ## Levels one after the other -/

/-- Of the nodes whose levels are open, none stands in another. -/
def OpenApart (forest : Forest) (openNodes : List Nat) : Prop :=
  ∀ i ∈ openNodes, ∀ p ∈ openNodes, forest.codeParent? i ≠ some p

/-- A declaration with the level that its members give it. -/
def withLevel (forest : Forest) (i : Nat) (decl : Declaration) : Declaration :=
  { decl with level := (widest? (forest.memberLevels i)).getD decl.level }

/-- The levels of the nodes `done` have been derived, and no others. -/
structure Derived (forest : Forest) (done : List Nat) (state : Forest) : Prop where
  size : state.size = forest.size
  codeParent? : state.codeParent? = forest.codeParent?
  decl? : ∀ j, state.decl? j =
    (forest.decl? j).map fun decl => if j ∈ done then forest.withLevel j decl else decl

theorem derived_nil (forest : Forest) : Derived forest [] forest where
  size := rfl
  codeParent? := rfl
  decl? j := by simp

theorem decl?_deriveLevel (forest : Forest) (i j : Nat) :
    (forest.deriveLevel i).decl? j =
      if i = j then (forest.decl? j).map (forest.withLevel i) else forest.decl? j := by
  unfold deriveLevel
  cases hlevel : widest? (forest.memberLevels i) with
  | none =>
    have hkeeps : forest.withLevel i = id := by
      funext decl
      rw [withLevel, hlevel]
      rfl
    rw [hkeeps, Option.map_id]
    exact (ite_self _).symm
  | some level =>
    have hgives : forest.withLevel i = fun decl => { decl with level } := by
      funext decl
      rw [withLevel, hlevel]
      rfl
    rw [hgives]
    exact forest.decl?_modifyDecl i j _

theorem codeParent?_deriveLevel (forest : Forest) (i : Nat) :
    (forest.deriveLevel i).codeParent? = forest.codeParent? := by
  funext j
  rw [deriveLevel]
  split
  · exact forest.codeParent?_modifyDecl i j _
  · rfl

/-- **One more level**, whose members have levels already. -/
theorem Derived.deriveLevel (h : Derived forest done state) (hi : i ∉ done)
    (hmembers : ∀ c, forest.codeParent? c = some i → c ∉ done) :
    Derived forest (done ++ [i]) (state.deriveLevel i) where
  size := (congrArg Prod.fst (bounds_deriveLevel state i)).trans h.size
  codeParent? := (codeParent?_deriveLevel state i).trans h.codeParent?
  decl? j := by
    have hlevels : state.memberLevels i = forest.memberLevels i := by
      refine memberLevels_congr h.size h.codeParent? fun c hc => ?_
      simp [h.decl?, hmembers c hc]
    have hsame : state.withLevel i = forest.withLevel i := by
      funext decl
      rw [withLevel, withLevel, hlevels]
    rw [decl?_deriveLevel, hsame, h.decl?, Option.map_map]
    by_cases heq : i = j
    · subst heq
      simp [hi, Function.comp_def]
    · simp [heq, Ne.symm heq]

/-- **All levels, if none of these nodes stands in another.** -/
theorem Derived.foldl (h : Derived forest done state) (hnodup : (done ++ todo).Nodup)
    (hopen : forest.OpenApart (done ++ todo)) :
    Derived forest (done ++ todo) (todo.foldl Forest.deriveLevel state) := by
  induction todo generalizing done state with
  | nil => simpa using h
  | cons i rest ih =>
    have hi : i ∉ done := fun hmem =>
      (List.nodup_append.1 hnodup).2.2 i hmem i List.mem_cons_self rfl
    have hmembers : ∀ c, forest.codeParent? c = some i → c ∉ done := fun c hc hmem =>
      hopen c (List.mem_append_left _ hmem) i (by simp) hc
    rw [List.append_cons] at hnodup hopen ⊢
    exact ih (h.deriveLevel hi hmembers) hnodup hopen

/-- **An open level is the one that the members give, and all other levels are those that are stated.** -/
theorem decl?_deriveLevels {openNodes : List Nat} (hnodup : openNodes.Nodup)
    (hopen : forest.OpenApart openNodes) (j : Nat) :
    (forest.deriveLevels openNodes).decl? j = (forest.decl? j).map fun decl =>
      if j ∈ openNodes then forest.withLevel j decl else decl :=
  ((derived_nil forest).foldl hnodup hopen).decl? j

theorem codeParent?_deriveLevels (forest : Forest) (openNodes : List Nat) :
    (forest.deriveLevels openNodes).codeParent? = forest.codeParent? :=
  foldl_keeps codeParent? _ openNodes codeParent?_deriveLevel

theorem size_deriveLevels (forest : Forest) (openNodes : List Nat) :
    (forest.deriveLevels openNodes).size = forest.size :=
  congrArg Prod.fst (foldl_keeps bounds _ openNodes bounds_deriveLevel)

theorem isFragment_deriveLevels (forest : Forest) (openNodes : List Nat) (i : Nat) :
    (forest.deriveLevels openNodes).satisfies i Declaration.isFragment =
      forest.satisfies i Declaration.isFragment :=
  satisfies_congr (view_deriveLevels (fun _ _ _ _ => rfl) openNodes)

/-! ## Hidden members -/

/-- The numbers that `e` gives are those of all nodes that the least level does not hide: none of these
nodes is rejected, and whatever else is rejected nowhere in front is one of them. -/
structure Spares (e : Nat → Nat) (minLevel : AccessLevel) (forest : Forest) : Prop where
  kept : ∀ i, Filter.rejects ⟨forest, minLevel⟩ (e i) = false
  top : ∀ {c}, c < forest.size → forest.codeParent? c = none →
    Filter.rejects ⟨forest, minLevel⟩ c = false → ∃ i, e i = c
  member : ∀ {p c}, forest.codeParent? c = some (e p) →
    Filter.rejects ⟨forest, minLevel⟩ c = false → ∃ i, e i = c

section Kept

variable {openNodes : List Nat} {decl : Declaration} (hnodup : openNodes.Nodup)
  (hopen : forest.OpenApart openNodes)

include hnodup hopen

/-- An extension that is not hidden owes that to its most visible member. -/
theorem not_lt_of_widest? (hi : i ∈ openNodes) (hext : forest.isExtension i = true)
    (hwidest : widest? (forest.memberLevels i) = some level)
    (hkept : Filter.rejects ⟨forest.deriveLevels openNodes, minLevel⟩ i = false) :
    ¬level < minLevel := by
  obtain ⟨extension, hextension, hkind⟩ := (Option.any_eq_true _ _).1 hext
  obtain ⟨hnomark, hnogroup⟩ := Kind.of_isExtension hkind
  have hlevel : (forest.deriveLevels openNodes).decl? i = some { extension with level } := by
    rw [decl?_deriveLevels hnodup hopen, hextension, Option.map_some, if_pos hi, withLevel, hwidest,
      Option.getD_some]
  rw [rejects_of_decl? hlevel, hnomark, hnogroup] at hkept
  exact of_decide_eq_false hkept

/-- A declaration that states its level is hidden only below the least one. -/
theorem not_rejects_of_stated (hc : c ∉ openNodes) (hdecl : forest.decl? c = some decl)
    (hlevel : ¬decl.level < minLevel) :
    Filter.rejects ⟨forest.deriveLevels openNodes, minLevel⟩ c = false := by
  have hdecl' : (forest.deriveLevels openNodes).decl? c = some decl := by
    rw [decl?_deriveLevels hnodup hopen, hdecl, Option.map_some, if_neg hc]
  rw [rejects_of_decl? hdecl', decide_eq_false hlevel, Bool.and_false]

end Kept

/-- **An extension that is not hidden has the level of members that are not hidden**, if none of them
leaves its own level open. -/
theorem Relabels.widest?_memberLevels (h : Relabels e part whole) {openNodes : List Nat}
    (hnodup : openNodes.Nodup) (hopen : whole.OpenApart openNodes)
    (hspares : Spares e minLevel (whole.deriveLevels openNodes)) (hi : e i ∈ openNodes)
    (hext : whole.isExtension (e i) = true) :
    widest? (part.memberLevels i) = widest? (whole.memberLevels (e i)) := by
  have hsub : ∀ level ∈ part.memberLevels i, level ∈ whole.memberLevels (e i) := by
    intro level hlevel
    obtain ⟨c, decl, hc, hdecl, hmark⟩ := mem_memberLevels.1 hlevel
    exact mem_memberLevels.2 ⟨e c, decl, h.container_iff.2 hc,
      (h.decl? c).trans hdecl, hmark⟩
  cases hwidest : widest? (whole.memberLevels (e i)) with
  | none =>
    rw [widest?_eq_none_iff] at hwidest ⊢
    exact List.eq_nil_iff_forall_not_mem.2 fun level hlevel =>
      List.ne_nil_of_mem (hsub level hlevel) hwidest
  | some level =>
    obtain ⟨hmem, hle⟩ := widest?_eq_some_iff.1 hwidest
    refine widest?_eq_some_iff.2 ⟨?_, fun other hother => hle other (hsub other hother)⟩
    obtain ⟨c, decl, hc, hdecl, hmark, rfl⟩ := mem_memberLevels.1 hmem
    -- the extension has the level of this member and is not hidden, so neither is the member
    have hlevel := not_lt_of_widest? hnodup hopen hi hext hwidest (hspares.kept i)
    have hother : c ∉ openNodes := fun hopenc => hopen c hopenc (e i) hi hc
    have hkept := not_rejects_of_stated hnodup hopen hother hdecl hlevel
    obtain ⟨k, rfl⟩ := hspares.member (codeParent?_deriveLevels whole openNodes ▸ hc) hkept
    exact mem_memberLevels.2
      ⟨k, decl, h.container_iff.1 hc, (h.decl? k).symm.trans hdecl, hmark, rfl⟩

/-- **Levels do not depend on members that are hidden.** -/
theorem Relabels.deriveLevels (h : Relabels e part whole) {openPart openWhole : List Nat}
    (hnodup : openPart.Nodup) (hnodup' : openWhole.Nodup)
    (hmem : ∀ i, e i ∈ openWhole ↔ i ∈ openPart) (hopen : whole.OpenApart openWhole)
    (hext : ∀ i ∈ openWhole, whole.isExtension i = true)
    (hspares : Spares e minLevel (whole.deriveLevels openWhole)) :
    Relabels e (part.deriveLevels openPart) (whole.deriveLevels openWhole) := by
  have hopen' : part.OpenApart openPart := fun i hi p hp hparent =>
    hopen (e i) ((hmem i).2 hi) (e p) ((hmem p).2 hp) (h.container_iff.2 hparent)
  refine h.congr (size_deriveLevels _ _) (size_deriveLevels _ _) (codeParent?_deriveLevels _ _)
    (codeParent?_deriveLevels _ _) (isFragment_deriveLevels _ _) fun i => ?_
  rw [decl?_deriveLevels hnodup' hopen, decl?_deriveLevels hnodup hopen', h.decl?]
  simp only [hmem]
  refine Option.map_congr fun decl _ => ?_
  split
  · next hi =>
    have hi := (hmem i).2 hi
    rw [withLevel, withLevel, h.widest?_memberLevels hnodup' hopen hspares hi (hext _ hi)]
  · rfl

/-! ## All members under new numbers -/

theorem Relabels.memberLevels (h : Relabels e part whole) (honto : Function.Surjective e) (i : Nat) :
    whole.memberLevels (e i) = part.memberLevels i := by
  have hchildren := h.codeChildren (fun j _ => iff_of_true rfl (honto j)) i
  rw [List.filter_true] at hchildren
  rw [Forest.memberLevels, Forest.memberLevels, hchildren, List.filterMap_map]
  simp only [Function.comp_def, h.decl?]

/-- **If no node is left out, the same levels are derived**, even of extensions that stand in others, as
long as they come in the same order. -/
theorem Relabels.deriveLevels_of_onto (h : Relabels e part whole) (honto : Function.Surjective e)
    (openNodes : List Nat) :
    Relabels e (part.deriveLevels openNodes) (whole.deriveLevels (openNodes.map e)) := by
  induction openNodes generalizing part whole with
  | nil => exact h
  | cons i rest ih =>
    refine ih (h.congr (size_deriveLevels part [i]) (size_deriveLevels whole [e i])
      (codeParent?_deriveLevel _ _) (codeParent?_deriveLevel _ _) (isFragment_deriveLevels part [i])
      fun j => ?_)
    have hsame : whole.withLevel (e i) = part.withLevel i := by
      funext decl
      rw [withLevel, withLevel, h.memberLevels honto]
    rw [decl?_deriveLevel, decl?_deriveLevel, h.decl?, hsame, if_congr h.injective.eq_iff rfl rfl]

end Forest
end DocForest
