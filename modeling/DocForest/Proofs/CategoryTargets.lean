import DocForest.Proofs.Families
import DocForest.Proofs.Interleaving

/-!
# Where categories go

A category extends a class and nothing else, but its kind names no kinds that it extends, as those of specific
Swift extensions do.  So it goes where an extension of an unspecific kind goes, to the first primary with its
key.  Swift types without an identifier are told by module and name, just as classes are, and one of them may
be that primary.  **A category is merged into a class exactly if a class with its key stands in front of all
Swift types with its key.**

## What is here

* `Forest.mem_primaryKin_iff` — the primaries of a group are its classes and its Swift types.
* `Forest.Partitioned.category` — a category goes to the first of them.
* `Forest.build_joins_class_iff` — **which categories go to a class**;
  `Forest.build_misses_class` — one that goes to a structure.
-/

set_option autoImplicit false

namespace DocForest

theorem Kind.not_isExtension {kind : Kind} (h : kind = .objcClass ∨ kind.isExtensible = true) :
    kind.isExtension = false := by
  simp only [Kind.isExtensible, Bool.or_eq_true, decide_eq_true_eq] at h
  rcases h with rfl | (((rfl | rfl) | rfl) | rfl) | rfl <;> decide

namespace Forest

variable {config : Config} {inflect : String → String} {records : List Record} {forest : Forest}
  {kept : List Nat} {i t : Nat}

theorem satisfies_kind (forest : Forest) (i : Nat) (test : Kind → Bool) (h : test (.other "") = false) :
    (forest.satisfies i fun decl => test decl.kind) = test (forest.kindOf i) := by
  rw [satisfies, kindOf]
  cases forest.decl? i with
  | none => exact h.symm
  | some decl => rfl

/-- **The primaries of a group are its classes and its Swift types.** -/
theorem mem_primaryKin_iff :
    t ∈ forest.primaryKin kept i ↔ t ∈ kept ∧ forest.mergeKey? t = forest.mergeKey? i ∧
      (forest.kindOf t = .objcClass ∨ (forest.kindOf t).isExtensible = true) := by
  have hfragment : forest.satisfies t Declaration.isFragment = true ↔
      ((forest.kindOf t).isExtensible = true ∨ forest.kindOf t = .objcClass) ∨
        (forest.kindOf t).isExtension = true := by
    have hkind := forest.satisfies_kind t
      (fun kind => kind.isExtensible || kind = .objcClass || kind.isExtension) (by decide)
    rw [show forest.satisfies t Declaration.isFragment = _ from hkind]
    simp
  have hextension : forest.isExtension t = (forest.kindOf t).isExtension :=
    forest.satisfies_kind t _ (by decide)
  have hprimary := @Kind.not_isExtension (forest.kindOf t)
  show ((t ∈ kept ∧ forest.satisfies t Declaration.isFragment = true) ∧
    forest.mergeKey? t = forest.mergeKey? i) ∧ forest.isExtension t = false ↔ _
  rw [hfragment, hextension]
  constructor
  · rintro ⟨⟨⟨hkept, hkind⟩, hkey⟩, hnone⟩
    refine ⟨hkept, hkey, ?_⟩
    rcases hkind with hkind | hkind
    · exact hkind.symm
    · simp [hnone] at hkind
  · rintro ⟨hkept, hkey, hkind⟩
    exact ⟨⟨⟨hkept, .inl hkind.symm⟩, hkey⟩, hprimary hkind⟩

/-- **A category goes to the first primary of its group**, if there is one. -/
theorem Partitioned.category (h : Partitioned kept forest) (hi : i ∈ kept)
    (hcategory : forest.kindOf i = .objcCategory) (hprimary : (forest.primaryKin kept i).Nonempty) :
    ∃ j, IsLeast (forest.primaryKin kept i) j ∧ forest.mergedInto? i = some j := by
  have hextension : forest.isExtension i = true := by
    rw [isExtension, forest.satisfies_kind _ Kind.isExtension (by decide), hcategory]
    decide
  have hfragment : forest.satisfies i Declaration.isFragment = true := by
    obtain ⟨decl, hdecl, hkind⟩ := (Option.any_eq_true _ _).1 hextension
    rw [satisfies, hdecl, Option.any_some, Declaration.isFragment, hkind, Bool.or_true]
  -- the kind of categories names no bases, so that there is nothing that a category fits
  refine h.unfitting ⟨hi, hfragment⟩ hextension hprimary (Set.eq_empty_of_forall_notMem ?_)
  rintro j ⟨-, hbase⟩
  simp [hcategory, Kind.bases] at hbase

/-- **A kept category goes to the first primary with its key, and so to a class exactly if a class stands in
front of all Swift types.** -/
theorem build_joins_class_iff (h : (build config inflect records).outcome = .ok forest)
    (hi : i ∈ keptNodes config records) (hcategory : forest.kindOf i = .objcCategory) :
    ((forest.primaryKin (keptNodes config records) i).Nonempty →
        ∃ j, IsLeast (forest.primaryKin (keptNodes config records) i) j ∧ forest.mergedInto? i = some j) ∧
      ((∃ j, forest.mergedInto? i = some j ∧ forest.kindOf j = .objcClass) ↔
        ∃ c ∈ keptNodes config records, forest.kindOf c = .objcClass ∧
          forest.mergeKey? c = forest.mergeKey? i ∧
            ∀ t ∈ keptNodes config records, (forest.kindOf t).isExtensible = true →
              forest.mergeKey? t = forest.mergeKey? i → c < t) := by
  have hpartitioned := build_partitions_fragments h
  have hfirst := hpartitioned.category hi hcategory
  refine ⟨hfirst, ?_⟩
  constructor
  · rintro ⟨j, hj, hclass⟩
    obtain ⟨-, hkin, -⟩ := hpartitioned.absorbed hj
    have hprimary : j ∈ forest.primaryKin (keptNodes config records) i :=
      mem_primaryKin_iff.2 ⟨hkin.1.1, hkin.2, .inl hclass⟩
    obtain ⟨first, hleast, hmerged⟩ := hfirst ⟨j, hprimary⟩
    obtain rfl : first = j := Option.some.inj (hmerged.symm.trans hj)
    refine ⟨first, hkin.1.1, hclass, hkin.2, fun t ht htype hkey => ?_⟩
    have hle := hleast.2 (mem_primaryKin_iff.2 ⟨ht, hkey, .inr htype⟩)
    refine Nat.lt_of_le_of_ne hle fun heq => ?_
    rw [← heq, hclass] at htype
    exact absurd htype (by decide)
  · rintro ⟨c, hc, hclass, hkey, hahead⟩
    have hprimary := mem_primaryKin_iff.2 ⟨hc, hkey, .inl hclass⟩
    obtain ⟨j, hleast, hmerged⟩ := hfirst ⟨c, hprimary⟩
    refine ⟨j, hmerged, ?_⟩
    obtain ⟨hj, hjkey, hkind | htype⟩ := mem_primaryKin_iff.1 hleast.1
    · exact hkind
    · have hle := hleast.2 hprimary
      have hlt := hahead j hj htype hjkey
      omega

/-- A class as a record. -/
def widgetClass : Record :=
  objcRecord "c" "class" "Widget" .null

/-- A category of the class. -/
def widgetCategory : Record :=
  objcRecord "x" "category" "Widget(Extras)" .null

/-- A structure of the same name, without an identifier. -/
def widgetStruct : Record :=
  swiftRecord "s" "struct" "Widget" "" .null

/-- A structure behind the class makes no difference. -/
theorem build_joins_class_widget : ∃ forest,
    (build { modules := ["M"] } id [widgetClass, widgetStruct, widgetCategory]).outcome = .ok forest ∧
      2 ∈ keptNodes { modules := ["M"] } [widgetClass, widgetStruct, widgetCategory] ∧
        forest.kindOf 2 = .objcCategory ∧ forest.mergeKey? 1 = forest.mergeKey? 2 ∧
          ∃ j, forest.mergedInto? 2 = some j ∧ forest.kindOf j = .objcClass := by
  obtain ⟨forest, hforest, hrun⟩ := Outcome.exists_ok_of_map
    (f := fun forest => ((List.range 3).map forest.kindOf, (List.range 3).map forest.mergeKey?))
    (b := ([.objcClass, .swiftStruct, .objcCategory], List.replicate 3 (some (.text "M|Widget"))))
    (o := (build { modules := ["M"] } id [widgetClass, widgetStruct, widgetCategory]).outcome)
    (by decide +kernel)
  have hkept : keptNodes { modules := ["M"] } [widgetClass, widgetStruct, widgetCategory] = [0, 1, 2] := by
    decide +kernel
  simp only [List.range_succ, List.range_zero, List.nil_append, List.cons_append, List.map_cons, List.map_nil,
    List.replicate_succ, List.replicate_zero, Prod.mk.injEq, List.cons.injEq, and_true] at hrun
  obtain ⟨⟨hclass, hstruct, hcategory⟩, hfirst, hsecond, hthird⟩ := hrun
  have hmem : 2 ∈ keptNodes { modules := ["M"] } [widgetClass, widgetStruct, widgetCategory] := by simp [hkept]
  refine ⟨forest, hforest, hmem, hcategory, hsecond.trans hthird.symm,
    (build_joins_class_iff hforest hmem hcategory).2.2 ⟨0, by simp [hkept], hclass, hfirst.trans hthird.symm, ?_⟩⟩
  intro t ht htype _
  refine Nat.pos_of_ne_zero fun heq => ?_
  rw [heq, hclass] at htype
  exact absurd htype (by decide)

/-- **A category may miss its class.**  The structure stands in front of the class, and the category goes to
the structure although a kept class has its key. -/
theorem build_misses_class : ∃ forest,
    (build { modules := ["M"] } id [widgetStruct, widgetClass, widgetCategory]).outcome = .ok forest ∧
      keptNodes { modules := ["M"] } [widgetStruct, widgetClass, widgetCategory] = [0, 1, 2] ∧
        (List.range 3).map forest.kindOf = [.swiftStruct, .objcClass, .objcCategory] ∧
          forest.mergeKey? 1 = forest.mergeKey? 2 ∧
            ¬∃ j, forest.mergedInto? 2 = some j ∧ forest.kindOf j = .objcClass := by
  obtain ⟨forest, hforest, hrun⟩ := Outcome.exists_ok_of_map
    (f := fun forest => ((List.range 3).map forest.kindOf, (List.range 3).map forest.mergeKey?,
      forest.mergedInto? 2, forest.kindOf 0))
    (b := ([.swiftStruct, .objcClass, .objcCategory], List.replicate 3 (some (.text "M|Widget")),
      some 0, .swiftStruct))
    (o := (build { modules := ["M"] } id [widgetStruct, widgetClass, widgetCategory]).outcome)
    (by decide +kernel)
  simp only [Prod.mk.injEq] at hrun
  obtain ⟨hkinds, hkeys, hmerged, hstruct⟩ := hrun
  refine ⟨forest, hforest, by decide +kernel, hkinds, ?_, ?_⟩
  · simp only [List.range_succ, List.range_zero, List.nil_append, List.cons_append, List.map_cons, List.map_nil,
      List.replicate_succ, List.replicate_zero, List.cons.injEq, and_true] at hkeys
    exact hkeys.2.1.trans hkeys.2.2.symm
  · rintro ⟨j, hj, hclass⟩
    obtain rfl : 0 = j := Option.some.inj (hmerged.symm.trans hj)
    rw [hstruct] at hclass
    cases hclass

end Forest
end DocForest
