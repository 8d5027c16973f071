import DocForest.Proofs.Disclosure
import DocForest.Proofs.Families

/-!
# Merging by name runs in no circle

Where identifiers decide which fragments belong together, owners can run in a circle.  Where names decide
they cannot.  The fragments of one type are told by its qualified name, and this name is shorter than that
of anything in the type: a member's name begins with the name of its container, and what a category
extends is no longer than the category's own name.  Going over to another fragment keeps the name, so that
every owner has a shorter one.

## What is here

* `intercalate_concat`, `append_separator_cancel` — joined names, and texts that are cut at their first
  separator.
* `Declaration.length_baseName_le` — the name of an extended type is part of that of the category.
* `Forest.typeName` — the name that tells the fragments of a type within a module, and
  `Documents.typeName_lt_of_owner?`, which makes it the measure of the chain of owners.
* `Forest.build_owners_end` — **merging by name closes no loop.**
-/

set_option autoImplicit false

namespace DocForest

open Relation

/-! ## Texts -/

theorem intercalate_concat (separator : List Char) (front : List (List Char)) (last : List Char) :
    separator.intercalate (front ++ [last]) =
      front.flatMap (fun part => part ++ separator) ++ last := by
  induction front with
  | nil => simp
  | cons part rest ih =>
    have hne : rest ++ [last] ≠ [] := by simp
    obtain ⟨next, more, hmore⟩ := List.exists_cons_of_ne_nil hne
    rw [List.cons_append, hmore, List.intercalate_cons_cons, ← hmore, ih, List.flatMap_cons]
    simp only [List.append_assoc]

/-- What a text has up to its first separator can be dropped. -/
theorem dropWhile_append_separator {α : Type} [DecidableEq α] {separator : α} {front : List α}
    (h : separator ∉ front) (back : List α) :
    (front ++ separator :: back).dropWhile (fun c => decide (c ≠ separator)) = separator :: back := by
  have hfront : ∀ c ∈ front, decide (c ≠ separator) = true := by
    intro c hc
    exact decide_eq_true fun heq => h (heq ▸ hc)
  rw [List.dropWhile_append_of_pos hfront]
  simp

/-- Texts are the same behind their first separators if they are the same altogether. -/
theorem append_separator_cancel {α : Type} [DecidableEq α] {separator : α}
    {front front' back back' : List α} (h : separator ∉ front) (h' : separator ∉ front')
    (heq : front ++ separator :: back = front' ++ separator :: back') : back = back' := by
  have hback := dropWhile_append_separator h back
  rw [heq, dropWhile_append_separator h' back'] at hback
  exact (List.cons.inj hback).2.symm

theorem Text.length_le_of_mem_piecesBy (p : Char → Bool) {s piece : List Char}
    (h : piece ∈ Text.piecesBy p s) : piece.length ≤ s.length := by
  induction s generalizing piece with
  | nil => rw [List.mem_singleton.1 h]
  | cons c rest ih =>
    rw [Text.piecesBy] at h
    split at h
    · rcases List.mem_cons.1 h with rfl | h
      · exact Nat.zero_le _
      · exact Nat.le_succ_of_le (ih h)
    · split at h
      · rw [List.mem_singleton.1 h]
        simp
      · next first others hpieces =>
        rcases List.mem_cons.1 h with rfl | h
        · exact Nat.succ_le_succ (ih (hpieces ▸ List.mem_cons_self))
        · exact Nat.le_succ_of_le (ih (hpieces ▸ List.mem_cons_of_mem _ h))

/-- **The type that a category extends has no longer name than the category.** -/
theorem Declaration.length_baseName_le (decl : Declaration) :
    decl.baseName.toList.length ≤ decl.nameText.toList.length := by
  unfold baseName
  cases hhead : (decl.categoryParts.getD []).head? with
  | none => exact Nat.le_refl _
  | some part =>
    have hmem := List.mem_of_head? hhead
    unfold categoryParts at hmem
    split at hmem
    · obtain ⟨piece, hpiece, rfl⟩ := List.mem_map.1 hmem
      have htrimmed := (List.dropWhile_sublist _).subset (List.mem_reverse.1 hpiece)
      simpa using Text.length_le_of_mem_piecesBy _ (List.mem_reverse.1 htrimmed)
    · exact (List.not_mem_nil hmem).elim

/-! ## Names of types -/

namespace Forest

variable {config : Config} {inflect : String → String} {records : List Record}
  {forest : Forest} {minLevel : AccessLevel} {visible : Layout} {count d i j p : Nat}

/-- The name of the type that a node extends, or its own name. -/
def baseNameOf (forest : Forest) (i : Nat) : String :=
  (forest.decl? i).elim "" (·.baseName)

/-- The qualified name by which the fragments of a type are told within a module. -/
def typeName (forest : Forest) (i : Nat) : String :=
  String.intercalate "." ((forest.namespaceAncestors i).map forest.nameTextOf ++ [forest.baseNameOf i])

/-- Fragments are told by names alone: nothing of Swift has an identifier of its own, and no module has
the separator in its name. -/
structure MergedByName (count : Nat) (forest : Forest) : Prop where
  no_usr : ∀ i < count, ∀ decl, forest.decl? i = some decl → decl.kind.isSwift = true →
    decl.hasUsr = false
  no_separator : ∀ i < count, '|' ∉ (forest.docModuleOf i).givenText.toList

instance (count : Nat) (forest : Forest) : Decidable (MergedByName count forest) :=
  decidable_of_iff
    ((∀ i < count, ∀ decl ∈ forest.decl? i, decl.kind.isSwift = true → decl.hasUsr = false) ∧
      ∀ i < count, '|' ∉ (forest.docModuleOf i).givenText.toList)
    ⟨fun h => ⟨h.1, h.2⟩, fun h => ⟨h.no_usr, h.no_separator⟩⟩

theorem toList_typeName (forest : Forest) (i : Nat) :
    (forest.typeName i).toList =
      (forest.namespaceAncestors i).flatMap (fun j => (forest.nameTextOf j).toList ++ ['.'])
        ++ (forest.baseNameOf i).toList := by
  rw [typeName, String.toList_intercalate, List.map_append, List.map_map, List.map_singleton,
    intercalate_concat, List.flatMap_map]
  rfl

theorem length_baseNameOf_le (forest : Forest) (i : Nat) :
    (forest.baseNameOf i).toList.length ≤ (forest.nameTextOf i).toList.length := by
  unfold baseNameOf nameTextOf nameOf
  cases forest.decl? i with
  | none => exact Nat.zero_le _
  | some decl => exact decl.length_baseName_le

namespace MergedByName

/-- The key of a fragment is made of its module and its qualified name. -/
theorem mergeName_eq (h : MergedByName count forest) (hi : i < count)
    (hsize : i < forest.size) :
    forest.mergeName i =
      .str ((forest.docModuleOf i).givenText ++ "|" ++ forest.typeName i) := by
  obtain ⟨decl, hdecl⟩ := exists_decl? hsize
  have husr := h.no_usr i hi _ hdecl
  have hcondition : ¬(decl.kind.isSwift && decl.hasUsr) = true := by
    rw [Bool.and_eq_true]
    rintro ⟨hswift, husr'⟩
    rw [husr hswift] at husr'
    cases husr'
  simp only [mergeName, typeName, baseNameOf, docModuleOf, hdecl, if_neg hcondition, Option.map_some,
    Option.getD_some, Option.elim_some]

/-- **Fragments of one type have one qualified name.** -/
theorem typeName_eq (h : MergedByName count forest) (hi : i < count) (hj : j < count)
    (hcount : count ≤ forest.size) (hkey : forest.mergeKey? i = forest.mergeKey? j) :
    forest.typeName i = forest.typeName j := by
  rw [mergeKey?, mergeKey?, h.mergeName_eq hi (Nat.lt_of_lt_of_le hi hcount),
    h.mergeName_eq hj (Nat.lt_of_lt_of_le hj hcount)] at hkey
  have htext := congrArg String.toList (Json.Key.text.inj (Option.some.inj hkey))
  simp only [String.toList_append, List.append_assoc] at htext
  exact String.toList_inj.1 (append_separator_cancel (h.no_separator i hi) (h.no_separator j hj) htext)

end MergedByName

/-! ## Owners have shorter names -/

namespace Documents

/-- A member has a longer name than its container. -/
theorem length_typeName_lt (h : Documents minLevel visible count forest)
    (hp : forest.codeParent? d = some p) :
    (forest.typeName p).toList.length < (forest.typeName d).toList.length := by
  have hbase := forest.length_baseNameOf_le p
  rw [toList_typeName, toList_typeName, h.toNested.namespaceAncestors_of_codeParent? hp, namespacePath_eq,
    List.flatMap_append, List.flatMap_singleton]
  simp only [List.length_append, List.length_singleton]
  omega

/-- **An owner has a shorter name than what it owns.** -/
theorem typeName_lt_of_owner? (h : Documents minLevel visible count forest)
    (hfragments : Partitioned visible.reachable forest) (hnames : MergedByName count forest)
    (hj : forest.owner? d = some j) :
    (forest.typeName j).toList.length < (forest.typeName d).toList.length := by
  obtain ⟨p, hp, rfl⟩ := owner?_eq_some.1 hj
  have hlt := h.length_typeName_lt hp
  cases hmerged : forest.mergedInto? p with
  | none => rwa [standing_of_unmerged hmerged]
  | some k =>
    -- the fragment that the container was merged into has the name of the container
    obtain ⟨hfragment, ⟨hk, hkey⟩, -⟩ := hfragments.absorbed hmerged
    rw [standing_of_merged hmerged,
      hnames.typeName_eq (h.lt_count hk.1) (h.lt_count hfragment.1) h.count_le hkey]
    exact hlt

theorem ends_owner_of_names (h : Documents minLevel visible count forest)
    (hfragments : Partitioned visible.reachable forest) (hnames : MergedByName count forest)
    (d : Nat) : Ends forest.owner? d :=
  ends_of_decreasing (fun i => (forest.typeName i).toList.length)
    (fun _ _ => h.typeName_lt_of_owner? hfragments hnames) d

end Documents

/-- **Merging by name closes no loop**: the owners above a kept node that is not merged end at a kept
node outside all containers, so that no such node is above itself, and all of them are documented. -/
theorem build_owners_end (h : (build config inflect records).outcome = .ok forest)
    (hnames : MergedByName records.length forest) :
    ∀ d ∈ keptNodes config records, forest.mergedInto? d = none →
      Ends forest.owner? d ∧
        (∃ e ∈ keptNodes config records, forest.mergedInto? e = none ∧
          Record.containerOf? records e = none ∧ ReflTransGen (Up forest.owner?) d e) ∧
        ¬TransGen (Up forest.owner?) d d ∧ d ∈ forest.walk ∧
        ¬TransGen (Up forest.docsParent?) d d := by
  intro d hd hunmerged
  obtain ⟨loaded, hbuilt⟩ := built_of_build h
  have hdocuments := documents_of_build h
  have hstands : forest.Stands (keptLayout config records) d := ⟨hd, hunmerged⟩
  have hends := hdocuments.ends_owner_of_names hbuilt.partitioned hnames d
  obtain ⟨e, he, hnone⟩ := hends.exists_last
  have hlast := hdocuments.consolidated.stands_of_above hstands he
  refine ⟨hends, ⟨e, hlast.reachable, hlast.unmerged, ?_, he⟩, hends.no_loop,
    hdocuments.mem_walk.2 (.inl ⟨hstands, hends⟩), (hdocuments.ends_docsParent d).no_loop⟩
  rw [← codeParent?_of_build h]
  exact owner?_eq_none.1 hnone

/-- A function in a structure in an extension, all told by their names. -/
def nestedRecords : List Record :=
  [swiftRecord "e" "extension" "A" "" .null,
   swiftRecord "b" "struct" "B" "" (.str "e"),
   swiftRecord "f" "function.method.instance" "f()" "" (.str "b"),
   swiftRecord "a" "struct" "A" "" .null]

/-- The owners of the function are the inner structure and the outer one, which is outside all
containers. -/
theorem build_owners_end_nested : ∃ forest,
    (build { modules := ["M"] } id nestedRecords).outcome = .ok forest ∧
      MergedByName 4 forest ∧ forest.owner? 2 = some 1 ∧ forest.owner? 1 = some 3 ∧
        2 ∈ keptNodes { modules := ["M"] } nestedRecords ∧ Ends forest.owner? 2 ∧
          ¬TransGen (Up forest.owner?) 2 2 := by
  obtain ⟨forest, hforest, hrun⟩ := Outcome.exists_ok_of_map
    (f := fun forest => (decide (MergedByName 4 forest), forest.owner? 2, forest.owner? 1,
      forest.mergedInto? 2))
    (b := (true, some 1, some 3, none))
    (o := (build { modules := ["M"] } id nestedRecords).outcome) (by decide +kernel)
  simp only [Prod.mk.injEq, decide_eq_true_eq] at hrun
  obtain ⟨hnames, hinner, houter, hunmerged⟩ := hrun
  have hkept : 2 ∈ keptNodes { modules := ["M"] } nestedRecords := by decide +kernel
  obtain ⟨hends, -, hloop, -⟩ := build_owners_end hforest hnames 2 hkept hunmerged
  exact ⟨forest, hforest, hnames, hinner, houter, hkept, hends, hloop⟩

end Forest
end DocForest
