import DocForest.Build.Fragments
import Mathlib.Data.List.Forall2
import Mathlib.Data.List.Nodup

/-!
# Lists in groups

## What is here

* `flatMap_filterMap`, `nodup_eraseDups` — two facts about lists; `exists_of_forall₂`, `forall₂_trans`,
  `forall₂_filterMap` — some about lists that correspond to each other.
* `mem_parts`, `nodup_parts`, `perm_parts` — the elements of a list, sorted into parts by keys:
  **every element whose key is asked for stands in exactly one part**.
* `gatherBy_eq` — the groups of `gatherBy` are such parts; `map_heads_gatherBy`, the keys of their
  first elements.
-/

set_option autoImplicit false

namespace DocForest

variable {α κ : Type}

theorem flatMap_filterMap {β γ : Type} (items : List α) (f : α → Option β) (g : β → List γ) :
    (items.filterMap f).flatMap g = items.flatMap fun a => (f a).elim [] g := by
  induction items with
  | nil => rfl
  | cons a rest ih => cases h : f a <;> simp [h, ih]

theorem exists_of_forall₂ {β : Type} {R : α → β → Prop} {items : List α} {others : List β} {a : α}
    (h : List.Forall₂ R items others) (ha : a ∈ items) : ∃ b ∈ others, R a b := by
  induction h with
  | nil => exact (List.not_mem_nil ha).elim
  | cons hab _ ih =>
    rcases List.mem_cons.1 ha with rfl | ha
    · exact ⟨_, List.mem_cons_self, hab⟩
    · obtain ⟨b, hb, hrel⟩ := ih ha
      exact ⟨b, List.mem_cons_of_mem _ hb, hrel⟩

theorem forall₂_trans {β γ : Type} {R : α → β → Prop} {S : β → γ → Prop} {T : α → γ → Prop}
    {items : List α} {others : List β} {last : List γ} (h : List.Forall₂ R items others)
    (h' : List.Forall₂ S others last) (hrel : ∀ a b c, R a b → S b c → T a c) :
    List.Forall₂ T items last := by
  induction h generalizing last with
  | nil =>
    cases h'
    exact .nil
  | cons hab _ ih =>
    cases h' with
    | cons hbc hrest => exact .cons (hrel _ _ _ hab hbc) (ih hrest)

theorem forall₂_filterMap {β : Type} {R : β → α → Prop} {items : List α} {f : α → Option β}
    (h : ∀ a ∈ items, ∃ b, f a = some b ∧ R b a) : List.Forall₂ R (items.filterMap f) items := by
  induction items with
  | nil => exact .nil
  | cons a rest ih =>
    rw [List.forall_mem_cons] at h
    obtain ⟨b, hb, hrel⟩ := h.1
    rw [List.filterMap_cons_some hb]
    exact .cons hrel (ih h.2)

variable [BEq κ] [LawfulBEq κ]

theorem nodup_eraseDups (items : List κ) : items.eraseDups.Nodup := by
  match items with
  | [] => exact List.nodup_nil
  | a :: rest =>
    rw [List.eraseDups_cons, List.nodup_cons, List.mem_eraseDups]
    exact ⟨by simp, nodup_eraseDups _⟩
termination_by items.length
decreasing_by exact Nat.lt_succ_of_le (List.length_filter_le _ _)

variable {key : α → κ} {keys : List κ} {items : List α} {a : α}

/-- The elements in the parts are those whose keys are asked for. -/
theorem mem_parts :
    a ∈ (keys.flatMap fun k => items.filter fun a => key a == k) ↔ a ∈ items ∧ key a ∈ keys := by
  simp only [List.mem_flatMap, List.mem_filter, beq_iff_eq]
  exact ⟨fun ⟨_, hk, ha, heq⟩ => ⟨ha, heq ▸ hk⟩, fun ⟨ha, hk⟩ => ⟨_, hk, ha, rfl⟩⟩

/-- Different parts have no element in common. -/
theorem nodup_parts (hkeys : keys.Nodup) (hitems : items.Nodup) :
    (keys.flatMap fun k => items.filter fun a => key a == k).Nodup := by
  refine List.nodup_flatMap.2 ⟨fun k _ => hitems.filter _, hkeys.imp fun {k k'} hne => ?_⟩
  intro a ha ha'
  have hk := eq_of_beq (List.mem_filter.1 ha).2
  have hk' := eq_of_beq (List.mem_filter.1 ha').2
  exact hne (hk.symm.trans hk')

/-- **The parts are a rearrangement of the elements whose keys are asked for.** -/
theorem perm_parts (hkeys : keys.Nodup) (hitems : items.Nodup) :
    (keys.flatMap fun k => items.filter fun a => key a == k).Perm
      (items.filter fun a => keys.contains (key a)) := by
  refine (List.perm_ext_iff_of_nodup (nodup_parts hkeys hitems) (hitems.filter _)).2 fun a => ?_
  rw [mem_parts, List.mem_filter, List.contains_iff_mem]

omit [LawfulBEq κ] in
/-- The groups are parts, one for each key in the order in which the keys first occur. -/
theorem gatherBy_eq (key : α → κ) (items : List α) :
    gatherBy key items = (items.map key).eraseDups.map fun k =>
      (k, items.filter fun a => key a == k) := by
  simp [gatherBy, List.filter_map, Function.comp_def]

theorem map_heads_gatherBy (key : α → κ) (items : List α) :
    ((gatherBy key items).filterMap fun group => group.2.head?).map key =
      (items.map key).eraseDups := by
  rw [gatherBy_eq, List.filterMap_map, List.map_filterMap]
  refine Eq.trans (List.filterMap_congr fun k hk => ?_) (List.filterMap_some)
  obtain ⟨a, ha, rfl⟩ := List.mem_map.1 (List.mem_eraseDups.1 hk)
  simp only [Function.comp_def, List.head?_filter]
  cases hfind : items.find? fun b => key b == key a with
  | none => exact absurd (beq_self_eq_true _) (List.find?_eq_none.1 hfind a ha)
  | some b =>
    have hkey := List.find?_some hfind
    exact congrArg some (eq_of_beq hkey)

end DocForest
