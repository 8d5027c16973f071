import DocForest.Layout.Prune

/-!
# Marks without a section

Siblings are divided into sections by the marks among them.  When some of the siblings go away, a mark goes
with them if nothing is left in its section.  Marks are dropped in one pass from the end; the rule itself
looks at the section of every mark, **and what the pass leaves is what the rule says.**

## What is here

* `sectionOf` — the section of a mark, of the siblings behind it.
* `Thinned` — the rule, as a relation between the siblings that are given and those that are left;
  `Thinned.noEmptySection`, no mark that is left heads an empty section, and `Thinned.trans`, thinning
  twice is thinning once.
* `thinned_dropEmptySections` — dropping marks follows the rule.
-/

set_option autoImplicit false

namespace DocForest

variable {isMark keep : Nat → Bool} {survives wider : Nat → Prop} {given left last : List Nat} {i : Nat}

/-! ## The rule -/

/-- The section of a mark: of the siblings behind it, those in front of the next mark. -/
def sectionOf (isMark : Nat → Bool) (behind : List Nat) : List Nat :=
  behind.takeWhile fun i => !isMark i

/-- What is left of siblings when whatever is no mark stays if it survives, and a mark stays if something
of its section does. -/
inductive Thinned (isMark : Nat → Bool) (survives : Nat → Prop) : List Nat → List Nat → Prop
  | nil : Thinned isMark survives [] []
  | keep {i : Nat} {rest left : List Nat} (hi : isMark i = false) (hsurvives : survives i)
      (h : Thinned isMark survives rest left) : Thinned isMark survives (i :: rest) (i :: left)
  | drop {i : Nat} {rest left : List Nat} (hi : isMark i = false) (hsurvives : ¬survives i)
      (h : Thinned isMark survives rest left) : Thinned isMark survives (i :: rest) left
  | keepMark {m : Nat} {rest left : List Nat} (hm : isMark m = true)
      (hsection : ∃ i ∈ sectionOf isMark rest, survives i)
      (h : Thinned isMark survives rest left) : Thinned isMark survives (m :: rest) (m :: left)
  | dropMark {m : Nat} {rest left : List Nat} (hm : isMark m = true)
      (hsection : ∀ i ∈ sectionOf isMark rest, ¬survives i)
      (h : Thinned isMark survives rest left) : Thinned isMark survives (m :: rest) left

/-- Behind every mark there is something else before the next mark. -/
def NoEmptySection (isMark : Nat → Bool) (siblings : List Nat) : Prop :=
  ∀ front m behind, siblings = front ++ m :: behind → isMark m = true → sectionOf isMark behind ≠ []

theorem sectionOf_cons (i : Nat) (rest : List Nat) :
    sectionOf isMark (i :: rest) = if isMark i then [] else i :: sectionOf isMark rest := by
  rw [sectionOf, List.takeWhile_cons]
  cases isMark i <;> rfl

theorem not_isMark_of_mem_sectionOf (h : i ∈ sectionOf isMark given) : isMark i = false := by
  induction given with
  | nil => exact (List.not_mem_nil h).elim
  | cons j rest ih =>
    rw [sectionOf_cons] at h
    split at h
    · exact (List.not_mem_nil h).elim
    · next hj =>
      rcases List.mem_cons.1 h with rfl | h
      · exact Bool.eq_false_iff.2 hj
      · exact ih h

namespace Thinned

theorem sublist (h : Thinned isMark survives given left) : left.Sublist given := by
  induction h with
  | nil => exact List.Sublist.refl _
  | keep _ _ _ ih => exact ih.cons_cons _
  | drop _ _ _ ih => exact ih.cons _
  | keepMark _ _ _ ih => exact ih.cons_cons _
  | dropMark _ _ _ ih => exact ih.cons _

theorem mem_sectionOf (h : Thinned isMark survives given left) (hi : i ∈ sectionOf isMark given)
    (hsurvives : survives i) : i ∈ sectionOf isMark left := by
  induction h with
  | nil => exact hi
  | keep hj _ _ ih =>
    rw [sectionOf_cons, hj, if_neg Bool.false_ne_true] at hi ⊢
    rcases List.mem_cons.1 hi with rfl | hi
    · exact List.mem_cons_self
    · exact List.mem_cons_of_mem _ (ih hi)
  | drop hj hgone _ ih =>
    rw [sectionOf_cons, hj, if_neg Bool.false_ne_true] at hi
    rcases List.mem_cons.1 hi with rfl | hi
    · exact absurd hsurvives hgone
    · exact ih hi
  | keepMark hm | dropMark hm =>
    rw [sectionOf_cons, hm, if_pos rfl] at hi
    exact (List.not_mem_nil hi).elim

/-- **No mark that is left heads an empty section.** -/
theorem noEmptySection (h : Thinned isMark survives given left) : NoEmptySection isMark left := by
  intro front m behind heq hmark
  induction h generalizing front with
  | nil => exact (List.append_ne_nil_of_right_ne_nil front (List.cons_ne_nil m behind) heq.symm).elim
  | drop _ _ _ ih | dropMark _ _ _ ih => exact ih front heq
  | keep hj _ _ ih =>
    cases front with
    | nil =>
      obtain ⟨rfl, -⟩ := List.cons.inj heq
      exact absurd (hj.symm.trans hmark) Bool.false_ne_true
    | cons _ front => exact ih front (List.cons.inj heq).2
  | keepMark _ hsection hrest ih =>
    cases front with
    | nil =>
      obtain ⟨-, rfl⟩ := List.cons.inj heq
      obtain ⟨i, hi, hsurvives⟩ := hsection
      exact List.ne_nil_of_mem (hrest.mem_sectionOf hi hsurvives)
    | cons _ front => exact ih front (List.cons.inj heq).2

theorem survives_of_mem (h : Thinned isMark survives given left) (hi : i ∈ left)
    (hmark : isMark i = false) : survives i := by
  induction h with
  | nil => exact (List.not_mem_nil hi).elim
  | keep _ hsurvives _ ih =>
    rcases List.mem_cons.1 hi with rfl | hi
    · exact hsurvives
    · exact ih hi
  | drop _ _ _ ih | dropMark _ _ _ ih => exact ih hi
  | keepMark hm _ _ ih =>
    rcases List.mem_cons.1 hi with rfl | hi
    · exact absurd (hmark.symm.trans hm) Bool.false_ne_true
    · exact ih hi

/-- What is left in front of the first mark has been there before: the mark of its own section is left with it. -/
theorem mem_of_mem_sectionOf (h : Thinned isMark survives given left) (hi : i ∈ sectionOf isMark left) :
    i ∈ sectionOf isMark given := by
  induction h with
  | nil => exact hi
  | keep hj _ _ ih =>
    rw [sectionOf_cons, hj, if_neg Bool.false_ne_true] at hi ⊢
    exact List.mem_cons.2 ((List.mem_cons.1 hi).imp_right ih)
  | drop hj _ _ ih =>
    rw [sectionOf_cons, hj, if_neg Bool.false_ne_true]
    exact List.mem_cons_of_mem _ (ih hi)
  | keepMark hm =>
    rw [sectionOf_cons, hm, if_pos rfl] at hi
    exact (List.not_mem_nil hi).elim
  | dropMark _ hsection hrest ih =>
    have hleft := (List.takeWhile_sublist _).subset hi
    exact absurd (hrest.survives_of_mem hleft (not_isMark_of_mem_sectionOf hi)) (hsection i (ih hi))

theorem unique (h : Thinned isMark survives given left) (h' : Thinned isMark survives given last) :
    left = last := by
  induction h generalizing last with
  | nil =>
    cases h'
    rfl
  | keep hi hs _ ih =>
    cases h' with
    | keep _ _ h' => rw [ih h']
    | drop _ hgone => exact absurd hs hgone
    | keepMark hm | dropMark hm => exact absurd (hi.symm.trans hm) Bool.false_ne_true
  | drop hi hgone _ ih =>
    cases h' with
    | keep _ hs => exact absurd hs hgone
    | drop _ _ h' => exact ih h'
    | keepMark hm | dropMark hm => exact absurd (hi.symm.trans hm) Bool.false_ne_true
  | keepMark hm hsection _ ih =>
    cases h' with
    | keep hi | drop hi => exact absurd (hi.symm.trans hm) Bool.false_ne_true
    | keepMark _ _ h' => rw [ih h']
    | dropMark _ hnone =>
      obtain ⟨i, hi, hs⟩ := hsection
      exact absurd hs (hnone i hi)
  | dropMark hm hnone _ ih =>
    cases h' with
    | keep hi | drop hi => exact absurd (hi.symm.trans hm) Bool.false_ne_true
    | keepMark _ hsection =>
      obtain ⟨i, hi, hs⟩ := hsection
      exact absurd hs (hnone i hi)
    | dropMark _ _ h' => exact ih h'

/-- **What is left of what is left** is what would have been left at once, if fewer survive the second time. -/
theorem trans (h : Thinned isMark wider given left) (hlast : Thinned isMark survives left last)
    (hwider : ∀ i ∈ given, survives i → wider i) : Thinned isMark survives given last := by
  induction h generalizing last with
  | nil => exact hlast
  | keep hi _ _ ih =>
    rw [List.forall_mem_cons] at hwider
    cases hlast with
    | keep _ hs hlast => exact .keep hi hs (ih hlast hwider.2)
    | drop _ hgone hlast => exact .drop hi hgone (ih hlast hwider.2)
    | keepMark hm | dropMark hm => exact absurd (hi.symm.trans hm) Bool.false_ne_true
  | drop hi hgone _ ih =>
    rw [List.forall_mem_cons] at hwider
    exact .drop hi (fun hs => hgone (hwider.1 hs)) (ih hlast hwider.2)
  | keepMark hm _ hrest ih =>
    rw [List.forall_mem_cons] at hwider
    cases hlast with
    | keep hi | drop hi => exact absurd (hi.symm.trans hm) Bool.false_ne_true
    | keepMark _ hsection hlast =>
      obtain ⟨i, hi, hs⟩ := hsection
      exact .keepMark hm ⟨i, hrest.mem_of_mem_sectionOf hi, hs⟩ (ih hlast hwider.2)
    | dropMark _ hnone hlast =>
      refine .dropMark hm (fun i hi hs => ?_) (ih hlast hwider.2)
      have hgiven := (List.takeWhile_sublist _).subset hi
      exact hnone i (hrest.mem_sectionOf hi (hwider.2 i hgiven hs)) hs
  | dropMark hm hnone _ ih =>
    rw [List.forall_mem_cons] at hwider
    refine .dropMark hm (fun i hi hs => hnone i hi ?_) (ih hlast hwider.2)
    exact hwider.2 i ((List.takeWhile_sublist _).subset hi) hs

end Thinned

theorem NoEmptySection.exists_not_isMark (h : NoEmptySection isMark given) (hne : given ≠ []) :
    ∃ i ∈ given, isMark i = false := by
  obtain ⟨i, rest, rfl⟩ := List.exists_cons_of_ne_nil hne
  cases hi : isMark i with
  | false => exact ⟨i, List.mem_cons_self, hi⟩
  | true =>
    obtain ⟨j, hj⟩ := List.exists_mem_of_ne_nil _ (h [] i rest rfl hi)
    refine ⟨j, List.mem_cons_of_mem _ ?_, not_isMark_of_mem_sectionOf hj⟩
    exact (List.takeWhile_sublist _).subset hj

/-! ## The pass -/

/-- Read from the end, the section that is being read has content if one of its members survives. -/
theorem hasContent_dropEmptySectionsFrom (hmarks : ∀ m ∈ given, isMark m = true → keep m = true)
    (hkeep : ∀ i ∈ given, isMark i = false → (keep i = true ↔ survives i)) :
    (dropEmptySectionsFrom isMark (given.filter keep)).2 = true ↔
      ∃ i ∈ sectionOf isMark given, survives i := by
  induction given with
  | nil => simp [dropEmptySectionsFrom, sectionOf]
  | cons i rest ih =>
    rw [List.forall_mem_cons] at hmarks hkeep
    rw [sectionOf_cons]
    cases hi : isMark i with
    | true => simp [hmarks.1 hi, dropEmptySectionsFrom, hi]
    | false =>
      cases hki : keep i with
      | true => simp [hki, dropEmptySectionsFrom, hi, (hkeep.1 hi).1 hki]
      | false =>
        have hgone : ¬survives i := fun hs => Bool.false_ne_true (hki.symm.trans ((hkeep.1 hi).2 hs))
        simp [hki, hgone, ih hmarks.2 hkeep.2]

/-- **Dropping marks follows the rule**, if the marks have all been kept so far. -/
theorem thinned_dropEmptySections (hmarks : ∀ m ∈ given, isMark m = true → keep m = true)
    (hkeep : ∀ i ∈ given, isMark i = false → (keep i = true ↔ survives i)) :
    Thinned isMark survives given (dropEmptySections isMark (given.filter keep)) := by
  rw [dropEmptySections]
  induction given with
  | nil => exact .nil
  | cons i rest ih =>
    rw [List.forall_mem_cons] at hmarks hkeep
    have hrest := ih hmarks.2 hkeep.2
    cases hi : isMark i with
    | true =>
      -- the pass comes to the mark behind its section, and knows what is left of that
      have hcontent := hasContent_dropEmptySectionsFrom hmarks.2 hkeep.2
      rw [List.filter_cons_of_pos (hmarks.1 hi)]
      simp only [dropEmptySectionsFrom, hi, if_true]
      split
      · next h => exact .keepMark hi (hcontent.1 h) hrest
      · next h => exact .dropMark hi (fun j hj hs => h (hcontent.2 ⟨j, hj, hs⟩)) hrest
    | false =>
      cases hki : keep i with
      | true =>
        rw [List.filter_cons_of_pos hki]
        simp only [dropEmptySectionsFrom, hi, Bool.false_eq_true, if_false]
        exact .keep hi ((hkeep.1 hi).1 hki) hrest
      | false =>
        rw [List.filter_cons_of_neg (by simp [hki])]
        exact .drop hi (fun hs => Bool.false_ne_true (hki.symm.trans ((hkeep.1 hi).2 hs))) hrest

theorem noEmptySection_dropEmptySections (isMark : Nat → Bool) (siblings : List Nat) :
    NoEmptySection isMark (dropEmptySections isMark siblings) := by
  have hthinned : Thinned isMark (fun _ => True) siblings
      (dropEmptySections isMark (siblings.filter fun _ => true)) :=
    thinned_dropEmptySections (fun _ _ _ => rfl) fun _ _ _ => iff_of_true rfl trivial
  rw [List.filter_eq_self.2 fun _ _ => rfl] at hthinned
  exact hthinned.noEmptySection

end DocForest
