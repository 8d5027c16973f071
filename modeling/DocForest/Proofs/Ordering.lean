import DocForest.Proofs.Hinting
import Mathlib.Data.List.Induction

/-!
# What ordering by hints gives

Marks divide siblings into runs, and each run is sorted by itself.  A run may be empty, and may reach to the
beginning or the end of the list; what is sorted is a run together with what has been collected in front of it.
The order of a run is described without any sorting: **whatever has a hint comes first, in the order of the
hints, and what has equal hints or none keeps its order.**

## What is here

* `RankedBy` — a run in the order of its hints; `rankedBy_byHint`, `byHint_byHint`.
* `IsRun` — a run between marks, with what is in front of it and behind it.
* `Orders` — siblings of which every run is in order, where the marks have stayed.
* `orderedSections_run`, `getElem?_orderedSections` — the runs and the marks of the result.
* `orders_ordered` — **ordering by hints does this, with or without hints, and once is enough.**
-/

set_option autoImplicit false

namespace DocForest

variable {α : Type} {isMark : α → Bool} {hint : α → Option Int} {items pending front run back : List α}
  {x m : α} {k : Nat}

/-! ## One run -/

/-- `ranked` is `run` in the order of the hints: what has a hint comes first, by ascending hints, and what
has the same hint, or none, keeps its order. -/
structure RankedBy (hint : α → Option Int) (run ranked : List α) : Prop where
  perm : ranked.Perm run
  hinted_first : ranked.Pairwise fun a b => (hint b).isSome → (hint a).isSome
  ascending : ranked.Pairwise fun a b => ∀ n l, hint a = some n → hint b = some l → n ≤ l
  stable : ∀ value, (ranked.filter fun a => hint a = value) = run.filter fun a => hint a = value

theorem pairwise_stableSort_hints (items : List α) :
    (stableSort (fun a b => decide ((hint a).getD 0 ≤ (hint b).getD 0)) items).Pairwise
      fun a b => decide ((hint a).getD 0 ≤ (hint b).getD 0) = true := by
  refine pairwise_stableSort items (fun a b c hab hbc => ?_) fun a b => ?_
  · exact decide_eq_true (Int.le_trans (of_decide_eq_true hab) (of_decide_eq_true hbc))
  · simpa using Int.le_total _ _

theorem isSome_of_mem_hinted {le : α → α → Bool}
    (h : x ∈ stableSort le (items.filter fun a => (hint a).isSome)) : (hint x).isSome = true :=
  (List.mem_filter.1 ((mem_stableSort le).1 h)).2

theorem eq_none_of_mem_unhinted (h : x ∈ items.filter fun a => (hint a).isNone) : hint x = none :=
  Option.isNone_iff_eq_none.1 (List.mem_filter.1 h).2

theorem keyLe_trans {a b c : Bool × Int} (hab : keyLe a b = true) (hbc : keyLe b c = true) :
    keyLe a c = true := by
  simp only [keyLe, Bool.or_eq_true, Bool.and_eq_true, Bool.not_eq_true', beq_iff_eq, decide_eq_true_eq] at *
  grind

theorem keyLe_total (a b : Bool × Int) : (keyLe a b || keyLe b a) = true := by
  simp only [keyLe, Bool.or_eq_true, Bool.and_eq_true, Bool.not_eq_true', beq_iff_eq, decide_eq_true_eq]
  grind

theorem byHint_byHint (hint : α → Option Int) (items : List α) :
    byHint hint (byHint hint items) = byHint hint items :=
  stableSort_eq_self (pairwise_stableSort items (fun _ _ _ => keyLe_trans) fun _ _ => keyLe_total _ _)

/-- **A run that is ordered by hints is in their order.** -/
theorem rankedBy_byHint (hint : α → Option Int) (run : List α) : RankedBy hint run (byHint hint run) where
  perm := byHint_perm hint run
  hinted_first := by
    rw [byHint_eq_append, List.pairwise_append]
    refine ⟨List.pairwise_of_forall_mem_list fun a ha b _ _ => isSome_of_mem_hinted ha,
      List.pairwise_of_forall_mem_list fun a _ b hb hsome => ?_, fun a ha b _ _ => isSome_of_mem_hinted ha⟩
    rw [eq_none_of_mem_unhinted hb] at hsome
    cases hsome
  ascending := by
    rw [byHint_eq_append, List.pairwise_append]
    refine ⟨(pairwise_stableSort_hints _).imp fun {a b} hle n l hn hl => ?_,
      List.pairwise_of_forall_mem_list fun a _ b hb n l _ hl => ?_, fun a _ b hb n l _ hl => ?_⟩
    · have hle := of_decide_eq_true hle
      rwa [hn, hl] at hle
    · exact absurd (hl.symm.trans (eq_none_of_mem_unhinted hb)) (Option.some_ne_none l)
    · exact absurd (hl.symm.trans (eq_none_of_mem_unhinted hb)) (Option.some_ne_none l)
  stable value := by
    refine filter_stableSort run fun a b ha hb => ?_
    rw [of_decide_eq_true ha, of_decide_eq_true hb]
    cases value <;> simp [keyLe]

/-! ## All runs -/

/-- `run` is a run without marks between `front` and `back`, which reaches as far as it can. -/
structure IsRun (isMark : α → Bool) (front run back : List α) : Prop where
  no_mark : ∀ a ∈ run, isMark a = false
  front_mark : ∀ m ∈ front.getLast?, isMark m = true
  back_mark : ∀ m ∈ back.head?, isMark m = true

/-- `result` has the marks of `items` where they are, and every run of `items`, also where it is, in the
order of the hints. -/
structure Orders (isMark : α → Bool) (hint : α → Option Int) (items result : List α) : Prop where
  perm : result.Perm items
  mark : ∀ (k : Nat) (m : α), isMark m = true → (result[k]? = some m ↔ items[k]? = some m)
  run : ∀ front run back, items = front ++ (run ++ back) → IsRun isMark front run back →
    RankedBy hint run ((result.drop front.length).take run.length)

theorem orderedSections_of_no_mark (h : ∀ a ∈ items, isMark a = false) :
    orderedSections isMark hint pending items = byHint hint (pending ++ items) := by
  induction items generalizing pending with
  | nil => rw [orderedSections, List.append_nil]
  | cons a rest ih =>
    obtain ⟨ha, hrest⟩ := List.forall_mem_cons.1 h
    rw [orderedSections, ha, if_neg Bool.false_ne_true, ih hrest, List.append_assoc]
    rfl

theorem orderedSections_run_append (hint : α → Option Int) (hrun : ∀ a ∈ run, isMark a = false)
    (hback : ∀ m ∈ back.head?, isMark m = true) :
    ∃ behind, orderedSections isMark hint [] (run ++ back) = byHint hint run ++ behind := by
  cases back with
  | nil =>
    refine ⟨[], ?_⟩
    rw [List.append_nil, List.append_nil, orderedSections_of_no_mark hrun, List.nil_append]
  | cons m back =>
    refine ⟨m :: orderedSections isMark hint [] back, ?_⟩
    rw [orderedSections_append_mark (hback m rfl), orderedSections_of_no_mark hrun, List.nil_append]

/-- **Every run is ordered by itself, where it is.** -/
theorem orderedSections_run (hint : α → Option Int) (h : IsRun isMark front run back) :
    ∃ ahead behind, orderedSections isMark hint [] (front ++ (run ++ back)) =
      ahead ++ (byHint hint run ++ behind) ∧ ahead.length = front.length := by
  obtain ⟨behind, hbehind⟩ := orderedSections_run_append hint h.no_mark h.back_mark
  cases front using List.reverseRecOn with
  | nil => exact ⟨[], behind, hbehind, rfl⟩
  | append_singleton front m =>
    refine ⟨orderedSections isMark hint [] front ++ [m], behind, ?_, ?_⟩
    · rw [List.append_assoc, List.singleton_append, orderedSections_append_mark (h.front_mark m (by simp)),
        hbehind, List.append_assoc, List.singleton_append]
    · simpa using (orderedSections_perm isMark hint [] front).length_eq

/-- **Every mark stays where it is.** -/
theorem getElem?_orderedSections (hpending : ∀ a ∈ pending, isMark a = false) (hm : isMark m = true) :
    (orderedSections isMark hint pending items)[k]? = some m ↔ (pending ++ items)[k]? = some m := by
  have hnot : ∀ {run : List α} {k : Nat}, (∀ a ∈ run, isMark a = false) → run[k]? ≠ some m :=
    fun hrun h => Bool.false_ne_true ((hrun m (List.mem_of_getElem? h)).symm.trans hm)
  have hordered : ∀ a ∈ byHint hint pending, isMark a = false := fun a ha =>
    hpending a ((byHint_perm hint pending).mem_iff.1 ha)
  have hlength := (byHint_perm hint pending).length_eq
  induction items generalizing pending k with
  | nil =>
    rw [orderedSections, List.append_nil]
    exact iff_of_false (hnot hordered) (hnot hpending)
  | cons a rest ih =>
    rw [orderedSections]
    split
    · -- in front of the mark nothing is one, and behind it the list goes on without anything pending
      by_cases hk : k < pending.length
      · rw [List.getElem?_append_left (hlength.symm ▸ hk), List.getElem?_append_left hk]
        exact iff_of_false (hnot hordered) (hnot hpending)
      · rw [List.getElem?_append_right (by omega), List.getElem?_append_right (by omega), hlength]
        cases k - pending.length with
        | zero => rfl
        | succ k =>
          rw [List.getElem?_cons_succ, List.getElem?_cons_succ]
          exact ih (List.forall_mem_nil _) (List.forall_mem_nil _) rfl
    · next ha =>
      have hmore : ∀ b ∈ pending ++ [a], isMark b = false :=
        List.forall_mem_append.2 ⟨hpending, List.forall_mem_singleton.2 (Bool.eq_false_iff.2 ha)⟩
      have hnext := ih (k := k) hmore (fun b hb => hmore b ((byHint_perm hint _).mem_iff.1 hb))
        (byHint_perm hint _).length_eq
      rwa [List.append_assoc, List.singleton_append] at hnext

theorem orders_orderedSections (isMark : α → Bool) (hint : α → Option Int) (items : List α) :
    Orders isMark hint items (orderedSections isMark hint [] items) where
  perm := by simpa using orderedSections_perm isMark hint [] items
  mark k m hm := by
    rw [getElem?_orderedSections (List.forall_mem_nil _) hm, List.nil_append]
  run front run back heq hrun := by
    obtain ⟨ahead, behind, hordered, hahead⟩ := orderedSections_run hint hrun
    rw [heq, hordered, ← hahead, List.drop_left, ← (byHint_perm hint run).length_eq, List.take_left]
    exact rankedBy_byHint hint run

/-- Without hints nothing moves. -/
theorem orderedSections_of_no_hint (h : ∀ a ∈ pending ++ items, hint a = none) :
    orderedSections isMark hint pending items = pending ++ items := by
  have hsame : ∀ {run : List α}, (∀ a ∈ run, hint a = none) → byHint hint run = run := fun {run} hrun => by
    have hhinted : (run.filter fun a => (hint a).isSome) = [] :=
      List.filter_eq_nil_iff.2 fun a ha => by simp [hrun a ha]
    rw [byHint_eq_append, hhinted, List.filter_eq_self.2 fun a ha => by simp [hrun a ha]]
    rfl
  induction items generalizing pending with
  | nil =>
    rw [List.append_nil] at h ⊢
    exact hsame h
  | cons a rest ih =>
    have hpending := (List.forall_mem_append.1 h).1
    rw [orderedSections]
    split
    · rw [hsame hpending, ih fun b hb => h b (by simp_all)]
      rfl
    · rw [ih (by simpa using h), List.append_assoc, List.singleton_append]

theorem ordered_eq_orderedSections (isMark : α → Bool) (hint : α → Option Int) (items : List α) :
    ordered isMark hint items = orderedSections isMark hint [] items := by
  rw [ordered]
  split
  · rfl
  · next h =>
    have hnone : ∀ a ∈ [] ++ items, hint a = none := fun a ha => by
      simpa using fun hsome => h (List.any_eq_true.2 ⟨a, ha, hsome⟩)
    rw [orderedSections_of_no_hint hnone, List.nil_append]

/-- Ordering once is enough. -/
theorem orderedSections_orderedSections (hpending : ∀ a ∈ pending, isMark a = false) :
    orderedSections isMark hint [] (orderedSections isMark hint pending items) =
      orderedSections isMark hint pending items := by
  have hordered : ∀ {run : List α}, (∀ a ∈ run, isMark a = false) →
      orderedSections isMark hint [] (byHint hint run) = byHint hint run := fun {run} hrun => by
    rw [orderedSections_of_no_mark fun a ha => hrun a ((byHint_perm hint run).mem_iff.1 ha),
      List.nil_append, byHint_byHint]
  induction items generalizing pending with
  | nil => exact hordered hpending
  | cons a rest ih =>
    rw [orderedSections]
    split
    · next ha => rw [orderedSections_append_mark ha, hordered hpending, ih (List.forall_mem_nil _)]
    · next ha =>
      exact ih (List.forall_mem_append.2
        ⟨hpending, List.forall_mem_singleton.2 (Bool.eq_false_iff.2 ha)⟩)

/-- **Siblings are put in the order of their hints, run by run**, and nothing else happens to them: a list
without hints is not treated differently, and a list in order stays as it is. -/
theorem orders_ordered (isMark : α → Bool) (hint : α → Option Int) (items : List α) :
    Orders isMark hint items (ordered isMark hint items) ∧
      ordered isMark hint items = orderedSections isMark hint [] items ∧
      ordered isMark hint (ordered isMark hint items) = ordered isMark hint items := by
  rw [ordered_eq_orderedSections, ordered_eq_orderedSections]
  exact ⟨orders_orderedSections isMark hint items, rfl,
    orderedSections_orderedSections (List.forall_mem_nil _)⟩

/-- A hint of 0 or less counts; the mark between the runs stays where it is. -/
example : ordered (fun i => i == 2) (fun i => [none, some 3, none, none, some (-1), some 0][i]?.join)
    [0, 1, 2, 3, 4, 5] = [1, 0, 2, 4, 5, 3] := by decide

end DocForest
