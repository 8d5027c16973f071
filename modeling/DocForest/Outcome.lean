import DocForest.Failure

/-!
# Outcomes

An outcome is a result or a failure.  The statements here say when a sequence of steps has a
result, so that what a function promises can be read off the checks that it runs.

## What is here

* `ok_bind`, `bind_eq_ok`, `pure_eq_ok`, `throw_ne_ok` — sequencing, results and failures.
* `check_eq_ok`, `exists_check` — a failure that is thrown under a condition, and a whole check.
* `bind_eq_error` — where a sequence fails.
* `forM_eq_ok`, `exists_of_forM_eq_error`, `forM_map_congr` — a check of every element of a list.
* `exists_ok_of_map` — the result behind what is computed from an outcome.
-/

set_option autoImplicit false

namespace DocForest
namespace Outcome

variable {α β : Type}

theorem ok_bind (a : α) (next : α → Except Failure β) : (.ok a >>= next) = next a := rfl

theorem bind_eq_ok {first : Except Failure α} {next : α → Except Failure β} {b : β} :
    (first >>= next) = .ok b ↔ ∃ a, first = .ok a ∧ next a = .ok b := by
  cases first with
  | error failure => exact ⟨fun h => (nomatch h), fun ⟨_, h, _⟩ => (nomatch h)⟩
  | ok a => exact ⟨fun h => ⟨a, rfl, h⟩, fun ⟨_, rfl, h⟩ => h⟩

theorem bind_eq_error {first : Except Failure α} {next : α → Except Failure β} {failure : Failure} :
    (first >>= next) = .error failure ↔
      first = .error failure ∨ ∃ a, first = .ok a ∧ next a = .error failure := by
  cases first with
  | error other =>
    exact ⟨fun h => .inl (congrArg Except.error (Except.error.inj h)), fun h => h.elim
      (fun h => congrArg Except.error (Except.error.inj h)) fun ⟨_, h, _⟩ => (nomatch h)⟩
  | ok a => exact ⟨fun h => .inr ⟨a, rfl, h⟩, fun h => h.elim (nomatch ·) fun ⟨_, rfl, h⟩ => h⟩

theorem pure_eq_ok {a b : α} : (pure a : Except Failure α) = .ok b ↔ b = a :=
  ⟨fun h => (Except.ok.inj h).symm, fun h => h ▸ rfl⟩

theorem throw_ne_ok {failure : Failure} {a : α} : (throw failure : Except Failure α) ≠ .ok a :=
  fun h => nomatch h

/-- A failure under a condition leaves a result exactly when the condition does not hold. -/
theorem check_eq_ok {condition : Prop} [Decidable condition] {failure : Failure}
    {next : Except Failure β} {b : β} :
    (if condition then throw failure else next) = .ok b ↔ ¬condition ∧ next = .ok b := by
  by_cases h : condition
  · rw [if_pos h]
    exact ⟨fun hthrow => absurd hthrow throw_ne_ok, fun hnext => absurd h hnext.1⟩
  · rw [if_neg h]
    exact ⟨fun hnext => ⟨h, hnext⟩, fun hnext => hnext.2⟩

theorem exists_check {check : Except Failure Unit} {P : Prop} :
    (∃ u, check = .ok u ∧ P) ↔ check = .ok () ∧ P :=
  ⟨fun ⟨(), h⟩ => h, fun h => ⟨(), h⟩⟩

/-- A check of every element succeeds exactly when it does so for each of them. -/
theorem forM_eq_ok (check : α → Except Failure Unit) (items : List α) :
    items.forM check = .ok () ↔ ∀ a ∈ items, check a = .ok () := by
  induction items with
  | nil => exact ⟨fun _ _ ha => (List.not_mem_nil ha).elim, fun _ => rfl⟩
  | cons a rest ih =>
    rw [List.forM, bind_eq_ok, List.forall_mem_cons, ← ih]
    exact ⟨fun ⟨(), ha, hrest⟩ => ⟨ha, hrest⟩, fun ⟨ha, hrest⟩ => ⟨(), ha, hrest⟩⟩

/-- If it fails, it does so for one of them. -/
theorem exists_of_forM_eq_error {check : α → Except Failure Unit} {items : List α} {failure : Failure}
    (h : items.forM check = .error failure) : ∃ a ∈ items, check a = .error failure := by
  induction items with
  | nil => exact nomatch h
  | cons a rest ih =>
    rcases bind_eq_error.1 h with ha | ⟨_, -, hrest⟩
    · exact ⟨a, List.mem_cons_self, ha⟩
    · obtain ⟨b, hb, hcheck⟩ := ih hrest
      exact ⟨b, List.mem_cons_of_mem _ hb, hcheck⟩

theorem forM_map_congr {f : α → β} {check : β → Except Failure Unit} {check' : α → Except Failure Unit}
    {items : List α} (h : ∀ a ∈ items, check (f a) = check' a) :
    (items.map f).forM check = items.forM check' := by
  induction items with
  | nil => rfl
  | cons a rest ih =>
    obtain ⟨ha, hrest⟩ := List.forall_mem_cons.1 h
    rw [List.map_cons, List.forM, List.forM, ha, ih hrest]

/-- What is computed from an outcome shows that there is a result. -/
theorem exists_ok_of_map {o : Except Failure α} {f : α → β} {b : β}
    (h : o.toOption.map f = some b) : ∃ a, o = .ok a ∧ f a = b := by
  cases o with
  | error failure => cases h
  | ok a => exact ⟨a, rfl, Option.some.inj h⟩

end Outcome
end DocForest
