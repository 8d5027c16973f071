import DocForest.Event
import DocForest.Failure

/-!
# Runs that report events

A run reports events in order and ends with a result or a failure.  What was reported before a
failure stays.

## What is here

* `Logged` — a run, as its events and its outcome; it is a monad.
* `Logged.report`, `Logged.fail`, `Logged.ofExcept` — the elementary runs.
* `outcome_bind`, `outcome_forM`, `outcome_foldlM` and their companions — what sequencing does to the outcome.
-/

set_option autoImplicit false

namespace DocForest

/-- A run: the events it reported and how it ended. -/
structure Logged (α : Type) where
  events : List Event
  outcome : Except Failure α

namespace Logged

variable {α β : Type}

instance : Monad Logged where
  pure a := ⟨[], .ok a⟩
  bind run next :=
    match run.outcome with
    | .error failure => ⟨run.events, .error failure⟩
    | .ok a => ⟨run.events ++ (next a).events, (next a).outcome⟩

/-- The run that reports one event. -/
def report (event : Event) : Logged Unit :=
  ⟨[event], .ok ()⟩

/-- The run that reports several events. -/
def reportAll (events : List Event) : Logged Unit :=
  ⟨events, .ok ()⟩

/-- The run that fails. -/
def fail (failure : Failure) : Logged α :=
  ⟨[], .error failure⟩

/-- The run that reports nothing and ends in a given way. -/
def ofExcept (outcome : Except Failure α) : Logged α :=
  ⟨[], outcome⟩

instance : MonadLift (Except Failure) Logged := ⟨ofExcept⟩

@[simp] theorem outcome_pure (a : α) : (pure a : Logged α).outcome = .ok a := rfl

@[simp] theorem events_pure (a : α) : (pure a : Logged α).events = [] := rfl

@[simp] theorem outcome_report (event : Event) : (report event).outcome = .ok () := rfl

@[simp] theorem outcome_reportAll (events : List Event) : (reportAll events).outcome = .ok () := rfl

@[simp] theorem outcome_fail (failure : Failure) :
    (fail failure : Logged α).outcome = .error failure := rfl

@[simp] theorem outcome_ofExcept (outcome : Except Failure α) :
    (ofExcept outcome).outcome = outcome := rfl

/-- **The outcome of a sequence does not depend on what is reported.** -/
@[simp] theorem outcome_bind (run : Logged α) (next : α → Logged β) :
    (run >>= next).outcome = run.outcome >>= fun a => (next a).outcome := by
  cases h : run.outcome <;> simp [bind, h, Except.bind]

theorem outcome_forM (run : α → Logged Unit) (items : List α) :
    (items.forM run).outcome = items.forM fun item => (run item).outcome := by
  induction items with
  | nil => rfl
  | cons item rest ih =>
    rw [List.forM, outcome_bind, List.forM, ih]

theorem outcome_foldlM {σ : Type} (step : σ → α → Logged σ) (items : List α) (start : σ) :
    (items.foldlM step start).outcome =
      items.foldlM (fun state item => (step state item).outcome) start := by
  induction items generalizing start with
  | nil => rfl
  | cons item rest ih =>
    simp only [List.foldlM_cons, outcome_bind]
    cases (step start item).outcome with
    | error failure => rfl
    | ok state => exact ih state

end Logged
end DocForest
