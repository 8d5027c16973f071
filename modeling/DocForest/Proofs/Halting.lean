import Mathlib.Computability.StateTransition

/-!
# Loops that end

A loop without a bound is a function that makes the next state of each state, or none behind the last
round.  `StateTransition.eval` goes through its rounds, and has no value if there is no last one.

## What is here

* `mem_eval_keeps` — what every round keeps holds behind the last one.
* `exists_eval_eq_some` — **a loop ends if something becomes less from round to round.**
-/

set_option autoImplicit false

namespace DocForest

open StateTransition

variable {σ : Type} {round : σ → Option σ} {Inv : σ → Prop} {s last : σ}

/-- **What every round keeps, the loop keeps.** -/
theorem mem_eval_keeps (hround : ∀ s next, Inv s → round s = some next → Inv next) (hs : Inv s)
    (h : last ∈ eval round s) : Inv last := by
  obtain ⟨hreaches, -⟩ := mem_eval.1 h
  clear h
  induction hreaches with
  | refl => exact hs
  | tail _ hnext ih => exact hround _ _ ih hnext

/-- **A loop ends if something becomes less from round to round**, as long as what the rounds keep
holds. -/
theorem exists_eval_eq_some (measure : σ → Nat)
    (hround : ∀ s next, Inv s → round s = some next → Inv next ∧ measure next < measure s)
    (hs : Inv s) : ∃ last, eval round s = Part.some last ∧ Inv last ∧ round last = none := by
  suffices hends : ∃ last, last ∈ eval round s by
    obtain ⟨last, hlast⟩ := hends
    refine ⟨last, Part.eq_some_iff.2 hlast, ?_, (mem_eval.1 hlast).2⟩
    exact mem_eval_keeps (fun s next hInv hnext => (hround s next hInv hnext).1) hs hlast
  induction hn : measure s using Nat.strongRecOn generalizing s with
  | _ n ih =>
    cases hnext : round s with
    | none => exact ⟨s, mem_eval.2 ⟨.refl, hnext⟩⟩
    | some next =>
      obtain ⟨hInv, hless⟩ := hround s next hs hnext
      obtain ⟨last, hlast⟩ := ih _ (hn ▸ hless) hInv rfl
      exact ⟨last, reaches_eval (.single hnext) ▸ hlast⟩

end DocForest
