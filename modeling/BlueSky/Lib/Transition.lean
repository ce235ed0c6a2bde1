import Mathlib.Data.List.Basic

/-!
# Runs of a transition system

A system is a partial step function on states: an event that is not enabled has no
successor.  {lit}`Reachable` collects the states of all runs whose steps meet a
condition on the state before the step and the event.

Main results:

- Theorem {lit}`Reachable.invariant`: what the start has and every step keeps holds
  in every state reached.
- Theorem {lit}`reachable_of_runWhile`: an evaluated run gives a reachable state.
-/

namespace TransitionLib

variable {σ ε : Type*}

/-- The states of the runs from {lit}`start` in which each step meets {lit}`ok`. -/
inductive Reachable (step : σ → ε → Option σ) (ok : σ → ε → Prop) (start : σ) : σ → Prop
  | start : Reachable step ok start start
  | next {s s' : σ} (e : ε) :
      Reachable step ok start s → ok s e → step s e = some s' → Reachable step ok start s'

variable {step : σ → ε → Option σ} {ok ok' : σ → ε → Prop} {start : σ}

variable {s : σ}

/-- The rule for invariants of whole runs. -/
theorem Reachable.invariant {I : σ → Prop} (hstart : I start)
    (hstep : ∀ s e s', I s → ok s e → step s e = some s' → I s') (hs : Reachable step ok start s) :
    I s := by
  induction hs with
  | start => exact hstart
  | next e _ hok hnext ih => exact hstep _ e _ ih hok hnext

/-- A run stays a run under a weaker condition. -/
theorem Reachable.mono (himp : ∀ s e, ok s e → ok' s e) (hs : Reachable step ok start s) :
    Reachable step ok' start s := by
  induction hs with
  | start => exact .start
  | next e _ hok hnext ih => exact .next e ih (himp _ _ hok) hnext

/-- Evaluate a run, checking the condition at every step. -/
def runWhile (step : σ → ε → Option σ) (ok : σ → ε → Prop) [∀ s e, Decidable (ok s e)] :
    σ → List ε → Option σ
  | s, [] => some s
  | s, e :: es => if ok s e then (step s e).bind (runWhile step ok · es) else none

/-- An evaluated run gives a reachable state. -/
theorem reachable_of_runWhile [∀ s e, Decidable (ok s e)] {es : List ε} {s' : σ}
    (hs : Reachable step ok start s) (hrun : runWhile step ok s es = some s') :
    Reachable step ok start s' := by
  induction es generalizing s with
  | nil =>
    rw [← Option.some.inj hrun]
    exact hs
  | cons e es ih =>
    rw [runWhile] at hrun
    split at hrun
    · rename_i hok
      rcases Option.bind_eq_some_iff.mp hrun with ⟨s₁, hnext, hrest⟩
      exact ih (hs.next e hok hnext) hrest
    · cases hrun

end TransitionLib
