import Mathlib.Computability.StateTransition

/-!
# Loops that end

A loop is a partial function on states, undefined where the loop is left.  Mathlib has the states
that it reaches and the state in which it ends, if it does.  Here are the two ways to tell whether
it ends: a measure that every round decreases, and a condition that every round keeps up.

Main results:

- Theorem {lit}`dom_of_measure`: a loop ends if a measure decreases.
- Theorem {lit}`not_dom_of_invariant`: a loop does not end if it can always go on.
-/

namespace LoopLib

open StateTransition

variable {σ : Type*} {f : σ → Option σ} {a b : σ}

/-- A condition that every round keeps holds in every state reached. -/
theorem reaches_invariant {I : σ → Prop} (hstep : ∀ b c, I b → c ∈ f b → I c)
    (h : Reaches f a b) (ha : I a) : I b := by
  induction h with
  | refl => exact ha
  | tail _ hstep' ih => exact hstep _ _ ih hstep'

/-- A loop ends if every round that it comes to decreases a measure. -/
theorem dom_of_measure (μ : σ → Nat) (h : ∀ b c, Reaches f a b → c ∈ f b → μ c < μ b) :
    (eval f a).Dom := by
  have hfrom : ∀ n b, μ b ≤ n → Reaches f a b → (eval f b).Dom := by
    intro n
    induction n with
    | zero =>
      intro b hle hreach
      refine Part.dom_iff_mem.mpr ⟨b, mem_eval.mpr ⟨.refl, ?_⟩⟩
      cases hnext : f b with
      | none => rfl
      | some c =>
        have hlt := h b c hreach hnext
        omega
    | succ n ih =>
      intro b hle hreach
      cases hnext : f b with
      | none => exact Part.dom_iff_mem.mpr ⟨b, mem_eval.mpr ⟨.refl, hnext⟩⟩
      | some c =>
        have hlt := h b c hreach hnext
        rw [reaches_eval (.single hnext)]
        exact ih c (by omega) (hreach.tail hnext)
  exact hfrom (μ a) a le_rfl .refl

/-- A loop does not end if it can always go on. -/
theorem not_dom_of_invariant {I : σ → Prop} (h : ∀ b, I b → ∃ c ∈ f b, I c) (ha : I a) :
    ¬ (eval f a).Dom := by
  intro hdom
  rcases Part.dom_iff_mem.mp hdom with ⟨b, hb⟩
  rcases mem_eval.mp hb with ⟨hreach, hend⟩
  have hinv : I b := by
    refine reaches_invariant ?_ hreach ha
    intro b c hb hc
    rcases h b hb with ⟨c', hc', hI⟩
    rw [Option.mem_unique hc hc']
    exact hI
  rcases h b hinv with ⟨c, hc, -⟩
  rw [hend] at hc
  cases hc

end LoopLib
