import Mathlib.Logic.Function.Basic

/-!
# Tables

Tables that are partial functions, and what is in them after one entry has been written.

Main results:

- Theorem {lit}`update_eq_some_iff`: the entries after one has been written.
-/

namespace TableLib

open Function

variable {α β : Type*} [DecidableEq α] {f : α → Option β} {a b : α} {v w : β}

/-- The entries after one has been written. -/
theorem update_eq_some_iff :
    update f a (some v) b = some w ↔ b = a ∧ v = w ∨ b ≠ a ∧ f b = some w := by
  by_cases h : b = a
  · subst h
    simp
  · simp [h]

/-- The entries after one has been removed. -/
theorem update_none_eq_some_iff :
    update f a none b = some w ↔ b ≠ a ∧ f b = some w := by
  by_cases h : b = a
  · subst h
    simp
  · simp [h]

/-- Lists of which one has been written. -/
theorem mem_update_iff {g : α → List β} {vs : List β} :
    w ∈ update g a vs b ↔ b = a ∧ w ∈ vs ∨ b ≠ a ∧ w ∈ g b := by
  by_cases h : b = a
  · subst h
    simp
  · simp [h]

end TableLib
