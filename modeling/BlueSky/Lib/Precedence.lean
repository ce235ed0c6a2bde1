import Mathlib.Data.List.Nodup
import Mathlib.Data.List.Sublists

/-!
# Order of occurrence in a list

The order in which the elements of a list without duplicates occur, as a relation
that is stable when the list grows at its end.

Main results:

- Theorem {lit}`precedes_append`: occurrences in two parts of a list.
- Theorem {lit}`precedes_total`: two members occur in one of the two orders.
- Theorem {lit}`Precedes.asymm`: and in only one of them.
-/

namespace PrecedenceLib

open List

variable {α β : Type*} {l l₁ l₂ : List α} {x y z : α}

/-- An occurrence of {lit}`x` before one of {lit}`y`. -/
def Precedes (l : List α) (x y : α) : Prop :=
  [x, y].Sublist l

instance [DecidableEq α] (l : List α) (x y : α) : Decidable (Precedes l x y) :=
  inferInstanceAs (Decidable ([x, y].Sublist l))

theorem Precedes.left_mem (h : Precedes l x y) : x ∈ l :=
  h.subset (by simp)

theorem Precedes.right_mem (h : Precedes l x y) : y ∈ l :=
  h.subset (by simp)

theorem Precedes.append_right (h : Precedes l₁ x y) (l₂ : List α) :
    Precedes (l₁ ++ l₂) x y :=
  List.Sublist.trans h (sublist_append_left l₁ l₂)

theorem precedes_of_mem (hx : x ∈ l₁) (hy : y ∈ l₂) : Precedes (l₁ ++ l₂) x y :=
  (singleton_sublist.mpr hx).append (singleton_sublist.mpr hy)

/-- Where the two occurrences lie with respect to a cut of the list. -/
theorem precedes_append :
    Precedes (l₁ ++ l₂) x y ↔ Precedes l₁ x y ∨ (x ∈ l₁ ∧ y ∈ l₂) ∨ Precedes l₂ x y := by
  constructor
  · intro h
    rcases sublist_append_iff.mp h with ⟨a, b, hab, ha, hb⟩
    match a, hab with
    | [], hab =>
      rw [nil_append] at hab
      subst hab
      exact Or.inr (Or.inr hb)
    | [u], hab =>
      rw [singleton_append, List.cons.injEq] at hab
      rcases hab with ⟨rfl, rfl⟩
      exact Or.inr (Or.inl ⟨singleton_sublist.mp ha, singleton_sublist.mp hb⟩)
    | u :: v :: w, hab =>
      simp only [cons_append, List.cons.injEq] at hab
      rcases hab with ⟨rfl, rfl, hnil⟩
      rcases append_eq_nil_iff.mp hnil.symm with ⟨rfl, -⟩
      exact Or.inl ha
  · rintro (h | ⟨hx, hy⟩ | h)
    · exact h.append_right l₂
    · exact precedes_of_mem hx hy
    · exact List.Sublist.trans h (sublist_append_right l₁ l₂)

theorem not_precedes_singleton : ¬ Precedes [z] x y := by
  intro h
  have := h.length_le
  simp at this

theorem precedes_total (hx : x ∈ l) (hy : y ∈ l) (hne : x ≠ y) :
    Precedes l x y ∨ Precedes l y x := by
  rcases append_of_mem hx with ⟨pre, post, rfl⟩
  rcases mem_append.mp hy with hy | hy
  · exact Or.inr (precedes_of_mem hy mem_cons_self)
  · rcases mem_cons.mp hy with rfl | hy
    · exact absurd rfl hne
    · refine Or.inl ?_
      rw [append_cons]
      exact precedes_of_mem (by simp) hy

/-- An occurrence before something that is not in the second part of a list. -/
theorem Precedes.of_not_mem (h : Precedes (l₁ ++ l₂) x y) (hy : y ∉ l₂) : Precedes l₁ x y := by
  rcases precedes_append.mp h with h | ⟨-, hmem⟩ | h
  · exact h
  · exact absurd hmem hy
  · exact absurd h.right_mem hy

/-- Something that occurs before the last element. -/
theorem Precedes.mem_of_concat (h : Precedes (l ++ [z]) x y) : x ∈ l := by
  rcases precedes_append.mp h with h | ⟨hx, -⟩ | h
  · exact h.left_mem
  · exact hx
  · exact absurd h not_precedes_singleton

/-- An occurrence in the first part of a list without duplicates. -/
theorem Precedes.of_append (hnodup : (l₁ ++ l₂).Nodup) (hy : y ∈ l₁)
    (h : Precedes (l₁ ++ l₂) x y) : Precedes l₁ x y :=
  h.of_not_mem fun hmem => (nodup_append.mp hnodup).2.2 y hy y hmem rfl

theorem Precedes.asymm (hnodup : l.Nodup) (h : Precedes l x y) : ¬ Precedes l y x := by
  intro h'
  induction l with
  | nil => exact absurd h.left_mem not_mem_nil
  | cons a l ih =>
    rw [nodup_cons] at hnodup
    rw [← singleton_append, precedes_append] at h h'
    simp only [not_precedes_singleton, false_or, mem_singleton] at h h'
    rcases h with ⟨rfl, hy⟩ | h
    · rcases h' with ⟨rfl, hx⟩ | h'
      · exact hnodup.1 hx
      · exact hnodup.1 h'.right_mem
    · rcases h' with ⟨rfl, hx⟩ | h'
      · exact hnodup.1 h.right_mem
      · exact ih hnodup.2 h h'

theorem Precedes.ne (hnodup : l.Nodup) (h : Precedes l x y) : x ≠ y := by
  rintro rfl
  exact h.asymm hnodup h

/-- Mapping a list keeps the order of occurrence. -/
theorem Precedes.map (f : α → β) (h : Precedes l x y) : Precedes (l.map f) (f x) (f y) :=
  List.Sublist.map f h

/-- In a list that increases strictly, the order of occurrence is the order of the
elements. -/
theorem Precedes.of_pairwise {r : α → α → Prop} (hl : l.Pairwise r)
    (h : Precedes l x y) : r x y := by
  have := hl.sublist h
  simpa using this

end PrecedenceLib
