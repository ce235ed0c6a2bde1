import Mathlib

/-!
# Elements of lists

One element of a list that is replaced or taken out.

Main results:

- Theorem {lit}`split_at`: what is before and behind an element.
- Theorem {lit}`getElem?_concat_eq_some_iff`, {lit}`getElem?_set_eq_some_iff`: the elements after
  one is added or replaced.
- Theorem {lit}`sum_map_set`, {lit}`countP_set`: totals after one element is replaced.
-/

namespace ListLib

open List

variable {α : Type*} {xs : List α} {i : Nat} {a : α}

/-- What is before and behind an element. -/
theorem split_at (h : xs[i]? = some a) :
    ∃ pre post, xs = pre ++ a :: post ∧ pre.length = i ∧ (∀ b, xs.set i b = pre ++ b :: post) ∧
      xs.eraseIdx i = pre ++ post := by
  rcases List.getElem?_eq_some_iff.mp h with ⟨hi, rfl⟩
  refine ⟨xs.take i, xs.drop (i + 1), ?_, ?_, ?_, ?_⟩
  · rw [cons_getElem_drop_succ, take_append_drop]
  · rw [length_take, Nat.min_eq_left (Nat.le_of_lt hi)]
  · intro b
    exact set_eq_take_append_cons_drop.trans (if_pos hi)
  · rw [eraseIdx_eq_take_drop_succ]

/-- The elements after one is added. -/
theorem getElem?_concat_eq_some_iff {b : α} :
    (xs ++ [a])[i]? = some b ↔ xs[i]? = some b ∨ i = xs.length ∧ a = b := by
  rcases lt_trichotomy i xs.length with hlt | rfl | hgt
  · rw [getElem?_append_left hlt]
    simp [hlt.ne]
  · simp
  · rw [getElem?_eq_none (by simpa using Nat.succ_le_of_lt hgt), getElem?_eq_none hgt.le]
    simp [hgt.ne']

/-- The elements after one is replaced. -/
theorem getElem?_set_eq_some_iff {j : Nat} {b c : α} :
    (xs.set i b)[j]? = some c ↔ (j = i ∧ i < xs.length) ∧ b = c ∨ j ≠ i ∧ xs[j]? = some c := by
  rw [getElem?_set]
  by_cases hj : j = i
  · subst hj
    simp
  · simp [hj, Ne.symm hj]

/-- A total after one element is replaced. -/
theorem sum_map_set (f : α → Nat) (h : xs[i]? = some a) (b : α) :
    ((xs.set i b).map f).sum + f a = (xs.map f).sum + f b := by
  rcases split_at h with ⟨pre, post, rfl, -, hset, -⟩
  rw [hset b]
  simp only [map_append, map_cons, sum_append, sum_cons]
  omega

/-- A count after one element is replaced. -/
theorem countP_set (p : α → Bool) (h : xs[i]? = some a) (b : α) :
    (xs.set i b).countP p + (p a).toNat = xs.countP p + (p b).toNat := by
  rcases split_at h with ⟨pre, post, rfl, -, hset, -⟩
  have hcount : ∀ c, (pre ++ c :: post).countP p =
      pre.countP p + post.countP p + (p c).toNat := by
    intro c
    rw [countP_append, countP_cons]
    cases p c with
    | false => simp
    | true => simp [Nat.add_assoc]
  rw [hset b, hcount, hcount]
  omega

end ListLib
