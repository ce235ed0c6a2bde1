import Mathlib.Data.List.Basic
import Mathlib.Data.List.Count
import Mathlib.Data.List.Nodup

/-!
# Counters by kind

Each thing on a list is of at most one kind, and a counter for each kind is to say how many
things there are of it.  The lemmas say by how much the numbers change when one thing comes,
goes, or becomes of another kind.

Main results:

- Theorem {lit}`tally_change`: one thing that changes its kind changes the numbers of its old
  and its new kind.
- Theorem {lit}`unit_eq_iff`: only a change to the same kind leaves all numbers alone.
-/

namespace TallyLib

open List

variable {ι κ : Type*} [DecidableEq κ]

/-- What a thing of the kind {lit}`k` adds to the number of things of the kind {lit}`c`. -/
def unit (k : Option κ) (c : κ) : Int :=
  if k = some c then 1 else 0

/-- The number of things of the kind {lit}`c` on the list. -/
def tally (live : List ι) (kind : ι → Option κ) (c : κ) : Int :=
  (live.countP fun i => decide (kind i = some c) : Nat)

variable {live : List ι} {kind kind' : ι → Option κ} {i : ι}

theorem tally_nonneg (c : κ) : 0 ≤ tally live kind c :=
  Int.natCast_nonneg _

@[simp]
theorem tally_cons (i : ι) (live : List ι) (c : κ) :
    tally (i :: live) kind c = unit (kind i) c + tally live kind c := by
  unfold tally unit
  rw [countP_cons]
  by_cases h : kind i = some c
  · simp [h, Int.add_comm]
  · simp [h]

theorem tally_congr (h : ∀ j ∈ live, kind' j = kind j) (c : κ) :
    tally live kind' c = tally live kind c := by
  unfold tally
  rw [countP_congr fun j hj => by rw [h j hj]]

/-- One thing changes its kind. -/
theorem tally_change (hnodup : live.Nodup) (hi : i ∈ live) (h : ∀ j, j ≠ i → kind' j = kind j)
    (c : κ) : tally live kind' c = tally live kind c - unit (kind i) c + unit (kind' i) c := by
  induction live with
  | nil => cases hi
  | cons j live ih =>
    have hj := nodup_cons.mp hnodup
    rw [tally_cons, tally_cons]
    by_cases hij : j = i
    · subst hij
      have hrest : tally live kind' c = tally live kind c := by
        apply tally_congr
        intro k hk
        apply h
        rintro rfl
        exact hj.1 hk
      omega
    · have hrest := ih hj.2 (mem_of_ne_of_mem (Ne.symm hij) hi)
      rw [h j hij]
      omega

/-- One thing goes. -/
theorem tally_erase [DecidableEq ι] (hi : i ∈ live) (c : κ) :
    tally (live.erase i) kind c = tally live kind c - unit (kind i) c := by
  induction live with
  | nil => cases hi
  | cons j live ih =>
    rw [tally_cons]
    by_cases hij : j = i
    · subst hij
      rw [erase_cons_head]
      omega
    · rw [erase_cons_tail (by simpa using hij), tally_cons, ih (mem_of_ne_of_mem (Ne.symm hij) hi)]
      omega

theorem unit_eq_iff {k k' : Option κ} : (∀ c, unit k c = unit k' c) ↔ k = k' := by
  constructor
  · intro h
    cases k with
    | none =>
      cases k' with
      | none => rfl
      | some c' =>
        have hc := h c'
        simp [unit] at hc
    | some c =>
      have hc := h c
      simp only [unit, if_true] at hc
      by_contra hne
      rw [if_neg (Ne.symm hne)] at hc
      omega
  · rintro rfl c
    rfl

end TallyLib
