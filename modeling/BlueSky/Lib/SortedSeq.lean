import Mathlib.Data.List.Basic
import Mathlib.Data.List.Pairwise
import Mathlib.Data.List.TakeWhile
import Mathlib.Order.Basic

/-!
# Sorted sequences

A sequence whose elements are sorted by a key.  A search for a key gives the position
behind the last element with a key that is not larger; the position before the first one is
the first one again.

Main results:

- Theorem {lit}`takeWhile_of_split`, {lit}`lt_of_mem_dropWhile`: what lies before and behind a
  position.
- Theorem {lit}`Sorted.insertSorted`: inserting an element with a new key keeps the order.
- Theorem {lit}`Sorted.before_eq`: the element before the position of a key is the element
  with that key, if there is one.
- Theorem {lit}`Sorted.after_eq_some_iff`: the element at the position of a key is the first
  one with a larger key.
- Theorem {lit}`Sorted.removeBefore_eq`: removing it leaves the other elements.
-/

namespace SortedSeqLib

open List

variable {α : Type*} (key : α → Nat)

/-- Keys increase strictly. -/
abbrev Sorted (l : List α) : Prop := l.Pairwise fun x y => key x < key y

/-- The position behind the last element whose key is at most {lit}`k`. -/
def search (l : List α) (k : Nat) : Nat :=
  (l.takeWhile fun x => key x ≤ k).length

/-- The element before that position. -/
def before (l : List α) (k : Nat) : Option α :=
  l[search key l k - 1]?

/-- The element at that position. -/
def after (l : List α) (k : Nat) : Option α :=
  l[search key l k]?

/-- Insert an element at the position of its key. -/
def insertSorted (l : List α) (x : α) : List α :=
  (l.takeWhile fun y => key y ≤ key x) ++ x :: l.dropWhile fun y => key y ≤ key x

/-- Remove the element before the position of a key. -/
def removeBefore (l : List α) (k : Nat) : List α :=
  l.eraseIdx (search key l k - 1)

variable {key}

/-! ## Positions -/

section Positions

variable {upTo : α → Bool} {pre post : List α}

/-- The elements up to a key come first. -/
theorem takeWhile_of_split (hpre : ∀ a ∈ pre, upTo a = true) (hpost : ∀ a ∈ post, upTo a = false) :
    (pre ++ post).takeWhile upTo = pre ∧ (pre ++ post).dropWhile upTo = post := by
  rw [takeWhile_append_of_pos hpre, dropWhile_append_of_pos hpre]
  cases post with
  | nil => simp
  | cons a post =>
    have ha := hpost a mem_cons_self
    rw [takeWhile_cons_of_neg (by simp [ha]), dropWhile_cons_of_neg (by simp [ha])]
    simp

theorem takeWhile_concat_of_split {a : α} (hpre : ∀ b ∈ pre, upTo b = true) (ha : upTo a = true)
    (hpost : ∀ b ∈ post, upTo b = false) : (pre ++ a :: post).takeWhile upTo = pre ++ [a] := by
  have hconcat : ∀ b ∈ pre ++ [a], upTo b = true :=
    forall_mem_append.mpr ⟨hpre, forall_mem_singleton.mpr ha⟩
  have hsplit := (takeWhile_of_split hconcat hpost).1
  rwa [append_assoc, singleton_append] at hsplit

/-- Behind the position of a key are elements with larger keys. -/
theorem lt_of_mem_dropWhile {l : List α} (h : l.Pairwise fun x y => key x ≤ key y) {k : Nat} {x : α}
    (hx : x ∈ l.dropWhile fun y => key y ≤ k) : k < key x := by
  have hordered := h.sublist (dropWhile_sublist fun y => decide (key y ≤ k))
  have hne := ne_nil_of_mem hx
  have hfirst : k < key ((l.dropWhile fun y => key y ≤ k).head hne) := by
    simpa using head_dropWhile_not (fun y => decide (key y ≤ k)) hne
  exact lt_of_lt_of_le hfirst (hordered.rel_head hx)

end Positions

theorem mem_insertSorted {l : List α} {x y : α} :
    y ∈ insertSorted key l x ↔ y = x ∨ y ∈ l := by
  rw [insertSorted, mem_append, mem_cons, or_left_comm, ← mem_append, takeWhile_append_dropWhile]

theorem mem_of_before {l : List α} {k : Nat} {x : α} (h : before key l k = some x) : x ∈ l :=
  mem_of_getElem? h

/-- What lies behind the position of a key. -/
theorem drop_search (l : List α) (k : Nat) :
    l.drop (search key l k) = l.dropWhile fun x => key x ≤ k := by
  have hsplit := @takeWhile_append_dropWhile α (fun x => key x ≤ k) l
  calc
    l.drop (search key l k) = ((l.takeWhile fun x => key x ≤ k) ++
        l.dropWhile fun x => key x ≤ k).drop (l.takeWhile fun x => key x ≤ k).length := by
      rw [hsplit, search]
    _ = l.dropWhile fun x => key x ≤ k := drop_left

namespace Sorted

variable {l : List α}

/-- Behind the position of a key are the elements with larger keys, in order. -/
theorem drop_search_eq_filter (h : Sorted key l) (k : Nat) :
    l.drop (search key l k) = l.filter fun x => k < key x := by
  rw [drop_search]
  induction l with
  | nil => rfl
  | cons x l ih =>
    rcases pairwise_cons.mp h with ⟨hfirst, htail⟩
    by_cases hx : key x ≤ k
    · rw [dropWhile_cons_of_pos (by simpa using hx),
        filter_cons_of_neg (by simpa using hx), ih htail]
    · rw [dropWhile_cons_of_neg (by simpa using hx), eq_comm, filter_eq_self]
      intro y hy
      rcases mem_cons.mp hy with rfl | hy
      · simpa using hx
      · have := hfirst y hy
        simp only [decide_eq_true_eq]
        omega

variable {k : Nat} {x : α}

theorem mem_drop_search (h : Sorted key l) : x ∈ l.drop (search key l k) ↔ x ∈ l ∧ k < key x := by
  rw [h.drop_search_eq_filter, mem_filter, decide_eq_true_eq]

/-- At the position of a key is the first element with a larger one. -/
theorem after_eq_some_iff (h : Sorted key l) :
    after key l k = some x ↔ x ∈ l ∧ k < key x ∧ ∀ y ∈ l, k < key y → key x ≤ key y := by
  have hhead : after key l k = (l.drop (search key l k)).head? := by
    rw [after, head?_drop]
  have hmem := fun y => h.mem_drop_search (k := k) (x := y)
  have hsorted : Sorted key (l.drop (search key l k)) := h.sublist (drop_sublist _ _)
  rw [hhead]
  generalize l.drop (search key l k) = rest at hmem hsorted ⊢
  constructor
  · intro hx
    rcases head?_eq_some_iff.mp hx with ⟨tail, rfl⟩
    rcases (hmem x).mp mem_cons_self with ⟨hxl, hk⟩
    refine ⟨hxl, hk, ?_⟩
    intro y hy hky
    rcases mem_cons.mp ((hmem y).mpr ⟨hy, hky⟩) with rfl | htail
    · exact Nat.le_refl _
    · exact Nat.le_of_lt ((pairwise_cons.mp hsorted).1 y htail)
  · rintro ⟨hxl, hk, hleast⟩
    have hx := (hmem x).mpr ⟨hxl, hk⟩
    cases rest with
    | nil => cases hx
    | cons y tail =>
      rcases (hmem y).mp mem_cons_self with ⟨hyl, hky⟩
      rcases mem_cons.mp hx with rfl | htail
      · rfl
      · have hlt := (pairwise_cons.mp hsorted).1 x htail
        exact absurd (hleast y hyl hky) (Nat.not_le_of_lt hlt)

protected theorem insertSorted (h : Sorted key l) (hx : ∀ y ∈ l, key y ≠ key x) :
    Sorted key (insertSorted key l x) := by
  have hbefore : ∀ y ∈ l.takeWhile (fun y => key y ≤ key x), key y < key x := by
    intro y hy
    have hle : key y ≤ key x := by simpa using mem_takeWhile_imp hy
    exact lt_of_le_of_ne hle (hx y ((takeWhile_sublist _).subset hy))
  have hafter : ∀ y ∈ l.dropWhile (fun y => key y ≤ key x), key x < key y :=
    fun y => lt_of_mem_dropWhile (h.imp le_of_lt)
  rw [insertSorted, Sorted, pairwise_append, pairwise_cons]
  refine ⟨h.sublist (takeWhile_sublist _), ⟨hafter, h.sublist (dropWhile_sublist _)⟩, ?_⟩
  intro y hy z hz
  rcases mem_cons.mp hz with rfl | hz
  · exact hbefore y hy
  · exact lt_trans (hbefore y hy) (hafter z hz)

/-- An element lies behind those with smaller keys and before those with larger ones. -/
theorem split_of_mem (h : Sorted key l) (hx : x ∈ l) :
    ∃ a b, l = a ++ x :: b ∧ (∀ y ∈ a, key y < key x) ∧ (∀ y ∈ b, key x < key y) := by
  rcases append_of_mem hx with ⟨a, b, rfl⟩
  rw [Sorted, pairwise_append, pairwise_cons] at h
  exact ⟨a, b, rfl, fun y hy => h.2.2 y hy x (by simp), h.2.1.1⟩

/-- A sorted sequence at the place of a key. -/
theorem split (h : Sorted key l) (k : Nat) :
    ∃ pre mid post, l = pre ++ (mid ++ post) ∧ (∀ x ∈ pre, key x < k) ∧ (∀ x ∈ post, k < key x) ∧
      (mid = [] ∨ ∃ x, mid = [x] ∧ key x = k) := by
  by_cases hk : ∃ x ∈ l, key x = k
  · rcases hk with ⟨x, hx, rfl⟩
    rcases h.split_of_mem hx with ⟨a, b, hl, ha, hb⟩
    exact ⟨a, [x], b, hl, ha, hb, Or.inr ⟨x, rfl, rfl⟩⟩
  · refine ⟨l.takeWhile fun x => key x ≤ k, [], l.dropWhile fun x => key x ≤ k,
      takeWhile_append_dropWhile.symm, ?_, ?_, Or.inl rfl⟩
    · intro x hx
      have hle : key x ≤ k := by simpa using mem_takeWhile_imp hx
      exact lt_of_le_of_ne hle fun heq => hk ⟨x, (takeWhile_sublist _).subset hx, heq⟩
    · exact fun x => lt_of_mem_dropWhile (h.imp le_of_lt)

theorem search_split {a b : List α} (ha : ∀ y ∈ a, key y < key x) (hb : ∀ y ∈ b, key x < key y) :
    search key (a ++ x :: b) (key x) = a.length + 1 := by
  rw [search, takeWhile_concat_of_split fun y hy => by simpa using le_of_lt (ha y hy),
    length_append, length_singleton]
  · simp
  · simpa using hb

theorem before_eq (h : Sorted key l) (hx : x ∈ l) : before key l (key x) = some x := by
  rcases h.split_of_mem hx with ⟨a, b, rfl, ha, hb⟩
  rw [before, search_split ha hb]
  simp

/-- A key is in use if the element before its position has it. -/
theorem before_key_iff (h : Sorted key l) :
    (before key l k).map key = some k ↔ ∃ x ∈ l, key x = k := by
  constructor
  · intro hbefore
    rcases Option.map_eq_some_iff.mp hbefore with ⟨x, hx, hk⟩
    exact ⟨x, mem_of_before hx, hk⟩
  · rintro ⟨x, hx, rfl⟩
    rw [h.before_eq hx, Option.map_some]

theorem removeBefore_eq (h : Sorted key l) (hx : x ∈ l) :
    removeBefore key l (key x) = l.filter fun y => key y ≠ key x := by
  rcases h.split_of_mem hx with ⟨a, b, rfl, ha, hb⟩
  have hkeep : ∀ l : List α, (∀ y ∈ l, key y ≠ key x) →
      l.filter (fun y => key y ≠ key x) = l := by
    intro l hl
    exact filter_eq_self.mpr fun y hy => by simpa using hl y hy
  rw [removeBefore, search_split ha hb, Nat.add_sub_cancel, eraseIdx_append_of_length_le
    le_rfl, Nat.sub_self, eraseIdx_zero, tail_cons, filter_append,
    hkeep a fun y hy => (ha y hy).ne, filter_cons_of_neg (by simp),
    hkeep b fun y hy => (hb y hy).ne']

/-- Different elements have different keys. -/
theorem eq_of_key_eq (h : Sorted key l) {y : α} (hx : x ∈ l) (hy : y ∈ l) (hkey : key x = key y) :
    x = y := by
  have hbefore := h.before_eq hx
  rw [hkey, h.before_eq hy] at hbefore
  exact (Option.some_inj.mp hbefore).symm

/-- The last element has the largest key. -/
theorem getLast?_eq_some_iff (h : Sorted key l) :
    l.getLast? = some x ↔ x ∈ l ∧ ∀ y ∈ l, key y ≤ key x := by
  have hlargest : ∀ {x}, l.getLast? = some x → x ∈ l ∧ ∀ y ∈ l, key y ≤ key x := by
    intro x hx
    rcases List.getLast?_eq_some_iff.mp hx with ⟨front, rfl⟩
    refine ⟨by simp, ?_⟩
    intro y hy
    rcases mem_append.mp hy with hfront | hlast
    · exact le_of_lt ((pairwise_append.mp h).2.2 y hfront x (by simp))
    · rw [mem_singleton.mp hlast]
  refine ⟨hlargest, ?_⟩
  rintro ⟨hx, hmax⟩
  cases hlast : l.getLast? with
  | none =>
    rw [getLast?_eq_none_iff.mp hlast] at hx
    cases hx
  | some last =>
    rcases hlargest hlast with ⟨hmem, hle⟩
    rw [h.eq_of_key_eq hmem hx (le_antisymm (hmax last hmem) (hle x hx))]

/-- Inserting the elements of a sorted sequence one after the other gives it back. -/
theorem foldl_insertSorted {l₀ l : List α} (h : Sorted key (l₀ ++ l)) :
    l.foldl (insertSorted key) l₀ = l₀ ++ l := by
  induction l generalizing l₀ with
  | nil => simp
  | cons x l ih =>
    have hbefore : ∀ y ∈ l₀, (decide (key y ≤ key x)) = true := by
      intro y hy
      exact decide_eq_true (le_of_lt ((pairwise_append.mp h).2.2 y hy x (by simp)))
    have hlast : insertSorted key l₀ x = l₀ ++ [x] := by
      rw [insertSorted, takeWhile_eq_self_iff.mpr hbefore, dropWhile_eq_nil_iff.mpr hbefore]
    rw [foldl_cons, hlast, ih (by simpa using h)]
    simp

end Sorted

end SortedSeqLib
