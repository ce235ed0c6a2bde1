import Mathlib.Data.Fintype.Card
import Mathlib.Data.List.Nodup
import Mathlib.Logic.Relation

/-!
# Depth-first post-order

A recursive walk over a graph that lists a node after everything it leads to, skipping
what is already listed and what is done beforehand.

Main results:

- Theorem {lit}`exists_rank`: in a finite acyclic graph the depth of the recursion is
  smaller than the number of nodes.
- Theorem {lit}`visit_spec`: the walk returns, lists the nodes that are reachable and not
  done, each once, and each after those it leads to.
-/

namespace PostOrderLib

open List

variable {α : Type*}

section Graph

variable (succ : α → List α)

/-- One edge of the graph. -/
def Edge (x y : α) : Prop := y ∈ succ x

/-- A path of any length. -/
abbrev PathTo : α → α → Prop := Relation.ReflTransGen (Edge succ)

/-- No node lies on a cycle. -/
def Acyclic : Prop := ∀ x, ¬ Relation.TransGen (Edge succ) x x

/-- In a finite acyclic graph the number of nodes below a node decreases along edges. -/
theorem exists_rank [Fintype α] (hacyclic : Acyclic succ) :
    ∃ rank : α → Nat, (∀ x, ∀ y ∈ succ x, rank y < rank x) ∧ ∀ x, rank x < Fintype.card α := by
  classical
  let below : α → Finset α := fun x =>
    Finset.univ.filter fun y => Relation.TransGen (Edge succ) x y
  have hself : ∀ x, x ∉ below x := by
    intro x hx
    exact hacyclic x (Finset.mem_filter.mp hx).2
  refine ⟨fun x => (below x).card, ?_, ?_⟩
  · intro x y hy
    apply Finset.card_lt_card
    rw [Finset.ssubset_iff_of_subset]
    · exact ⟨y, Finset.mem_filter.mpr ⟨Finset.mem_univ y, .single hy⟩, hself y⟩
    · intro z hz
      exact Finset.mem_filter.mpr ⟨Finset.mem_univ z, .head hy (Finset.mem_filter.mp hz).2⟩
  · intro x
    exact Finset.card_lt_univ_of_notMem (hself x)

variable {succ}

theorem rank_le_of_pathTo {rank : α → Nat} (hrank : ∀ x, ∀ y ∈ succ x, rank y < rank x)
    {x y : α} (hpath : PathTo succ x y) : rank y ≤ rank x := by
  induction hpath with
  | refl => exact le_rfl
  | tail _ hedge ih => exact le_trans (le_of_lt (hrank _ _ hedge)) ih

theorem acyclic_of_rank (rank : α → Nat) (hrank : ∀ x, ∀ y ∈ succ x, rank y < rank x) :
    Acyclic succ := by
  intro x hcycle
  rcases Relation.TransGen.head'_iff.mp hcycle with ⟨y, hedge, hpath⟩
  exact absurd (rank_le_of_pathTo hrank hpath) (not_le.mpr (hrank x y hedge))

end Graph

/-! ## Post-ordered lists -/

section Order

variable (succ : α → List α) (done : α → Bool)

/-- Lists without repetitions of nodes that are not done, in which each node comes after
those that it leads to. -/
inductive PostOrder : List α → Prop
  | nil : PostOrder []
  | snoc {l : List α} {x : α} (hl : PostOrder l) (hdone : done x = false) (hx : x ∉ l)
      (hsucc : ∀ y ∈ succ x, done y = true ∨ y ∈ l) : PostOrder (l ++ [x])

variable {succ done}

namespace PostOrder

variable {l : List α}

theorem nodup (h : PostOrder succ done l) : l.Nodup := by
  induction h with
  | nil => exact nodup_nil
  | @snoc l x hl hdone hx hsucc ih =>
    exact List.Nodup.append ih (nodup_singleton x) (disjoint_singleton.mpr hx)

theorem not_done (h : PostOrder succ done l) : ∀ x ∈ l, done x = false := by
  induction h with
  | nil => simp
  | snoc hl hdone hx hsucc ih =>
    intro y hy
    rcases mem_append.mp hy with hy | hy
    · exact ih y hy
    · rw [mem_singleton.mp hy]
      exact hdone

/-- What a listed node leads to is done or listed. -/
theorem closed (h : PostOrder succ done l) : ∀ x ∈ l, ∀ y ∈ succ x, done y = true ∨ y ∈ l := by
  induction h with
  | nil => simp
  | @snoc l z hl hdone hz hsucc ih =>
    intro x hx y hy
    rcases mem_append.mp hx with hx | hx
    · exact (ih x hx y hy).imp_right (mem_append_left _)
    · rw [mem_singleton.mp hx] at hy
      exact (hsucc y hy).imp_right (mem_append_left _)

/-- A listed node comes after those that it leads to. -/
theorem sublist_of_edge (h : PostOrder succ done l) {x y : α} (hx : x ∈ l) (hy : y ∈ l)
    (hedge : y ∈ succ x) : [y, x].Sublist l := by
  induction h with
  | nil => simp at hx
  | @snoc l z hl hdone hz hsucc ih =>
    have hyl : y ∈ l := by
      rcases mem_append.mp hx with hx | hx
      · rcases hl.closed x hx y hedge with hd | hyl
        · have := (hl.snoc hdone hz hsucc).not_done y hy
          simp [hd] at this
        · exact hyl
      · rw [mem_singleton.mp hx] at hedge
        rcases hsucc y hedge with hd | hyl
        · have := (hl.snoc hdone hz hsucc).not_done y hy
          simp [hd] at this
        · exact hyl
    rcases mem_append.mp hx with hx | hx
    · exact (ih hx hyl).trans (sublist_append_left l [z])
    · rw [mem_singleton.mp hx]
      exact List.Sublist.append (singleton_sublist.mpr hyl) (List.Sublist.refl [z])

/-- What is reachable from a done or listed node is done or listed. -/
theorem pathTo (h : PostOrder succ done l)
    (hclosed : ∀ x, done x = true → ∀ y ∈ succ x, done y = true) {x y : α}
    (hx : done x = true ∨ x ∈ l) (hpath : PathTo succ x y) : done y = true ∨ y ∈ l := by
  induction hpath with
  | refl => exact hx
  | @tail a b hab hedge ih =>
    rcases ih with ha | ha
    · exact Or.inl (hclosed a ha b hedge)
    · exact h.closed a ha b hedge

end PostOrder

end Order

/-! ## The walk -/

section Walk

variable [DecidableEq α] (succ : α → List α) (done : α → Bool)

/-- Lists {lit}`x` after what it leads to, unless it is done or listed; nothing if the
recursion is deeper than {lit}`fuel`. -/
def visit : Nat → List α → α → Option (List α)
  | 0, _, _ => none
  | fuel + 1, acc, x =>
    if done x || acc.contains x then some acc
    else ((succ x).foldlM (visit fuel) acc).map (· ++ [x])

variable {succ done}

/-- What a walk from one node, or from several one after the other, adds to a list. -/
structure Visited (succ : α → List α) (done : α → Bool) (xs acc new : List α) : Prop where
  ordered : PostOrder succ done (acc ++ new)
  reached : ∀ y ∈ new, ∃ x ∈ xs, PathTo succ x y
  covered : ∀ x ∈ xs, done x = true ∨ x ∈ acc ++ new

theorem visitAll_spec {fuel : Nat} {xs : List α}
    (hvisit : ∀ acc, ∀ x ∈ xs, PostOrder succ done acc → ∃ new,
      visit succ done fuel acc x = some (acc ++ new) ∧ Visited succ done [x] acc new)
    {acc : List α} (hacc : PostOrder succ done acc) :
    ∃ new, xs.foldlM (visit succ done fuel) acc = some (acc ++ new) ∧
      Visited succ done xs acc new := by
  induction xs generalizing acc with
  | nil => exact ⟨[], by simp, ⟨by simpa using hacc, by simp, by simp⟩⟩
  | cons x xs ih =>
    rcases hvisit acc x (by simp) hacc with ⟨first, hfirst, hvfirst⟩
    rcases ih (fun acc y hy => hvisit acc y (mem_cons_of_mem x hy)) hvfirst.ordered with
      ⟨rest, hrest, hvrest⟩
    refine ⟨first ++ rest, ?_, ?_⟩
    · rw [foldlM_cons, hfirst]
      simpa [append_assoc] using hrest
    · refine ⟨by simpa [append_assoc] using hvrest.ordered, ?_, ?_⟩
      · intro y hy
        rcases mem_append.mp hy with hy | hy
        · rcases hvfirst.reached y hy with ⟨x', hx', hpath⟩
          exact ⟨x', by simp [mem_singleton.mp hx'], hpath⟩
        · rcases hvrest.reached y hy with ⟨x', hx', hpath⟩
          exact ⟨x', mem_cons_of_mem x hx', hpath⟩
      · intro y hy
        rcases mem_cons.mp hy with rfl | hy
        · rcases hvfirst.covered y (by simp) with hd | hmem
          · exact Or.inl hd
          · refine Or.inr ?_
            rw [← append_assoc]
            exact mem_append_left rest hmem
        · simpa [append_assoc] using hvrest.covered y hy

/-- The walk from a node of smaller rank than the fuel returns. -/
theorem visit_step {rank : α → Nat} (hrank : ∀ x, ∀ y ∈ succ x, rank y < rank x)
    {fuel : Nat} {acc : List α} {x : α} (hfuel : rank x < fuel)
    (hacc : PostOrder succ done acc) :
    ∃ new, visit succ done fuel acc x = some (acc ++ new) ∧ Visited succ done [x] acc new := by
  induction fuel generalizing acc x with
  | zero => omega
  | succ fuel ih =>
    by_cases hskip : (done x || acc.contains x) = true
    · refine ⟨[], by rw [visit, if_pos hskip, append_nil], ⟨by simpa using hacc, by simp, ?_⟩⟩
      simpa using hskip
    · have hnew : done x = false ∧ x ∉ acc := by simpa using hskip
      have hbelow : ∀ acc, ∀ y ∈ succ x, PostOrder succ done acc → ∃ new,
          visit succ done fuel acc y = some (acc ++ new) ∧ Visited succ done [y] acc new := by
        intro acc y hy hacc
        have hlt := hrank x y hy
        exact ih (by omega) hacc
      rcases visitAll_spec hbelow hacc with ⟨below, hbelow, hvbelow⟩
      have hx : x ∉ acc ++ below := by
        intro hmem
        rcases mem_append.mp hmem with hmem | hmem
        · exact hnew.2 hmem
        · rcases hvbelow.reached x hmem with ⟨y, hy, hpath⟩
          have hle := rank_le_of_pathTo hrank hpath
          have hlt := hrank x y hy
          omega
      have hordered := hvbelow.ordered.snoc hnew.1 hx hvbelow.covered
      refine ⟨below ++ [x], ?_, ⟨by simpa [append_assoc] using hordered, ?_, by simp⟩⟩
      · rw [visit, if_neg hskip, hbelow]
        simp
      · intro y hy
        rcases mem_append.mp hy with hy | hy
        · rcases hvbelow.reached y hy with ⟨z, hz, hpath⟩
          exact ⟨x, by simp, .head hz hpath⟩
        · exact ⟨x, by simp, by rw [mem_singleton.mp hy]⟩

/-- In a finite acyclic graph in which nothing that is not done lies below something done,
the walk returns and lists what is reachable and not done. -/
theorem visit_spec [Fintype α] (hacyclic : Acyclic succ)
    (hclosed : ∀ x, done x = true → ∀ y ∈ succ x, done y = true) (x : α) :
    ∃ l, visit succ done (Fintype.card α) [] x = some l ∧ PostOrder succ done l ∧
      ∀ y, y ∈ l ↔ PathTo succ x y ∧ done y = false := by
  rcases exists_rank succ hacyclic with ⟨rank, hrank, hcard⟩
  rcases @visit_step _ _ succ done rank hrank _ [] x (hcard x) .nil with ⟨l, hl, hvisited⟩
  have hordered : PostOrder succ done l := by simpa using hvisited.ordered
  refine ⟨l, by simpa using hl, hordered, ?_⟩
  intro y
  constructor
  · intro hy
    rcases hvisited.reached y hy with ⟨x', hx', hpath⟩
    rw [mem_singleton.mp hx'] at hpath
    exact ⟨hpath, hordered.not_done y hy⟩
  · rintro ⟨hpath, hnot⟩
    have hx := hvisited.covered x (by simp)
    rw [nil_append] at hx
    rcases hordered.pathTo hclosed hx hpath with hd | hmem
    · simp [hnot] at hd
    · exact hmem

end Walk

end PostOrderLib
