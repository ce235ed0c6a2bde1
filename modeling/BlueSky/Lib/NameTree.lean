import Mathlib.Logic.Function.Basic
import Mathlib.Logic.Relation
import Mathlib.Tactic.SplitIfs

/-!
# Trees of names

A table in which a node gives names to other nodes, and when it is a tree: no node is below
itself, and nodes of a certain kind have at most one name.

Main results:

- Theorem {lit}`IsTree.unbind`: names may be taken away.
- Theorem {lit}`IsTree.bind_iff`: when a new name keeps the tree a tree.
- Theorem {lit}`IsTree.path_of_moved`: in a tree, a path from a node to the directory it is moved
  to does not use the names that the move takes away.
-/

namespace NameTreeLib

open Function Relation

variable {α ν : Type*}

section SetName

variable [DecidableEq α] [DecidableEq ν]

/-- The table with one name changed. -/
def setName (names : α → ν → Option α) (d : α) (n : ν) (value : Option α) : α → ν → Option α :=
  update names d (update (names d) n value)

variable {names : α → ν → Option α} {d d' : α} {n n' : ν} {value : Option α}

theorem setName_apply : setName names d n value d' n' =
    if d' = d ∧ n' = n then value else names d' n' := by
  by_cases hd : d' = d
  · by_cases hn : n' = n
    · rw [if_pos ⟨hd, hn⟩, setName, hd, hn, update_self, update_self]
    · rw [if_neg fun h => hn h.2, setName, hd, update_self, update_of_ne hn]
  · rw [if_neg fun h => hd h.1, setName, update_of_ne hd]

@[simp]
theorem setName_self : setName names d n value d n = value := by
  rw [setName_apply, if_pos ⟨rfl, rfl⟩]

/-- Taking away a name that is not there. -/
theorem setName_none (h : names d n = none) : setName names d n none = names := by
  rw [setName, ← h, update_eq_self, update_eq_self]

theorem setName_none_le {c : α} (h : setName names d n none d' n' = some c) :
    names d' n' = some c := by
  rw [setName_apply] at h
  split_ifs at h
  exact h

end SetName

/-- One node has a name for another. -/
def Child (names : α → ν → Option α) (d c : α) : Prop :=
  ∃ n, names d n = some c

/-- No node is below itself, and nodes in {lit}`dirs` have at most one name. -/
structure IsTree (names : α → ν → Option α) (dirs : α → Prop) : Prop where
  acyclic : ∀ d, ¬ TransGen (Child names) d d
  unique : ∀ c, dirs c → ∀ d n d' n', names d n = some c → names d' n' = some c → d = d' ∧ n = n'

variable {names names' : α → ν → Option α} {dirs dirs' : α → Prop}

/-- Fewer names, and more nodes that may have several or have none. -/
theorem IsTree.unbind (h : IsTree names dirs)
    (hnames : ∀ d n c, names' d n = some c → names d n = some c)
    (hdirs : ∀ d n c, names' d n = some c → dirs' c → dirs c) : IsTree names' dirs' := by
  constructor
  · intro d hcycle
    refine h.acyclic d (TransGen.mono ?_ d d hcycle)
    rintro d c ⟨n, hn⟩
    exact ⟨n, hnames d n c hn⟩
  · intro c hc d n d' n' hn hn'
    exact h.unique c (hdirs d n c hn hc) d n d' n' (hnames d n c hn) (hnames d' n' c hn')

/-- A path in a graph with one more edge uses the old edges only, or goes through the new one. -/
theorem transGen_or_through {r r' : α → α → Prop} {d x a b : α}
    (hr : ∀ a b, r' a b → r a b ∨ a = d ∧ b = x) (hpath : TransGen r' a b) :
    TransGen r a b ∨ ReflTransGen r a d ∧ ReflTransGen r x b := by
  induction hpath with
  | single hedge =>
    rcases hr _ _ hedge with hold | ⟨rfl, rfl⟩
    · exact Or.inl (.single hold)
    · exact Or.inr ⟨.refl, .refl⟩
  | tail _ hedge ih =>
    rcases hr _ _ hedge with hold | ⟨rfl, rfl⟩
    · rcases ih with hpath | ⟨hto, hfrom⟩
      · exact Or.inl (hpath.tail hold)
      · exact Or.inr ⟨hto, hfrom.tail hold⟩
    · rcases ih with hpath | ⟨hto, -⟩
      · exact Or.inr ⟨hpath.to_reflTransGen, .refl⟩
      · exact Or.inr ⟨hto, .refl⟩

section Bind

variable [DecidableEq α] [DecidableEq ν] {d x : α} {n : ν}

theorem child_setName {a b : α} (h : Child (setName names d n (some x)) a b) :
    Child names a b ∨ a = d ∧ b = x := by
  rcases h with ⟨m, hm⟩
  rw [setName_apply] at hm
  split_ifs at hm with hnew
  · exact Or.inr ⟨hnew.1, (Option.some_inj.mp hm).symm⟩
  · exact Or.inl ⟨m, hm⟩

theorem Child.bind {a b : α} (hunbound : names d n = none) (h : Child names a b) :
    Child (setName names d n (some x)) a b := by
  rcases h with ⟨m, hm⟩
  refine ⟨m, ?_⟩
  rw [setName_apply, if_neg]
  · exact hm
  · rintro ⟨rfl, rfl⟩
    rw [hunbound] at hm
    cases hm

/-- A new name for {lit}`x` in {lit}`d` keeps a tree a tree exactly if {lit}`d` is not at or below
{lit}`x`, and {lit}`x` has no name or may have several. -/
theorem IsTree.bind_iff (h : IsTree names dirs) (hunbound : names d n = none) :
    IsTree (setName names d n (some x)) dirs ↔
      ¬ ReflTransGen (Child names) x d ∧ (dirs x → ∀ d' n', names d' n' ≠ some x) := by
  constructor
  · intro htree
    constructor
    · intro hpath
      have hedge : Child (setName names d n (some x)) d x := ⟨n, setName_self⟩
      have hback : ReflTransGen (Child (setName names d n (some x))) x d :=
        ReflTransGen.mono (fun _ _ hold => hold.bind hunbound) _ _ hpath
      exact htree.acyclic d (TransGen.head' hedge hback)
    · intro hx d' n' hn'
      have hold : setName names d n (some x) d' n' = some x := by
        rw [setName_apply]
        split_ifs
        · rfl
        · exact hn'
      rcases htree.unique x hx d n d' n' setName_self hold with ⟨rfl, rfl⟩
      rw [hunbound] at hn'
      cases hn'
  · rintro ⟨hbelow, hnamed⟩
    constructor
    · intro a hcycle
      rcases transGen_or_through (fun _ _ => child_setName) hcycle with hold | ⟨hto, hfrom⟩
      · exact h.acyclic a hold
      · exact hbelow (hfrom.trans hto)
    · intro c hc d₁ n₁ d₂ n₂ hn₁ hn₂
      rw [setName_apply] at hn₁ hn₂
      split_ifs at hn₁ hn₂ with h₁ h₂ h₂
      · exact ⟨h₁.1.trans h₂.1.symm, h₁.2.trans h₂.2.symm⟩
      · rw [Option.some_inj] at hn₁
        exact absurd hn₂ (hn₁ ▸ hnamed (hn₁ ▸ hc) d₂ n₂)
      · rw [Option.some_inj] at hn₂
        exact absurd hn₁ (hn₂ ▸ hnamed (hn₂ ▸ hc) d₁ n₁)
      · exact h.unique c hc d₁ n₁ d₂ n₂ hn₁ hn₂

end Bind

/-- A path from {lit}`x` to {lit}`d` in a tree uses neither names of {lit}`d` nor names for
{lit}`x`. -/
theorem IsTree.path_of_moved {x d : α} (h : IsTree names dirs)
    (hnames : ∀ a b, Child names a b → a ≠ d → b ≠ x → Child names' a b)
    (hpath : ReflTransGen (Child names) x d) : ReflTransGen (Child names') x d := by
  have hpaths : ∀ a, ReflTransGen (Child names) x a → ReflTransGen (Child names) a d →
      ReflTransGen (Child names') x a := by
    intro a hto
    induction hto with
    | refl => exact fun _ => .refl
    | tail hto hedge ih =>
      intro hfrom
      refine (ih (hfrom.head hedge)).tail (hnames _ _ hedge ?_ ?_)
      · rintro rfl
        exact h.acyclic _ (TransGen.head' hedge hfrom)
      · rintro rfl
        exact h.acyclic _ (TransGen.tail' hto hedge)
  exact hpaths d hpath .refl

end NameTreeLib
