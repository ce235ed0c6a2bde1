import Mathlib.Data.List.Basic
import Mathlib.Tactic.SplitIfs

/-!
# Traces of lock operations

What a piece of code does with locks, as a list of events, and the discipline it is to follow:
it takes no lock that it holds, releases only locks that it holds, makes calls that need a lock
only while it holds it, and holds no lock in the end.

Main results:

- Theorem {lit}`locksAfter_append`: one piece of code after another.
- Theorem {lit}`locksAfter_calls`: calls leave the locks as they are.
-/

namespace LockTraceLib

open List

variable {κ φ : Type*}

/-- Taking or releasing a lock, and calling a function on an object with a lock. -/
inductive LockEvent (κ φ : Type*) where
  | lock (l : κ)
  | unlock (l : κ)
  | call (f : φ) (l : κ)
deriving DecidableEq, Repr

variable [DecidableEq κ]

/-- The locks held after the events, if they follow the discipline. -/
def locksAfter : List κ → List (LockEvent κ φ) → Option (List κ)
  | held, [] => some held
  | held, .lock l :: es => if l ∈ held then none else locksAfter (l :: held) es
  | held, .unlock l :: es => if l ∈ held then locksAfter (held.erase l) es else none
  | held, .call _ l :: es => if l ∈ held then locksAfter held es else none

/-- The events follow the discipline from no locks to no locks. -/
def Disciplined (es : List (LockEvent κ φ)) : Prop :=
  locksAfter [] es = some []

instance Disciplined.decidable (es : List (LockEvent κ φ)) : Decidable (Disciplined es) :=
  inferInstanceAs (Decidable (locksAfter [] es = some []))

theorem locksAfter_append (held : List κ) (es es' : List (LockEvent κ φ)) :
    locksAfter held (es ++ es') = (locksAfter held es).bind (locksAfter · es') := by
  induction es generalizing held with
  | nil => rfl
  | cons e es ih =>
    cases e with
    | lock l =>
      rw [cons_append, locksAfter, locksAfter]
      split_ifs
      · rfl
      · exact ih _
    | unlock l =>
      rw [cons_append, locksAfter, locksAfter]
      split_ifs
      · exact ih _
      · rfl
    | call f l =>
      rw [cons_append, locksAfter, locksAfter]
      split_ifs
      · exact ih _
      · rfl

/-- Calls under locks that are held. -/
theorem locksAfter_calls {held : List κ} {es : List (LockEvent κ φ)}
    (h : ∀ e ∈ es, ∃ f, ∃ l ∈ held, e = .call f l) : locksAfter held es = some held := by
  induction es with
  | nil => rfl
  | cons e es ih =>
    rcases h e mem_cons_self with ⟨f, l, hl, rfl⟩
    rw [locksAfter, if_pos hl]
    exact ih fun e he => h e (mem_cons_of_mem _ he)

end LockTraceLib
