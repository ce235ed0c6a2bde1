import BlueSky.Lib.Bytes

/-!
# Store requests

A request to a store is an object that the store fills in and then marks as complete.  The result
is -1 until a store says otherwise; a store that fetched a whole object leaves it to the completion
to select the range that was asked for.

Main results:

- Theorem {lit}`selectRange_whole`: without a range nothing is selected.
- Theorem {lit}`selectRange_slice`: of a whole object, the range inside it is selected.
-/

namespace BlueSky

open ByteLib

/-- The requests that are made. -/
inductive StoreOp where
  | get
  | put
deriving DecidableEq, Repr

/-- How far a request has come. -/
inductive AsyncStatus where
  | new
  | pending
  | running
  | complete
deriving DecidableEq, Repr

/-- A request. -/
structure StoreAsync where
  status : AsyncStatus
  op : StoreOp
  key : Bytes
  data : Option Bytes
  start : Nat
  len : Nat
  rangeDone : Bool
  result : Int
deriving DecidableEq, Repr

/-- `bluesky_store_async_new`, with the operation, the key and the data of a `PUT`. -/
def newAsync (op : StoreOp) (key : Bytes) (data : Option Bytes) : StoreAsync where
  status := .new
  op := op
  key := key
  data := data
  start := 0
  len := 0
  rangeDone := false
  result := -1

/-- Select the range that was asked for, if the backend read the entire object. -/
def StoreAsync.selectRange (a : StoreAsync) : StoreAsync :=
  match a.data with
  | none => a
  | some data =>
    if a.op = .get ∧ a.rangeDone = false ∧ a.result = 0 ∧ (a.start ≠ 0 ∨ a.len ≠ 0) then
      if data.length < a.start + a.len then { a with result := -1 }
      else
        let len := if a.len = 0 then data.length - a.start else a.len
        { a with data := some (slice data a.start len), len := len, rangeDone := true }
    else a

/-- `bluesky_store_async_mark_complete`. -/
def StoreAsync.markComplete (a : StoreAsync) : StoreAsync :=
  if a.status = .complete then a else { a.selectRange with status := .complete }

variable {a : StoreAsync}

/-- Without a range nothing is selected. -/
theorem selectRange_whole (hstart : a.start = 0) (hlen : a.len = 0) : a.selectRange = a := by
  rw [StoreAsync.selectRange]
  split
  · rfl
  · rw [if_neg (by simp [hstart, hlen])]

/-- Nothing is selected from the data of a request that failed. -/
theorem selectRange_failed (hresult : a.result ≠ 0) : a.selectRange = a := by
  rw [StoreAsync.selectRange]
  split
  · rfl
  · rw [if_neg (by simp [hresult])]

/-- The data of a request whose range the store has selected stays. -/
theorem selectRange_done (hdone : a.rangeDone = true) : a.selectRange = a := by
  rw [StoreAsync.selectRange]
  split
  · rfl
  · rw [if_neg (by simp [hdone])]

/-- Of a whole object, the range inside it is selected. -/
theorem selectRange_slice {object : Bytes} (hop : a.op = .get) (hdata : a.data = some object)
    (hdone : a.rangeDone = false) (hresult : a.result = 0) (hlen : 0 < a.len)
    (hinside : a.start + a.len ≤ object.length) :
    a.selectRange.data = some (slice object a.start a.len) := by
  rw [StoreAsync.selectRange, hdata]
  dsimp only
  rw [if_pos ⟨hop, hdone, hresult, Or.inr (Nat.pos_iff_ne_zero.mp hlen)⟩, if_neg (by omega),
    if_neg (by omega)]

end BlueSky
