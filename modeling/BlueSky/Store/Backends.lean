import BlueSky.Store.Async

/-!
# Stores

What the stores make of a request: the in-memory store, the store of files, the client of the
key-value server, Berkeley DB, the two cloud services, and the store that sends every `GET` twice.
How the medium below behaves is an argument.

Main results:

- Theorem {lit}`markComplete_whole`: the completion of a request without a range.
- Theorem {lit}`multistoreGet_eq`: the store that sends every `GET` twice delivers what the first
  of them delivers.
-/

namespace BlueSky

open Function ByteLib

/-- The objects of a store. -/
abbrev Objects := Bytes → Option Bytes

/-- `memstore_submit`. -/
def memstoreSubmit (store : Objects) (a : StoreAsync) : Objects × StoreAsync :=
  match a.op with
  | .get => (store, { a with data := store a.key }.markComplete)
  | .put => (update store a.key a.data, a.markComplete)

/-- `filestore_submit`; {lit}`succeeds` says whether the file can be read or replaced. -/
def filestoreSubmit (files : Objects) (succeeds : Bool) (a : StoreAsync) : Objects × StoreAsync :=
  match a.op with
  | .get =>
    (files, { a with data := if succeeds then files a.key else none, result := 0 }.markComplete)
  | .put =>
    (if succeeds then update files a.key a.data else files, { a with result := 0 }.markComplete)

/-- `kvstore_task`; {lit}`succeeds` says whether the call of the client does. -/
def kvstoreTask (values : Objects) (succeeds : Bool) (a : StoreAsync) : Objects × StoreAsync :=
  let a := { a with status := .running }
  match a.op with
  | .get =>
    match if succeeds then values a.key else none with
    | some value => (values, { a with data := some value, result := 0 }.markComplete)
    | none => (values, a.markComplete)
  | .put =>
    (if succeeds then update values a.key a.data else values, a.markComplete)

/-! ## Berkeley DB -/

/-- The database: what has been committed, what the transaction sees, and how many operations it
has. -/
structure BdbStore where
  committed : Objects
  current : Objects
  transactionSize : Nat

/-- How the database behaves in one operation. -/
structure BdbOutcome where
  /-- Whether a transaction can be begun. -/
  begins : Bool
  /-- The code of an error. -/
  error : Option { res : Int // res ≠ 0 }
  /-- Whether a transaction can be committed. -/
  commits : Bool

/-- `DB_NOTFOUND`. -/
def dbNotfound : Int := -30988

/-- What `get` of the database returns. -/
def BdbStore.get (s : BdbStore) (o : BdbOutcome) (key : Bytes) : Int × Option Bytes :=
  match o.error with
  | some res => (res, none)
  | none =>
    match s.current key with
    | some value => (0, some value)
    | none => (dbNotfound, none)

/-- What `put` of the database stores; its result is not used. -/
def BdbStore.put (s : BdbStore) (o : BdbOutcome) (key : Bytes) (value : Option Bytes) : Objects :=
  match o.error with
  | some _ => s.current
  | none => update s.current key value

/-- The end of an iteration: the transaction is committed after 64 operations. -/
def BdbStore.finish (s : BdbStore) (o : BdbOutcome) (current : Objects) : BdbStore :=
  if 64 ≤ s.transactionSize + 1 then
    if o.commits then ⟨current, current, 0⟩ else ⟨s.committed, s.committed, 0⟩
  else ⟨s.committed, current, s.transactionSize + 1⟩

/-- One iteration of `bdbstore_thread`; without a transaction there are no more. -/
def bdbstoreStep (s : BdbStore) (o : BdbOutcome) (a : StoreAsync) :
    Option (BdbStore × StoreAsync) :=
  if s.transactionSize = 0 ∧ o.begins = false then none
  else
    let a := { a with status := .running }
    match a.op with
    | .get =>
      let (res, data) := s.get o a.key
      some (s.finish o s.current, { a with result := res, data := data }.markComplete)
    | .put =>
      some (s.finish o (s.put o a.key a.data), { a with result := 0 }.markComplete)

/-! ## Cloud services -/

/-- What an HTTP server answers to a range of bytes: the last one is included. -/
def httpRange (object : Bytes) (first : Nat) : Option Nat → Bytes
  | none => object.drop first
  | some last => slice object first (last + 1 - first)

/-- The `GET` branch of `azurestore_task`. -/
def azurestoreGet (blobs : Objects) (a : StoreAsync) : StoreAsync :=
  let a := { a with status := .running }
  match blobs a.key with
  | none => a.markComplete
  | some object =>
    if a.start ≠ 0 ∧ a.len ≠ 0 then
      { a with
        data := some (httpRange object a.start (some (a.start + a.len)))
        result := 0
        rangeDone := true }.markComplete
    else if a.start ≠ 0 then
      { a with
        data := some (httpRange object a.start none)
        result := 0
        rangeDone := true }.markComplete
    else { a with data := some object, result := 0 }.markComplete

/-- The `GET` branch of `s3store_task`, with the answer of `S3_get_object` to a key, a start and a
number of bytes. -/
def s3storeGet (getObject : Bytes → Nat → Nat → Option Bytes) (a : StoreAsync) : StoreAsync :=
  let a := { a with status := .running, rangeDone := true }
  match getObject a.key a.start a.len with
  | none => a.markComplete
  | some data => { a with data := some data, result := 0 }.markComplete

/-! ## Requests sent twice -/

/-- `multistore_completion_handler`. -/
def multistoreCompletion (async top : StoreAsync) : StoreAsync :=
  if top.status = .running then
    { top with
      data := if top.op = StoreOp.get then async.data else top.data
      result := async.result }.markComplete
  else top

/-- The `GET` branch of `multistore_submit`, with the two requests to the store below. -/
def multistoreGet (first second : StoreAsync → StoreAsync) (a : StoreAsync) : StoreAsync :=
  let request := newAsync .get a.key none
  multistoreCompletion (second request)
    (multistoreCompletion (first request) { a with status := .running })

/-! ## Completions -/

variable {a : StoreAsync}

theorem markComplete_of_ne (h : a.status ≠ .complete) :
    a.markComplete = { a.selectRange with status := .complete } :=
  if_neg h

/-- The completion of a request without a range. -/
theorem markComplete_whole (h : a.status ≠ .complete) (hstart : a.start = 0) (hlen : a.len = 0) :
    a.markComplete = { a with status := .complete } := by
  rw [markComplete_of_ne h, selectRange_whole hstart hlen]

/-- The completion selects the range from the whole object. -/
theorem markComplete_slice {object : Bytes} (h : a.status ≠ .complete) (hop : a.op = .get)
    (hdata : a.data = some object) (hdone : a.rangeDone = false) (hresult : a.result = 0)
    (hlen : 0 < a.len) (hinside : a.start + a.len ≤ object.length) :
    a.markComplete.data = some (slice object a.start a.len) := by
  rw [markComplete_of_ne h]
  exact selectRange_slice hop hdata hdone hresult hlen hinside

/-- The completion of a request that failed leaves the data as they are. -/
theorem markComplete_failed (h : a.status ≠ .complete) (hresult : a.result ≠ 0) :
    a.markComplete.data = a.data := by
  rw [markComplete_of_ne h, selectRange_failed hresult]

/-- The completion of a request whose range has been selected leaves the data as they are. -/
theorem markComplete_done (h : a.status ≠ .complete) (hdone : a.rangeDone = true) :
    a.markComplete.data = a.data := by
  rw [markComplete_of_ne h, selectRange_done hdone]

/-- The first of the two requests decides. -/
theorem multistoreGet_eq (first second : StoreAsync → StoreAsync) (hop : a.op = .get) :
    multistoreGet first second a =
      { a with
        status := .running
        data := (first (newAsync .get a.key none)).data
        result := (first (newAsync .get a.key none)).result }.markComplete := by
  have hfirst : multistoreCompletion (first (newAsync .get a.key none))
      { a with status := .running } =
      { a with
        status := .running
        data := (first (newAsync .get a.key none)).data
        result := (first (newAsync .get a.key none)).result }.markComplete := by
    rw [multistoreCompletion, if_pos rfl, if_pos hop]
  rw [multistoreGet, hfirst, multistoreCompletion, if_neg]
  rw [markComplete_of_ne (by simp)]
  simp

end BlueSky
