import BlueSky.Store.Backends
import BlueSky.Store.Simple

/-!
# Range reads

A request for a part of an object is answered by the store itself, or the store fetches the object
and the completion selects the part.

Main results:

- Theorem {lit}`fetch_whole`: a request without a range delivers the object.
- Theorem {lit}`fetch_range_iff`: the bytes that are delivered are the ones asked for, except from
  the in-memory store, which never reports success, and from the cloud service whose range ends one
  byte too late.
-/

namespace BlueSky

open List ByteLib DecimalLib SocketLib

/-- A store with the objects it holds.  The two parts of the store that sends every request twice
are how the store below answers the request that completes first and the other one. -/
inductive StoreState where
  | mem (store : Objects)
  | file (files : Objects)
  | kv (values : Objects)
  | bdb (database : BdbStore)
  | azure (blobs : Objects)
  | s3 (getObject : Bytes → Nat → Nat → Option Bytes)
  | simple (disk : Disk) (conn : Connection)
  | multi (first second : StoreState)

/-- A database without failures. -/
def BdbOutcome.success : BdbOutcome := ⟨true, none, true⟩

/-- The request when its `GET` has completed. -/
def StoreState.fetch : StoreState → StoreAsync → StoreAsync
  | .mem store, a => (memstoreSubmit store a).2
  | .file files, a => (filestoreSubmit files true a).2
  | .kv values, a => (kvstoreTask values true a).2
  | .bdb database, a => ((bdbstoreStep database .success a).map Prod.snd).getD a
  | .azure blobs, a => azurestoreGet blobs a
  | .s3 getObject, a => s3storeGet getObject a
  | .simple disk conn, a => (simplestoreTask disk conn a).2
  | .multi first second, a => multistoreGet first.fetch second.fetch a

/-- A connection on which everything arrives. -/
structure Connection.Perfect (conn : Connection) : Prop where
  connects : conn.connects = true
  sends : conn.sends = none
  arrives : conn.arrives = none
  replies : conn.replies = none

/-- The store has the object under the key and can deliver it.  The library for S3 does with a range
as the service says: 0 bytes stand for all that follow. -/
def StoreState.Holds (key object : Bytes) : StoreState → Prop
  | .mem store => store key = some object
  | .file files => files key = some object
  | .kv values => values key = some object
  | .bdb database => database.current key = some object
  | .azure blobs => blobs key = some object
  | .s3 getObject => ∀ start len, getObject key start len =
      some (if len = 0 then object.drop start else slice object start len)
  | .simple disk conn => disk.files (normalizePath key) = some object ∧ ServerKey key ∧
      object.length ≤ maxObjectSize ∧ conn.Perfect ∧ disk.next.opens = true ∧
      none ∉ disk.next.reads
  | .multi first second => first.Holds key object ∧ second.Holds key object

/-- The object itself comes from an in-memory store. -/
def StoreState.fromMem : StoreState → Bool
  | .mem _ => true
  | .multi first _ => first.fromMem
  | _ => false

/-- A `GET` of a range. -/
def rangeRequest (key : Bytes) (start len : Nat) : StoreAsync :=
  { newAsync .get key none with start := start, len := len }

/-! ## Each store -/

section Stores

variable {key object : Bytes} {start len : Nat}

/-- A range is the whole object only if it starts at its start and ends at its end. -/
theorem slice_eq_self_iff (hinside : start + len ≤ object.length) :
    object = slice object start len ↔ start = 0 ∧ len = object.length := by
  constructor
  · intro h
    have hlength := congrArg List.length h
    rw [slice, length_take, length_drop] at hlength
    omega
  · rintro ⟨hstart, hall⟩
    rw [hstart, hall, slice, drop_zero, take_length]

/-- One byte more than the range, unless the object ends there. -/
theorem slice_succ_iff (hinside : start + len ≤ object.length) :
    slice object start (len + 1) = slice object start len ↔ start + len = object.length := by
  constructor
  · intro h
    have hlength := congrArg List.length h
    simp only [slice, length_take, length_drop] at hlength
    omega
  · intro h
    rw [slice, slice, take_of_length_le (by rw [length_drop]; omega),
      take_of_length_le (by rw [length_drop]; omega)]

theorem azurestoreGet_range {blobs : Objects} (h : blobs key = some object) (hlen : 0 < len)
    (hinside : start + len ≤ object.length) :
    (azurestoreGet blobs (rangeRequest key start len)).data = some (slice object start len) ↔
      start = 0 ∨ start + len = object.length := by
  have hblob : blobs (rangeRequest key start len).key = some object := h
  rw [azurestoreGet, hblob]
  by_cases hstart : start = 0
  · have hnone : ¬((rangeRequest key start len).start ≠ 0) := not_not.mpr hstart
    dsimp only
    rw [if_neg (fun hboth => hnone hboth.1), if_neg hnone]
    exact iff_of_true (markComplete_slice (by simp) rfl rfl rfl rfl hlen hinside) (Or.inl hstart)
  · have hboth : (rangeRequest key start len).start ≠ 0 ∧ (rangeRequest key start len).len ≠ 0 :=
      ⟨hstart, Nat.pos_iff_ne_zero.mp hlen⟩
    dsimp only
    rw [if_pos hboth, markComplete_done (by simp) rfl]
    change some (slice object start (start + len + 1 - start)) = _ ↔ _
    rw [show start + len + 1 - start = len + 1 by omega, Option.some_inj, slice_succ_iff hinside]
    simp [hstart]

/-- What the client of the simple server gets for an object, or for a range of it. -/
theorem simplestoreTask_get {disk : Disk} {conn : Connection}
    (h : (StoreState.simple disk conn).Holds key object)
    (hstart : start < 2 ^ 31) (hlen : len < 2 ^ 31) :
    (simplestoreTask disk conn (rangeRequest key start len)).2 =
      { rangeRequest key start len with
        status := .complete
        data := some (slice object (getRange object.length start len).1
          (getRange object.length start len).2)
        rangeDone := true
        result := 0 } := by
  rcases h with ⟨hfile, hkey, hsize, hconn, hopens, hreads⟩
  have hrequest : ∀ bytes, conn.complete bytes = true := by
    intro bytes
    simp [Connection.complete, Connection.arrived, hconn.arrives, hconn.sends, passed]
  have hserved := served_exchange (wellFormed_getRequest hkey hstart hlen) ⟨hstart, hlen⟩ conn disk
  rw [if_pos (hrequest _)] at hserved
  have hle := getRange_le object.length start len
  have hlength : (slice object (getRange object.length start len).1
      (getRange object.length start len).2).length = (getRange object.length start len).2 := by
    rw [slice, length_take, length_drop]
    omega
  have hmax : maxObjectSize < 2 ^ 31 := by decide
  have houtput : (conn.reply (conn.served disk (getRequest key start len).encode)).incoming =
      getReply object start len disk.next.reads := by
    rw [Connection.reply, hserved, hconn.replies]
    change [] ++ (cmdGet disk (normalizePath key) start len).2 = _
    rw [nil_append, cmdGet, hfile]
    exact if_pos hopens
  have hreply : readReply (conn.reply (conn.served disk (getRequest key start len).encode)) =
      some (slice object (getRange object.length start len).1
        (getRange object.length start len).2) := by
    rw [getReply_eq hreads] at houtput
    rw [readReply_header (by omega) houtput (Nat.le_of_eq hlength), if_pos hlength]
  rw [simplestoreTask]
  dsimp only [rangeRequest, newAsync]
  rw [if_pos hconn.connects]
  dsimp only
  rw [if_pos (sent_of_complete (hrequest _)), StoreAsync.getReply, hreply]
  dsimp only
  rw [markComplete_of_ne (by simp), selectRange_done rfl]

end Stores

/-! ## Whole objects -/

/-- The stores that fetch a whole object and leave the range to the library. -/
def StoreState.fetchesWhole : StoreState → Bool
  | .mem _ | .file _ | .kv _ | .bdb _ => true
  | _ => false

/-- A request before its range is selected. -/
def fetched (status : AsyncStatus) (fromMem : Bool) (key object : Bytes) (start len : Nat) :
    StoreAsync :=
  { rangeRequest key start len with
    status := status, data := some object, result := if fromMem then -1 else 0 }

theorem fetch_eq_fetched {s : StoreState} {key object : Bytes} (h : s.Holds key object)
    (hwhole : s.fetchesWhole = true) (start len : Nat) :
    ∃ status, status ≠ .complete ∧ s.fetch (rangeRequest key start len) =
      (fetched status s.fromMem key object start len).markComplete := by
  cases s with
  | mem store =>
    change store key = some object at h
    exact ⟨.new, by decide, by simp [StoreState.fetch, memstoreSubmit, fetched, rangeRequest,
      newAsync, h, StoreState.fromMem]⟩
  | file files =>
    change files key = some object at h
    exact ⟨.new, by decide, by simp [StoreState.fetch, filestoreSubmit, fetched, rangeRequest,
      newAsync, h, StoreState.fromMem]⟩
  | kv values =>
    change values key = some object at h
    exact ⟨.running, by decide, by simp [StoreState.fetch, kvstoreTask, fetched, rangeRequest,
      newAsync, h, StoreState.fromMem]⟩
  | bdb database =>
    change database.current key = some object at h
    exact ⟨.running, by decide, by simp [StoreState.fetch, bdbstoreStep, BdbStore.get,
      BdbOutcome.success, fetched, rangeRequest, newAsync, h, StoreState.fromMem]⟩
  | azure _ | s3 _ | simple _ _ | multi _ _ => cases hwhole

/-- A request without a range delivers the object; it succeeds unless the object comes from an
in-memory store. -/
theorem fetch_whole {s : StoreState} {key object : Bytes} (h : s.Holds key object) :
    (s.fetch (newAsync .get key none)).data = some object ∧
      (s.fetch (newAsync .get key none)).result = if s.fromMem then -1 else 0 := by
  induction s with
  | mem _ | file _ | kv _ | bdb _ =>
    rcases fetch_eq_fetched h rfl 0 0 with ⟨status, hstatus, hfetch⟩
    change (StoreState.fetch _ (rangeRequest key 0 0)).data = _ ∧
      (StoreState.fetch _ (rangeRequest key 0 0)).result = _
    rw [hfetch, markComplete_whole hstatus rfl rfl]
    exact ⟨rfl, rfl⟩
  | azure blobs =>
    change blobs key = some object at h
    simp [StoreState.fetch, azurestoreGet, newAsync, h, StoreState.fromMem,
      StoreAsync.markComplete, StoreAsync.selectRange]
  | s3 getObject =>
    change ∀ start len, getObject key start len = _ at h
    simp [StoreState.fetch, s3storeGet, newAsync, h, StoreState.fromMem,
      StoreAsync.markComplete, StoreAsync.selectRange]
  | simple disk conn =>
    have hget := @simplestoreTask_get key object 0 0 disk conn h (by decide) (by decide)
    rw [show ((0 : Nat) : Int) = 0 from rfl, getRange_whole] at hget
    change (simplestoreTask disk conn (rangeRequest key 0 0)).2.data = _ ∧
      (simplestoreTask disk conn (rangeRequest key 0 0)).2.result = _
    rw [hget]
    exact ⟨by rw [slice, drop_zero, take_length], rfl⟩
  | multi first second ihfirst _ =>
    rcases ihfirst h.1 with ⟨hdata, hresult⟩
    rw [StoreState.fetch, multistoreGet_eq _ _ rfl]
    dsimp only [newAsync] at hdata hresult ⊢
    rw [hdata, hresult, markComplete_whole (by simp) rfl rfl]
    exact ⟨rfl, rfl⟩

/-! ## Ranges -/

/-- The ranges that a store delivers as they were asked for. -/
def StoreState.RangesRight (start len size : Nat) : StoreState → Prop
  | .mem _ => start = 0 ∧ len = size
  | .azure _ => start = 0 ∨ start + len = size
  | .multi first _ => first.fromMem = true → start = 0 ∧ len = size
  | _ => True

/-- Nothing is selected from what an in-memory store delivers. -/
theorem fetched_range_iff {status : AsyncStatus} (hstatus : status ≠ .complete) {fromMem : Bool}
    {key object : Bytes} {start len : Nat} (hlen : 0 < len)
    (hinside : start + len ≤ object.length) :
    (fetched status fromMem key object start len).markComplete.data =
        some (slice object start len) ↔
      (fromMem = true → start = 0 ∧ len = object.length) := by
  cases fromMem with
  | true =>
    rw [markComplete_failed hstatus (by simp [fetched])]
    change some object = _ ↔ _
    rw [Option.some_inj, slice_eq_self_iff hinside]
    simp
  | false =>
    exact iff_of_true (markComplete_slice hstatus rfl rfl rfl rfl hlen hinside) (by simp)

/-- The bytes that are delivered are the ones asked for, exactly where the store can do so. -/
theorem fetch_range_iff {s : StoreState} {key object : Bytes} {start len : Nat}
    (h : s.Holds key object) (hlen : 0 < len) (hinside : start + len ≤ object.length) :
    (s.fetch (rangeRequest key start len)).data = some (slice object start len) ↔
      s.RangesRight start len object.length := by
  cases s with
  | mem _ | file _ | kv _ | bdb _ =>
    rcases fetch_eq_fetched h rfl start len with ⟨status, hstatus, hfetch⟩
    rw [hfetch, fetched_range_iff hstatus hlen hinside]
    simp [StoreState.fromMem, StoreState.RangesRight]
  | azure blobs => exact azurestoreGet_range h hlen hinside
  | s3 getObject =>
    have hobject : getObject key start len = some (slice object start len) := by
      rw [h start len, if_neg (Nat.pos_iff_ne_zero.mp hlen)]
    refine iff_of_true ?_ trivial
    rw [StoreState.fetch, s3storeGet]
    dsimp only [rangeRequest, newAsync]
    rw [hobject]
    dsimp only
    rw [markComplete_done (by simp) rfl]
  | simple disk conn =>
    have hmax : maxObjectSize < 2 ^ 31 := by decide
    have hsize := h.2.2.1
    refine iff_of_true ?_ trivial
    rw [StoreState.fetch, simplestoreTask_get h (by omega) (by omega), getRange_eq hlen hinside]
  | multi first second =>
    rcases fetch_whole h.1 with ⟨hdata, hresult⟩
    rw [StoreState.fetch, multistoreGet_eq _ _ rfl]
    change (StoreAsync.markComplete { rangeRequest key start len with
      status := .running
      data := (first.fetch (newAsync .get key none)).data
      result := (first.fetch (newAsync .get key none)).result }).data = _ ↔ _
    rw [hdata, hresult]
    exact fetched_range_iff (by decide) hlen hinside

/-- Three bytes, of which the one in the middle is asked for. -/
def rangeObject : Bytes := [1, 2, 3]

/-- A store of files that is asked twice. -/
def rangeStore : StoreState :=
  .multi (.file fun _ => some rangeObject) (.file fun _ => some rangeObject)

theorem fetch_range_middle :
    rangeStore.Holds [97] rangeObject ∧
      (rangeStore.fetch (rangeRequest [97] 1 1)).data = some [2] :=
  ⟨⟨rfl, rfl⟩, (fetch_range_iff (show rangeStore.Holds [97] rangeObject from ⟨rfl, rfl⟩)
    (by decide) (by decide)).mpr (fun h => by cases h)⟩

/-- The cloud service is asked for a range that ends one byte too late, and the in-memory store
delivers the whole object. -/
theorem fetch_range_wrong :
    (StoreState.azure fun _ => some rangeObject).Holds [97] rangeObject ∧
      ((StoreState.azure fun _ => some rangeObject).fetch (rangeRequest [97] 1 1)).data =
        some [2, 3] ∧
      ((StoreState.mem fun _ => some rangeObject).fetch (rangeRequest [97] 1 1)).data =
        some [1, 2, 3] ∧
      slice rangeObject 1 1 = [2] := by
  refine ⟨rfl, ?_, ?_, ?_⟩ <;> decide

end BlueSky
