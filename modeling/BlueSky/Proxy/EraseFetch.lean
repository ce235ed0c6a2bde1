import BlueSky.Proxy.Listing
import BlueSky.Proxy.Queue

/-!
# Erasing an item and fetching it again

`bluesky_cloudlog_erase` forgets what an item in memory holds, and `bluesky_cloudlog_fetch` reads
it again: from its journal record, if the journal file is still there, or else from the cloud.
Both copies list the locations of the items that the item links to, but as of the time at which
they were written, and reading either of them installs these locations and flags the linked items
as being in the cloud.

The system is that of the threads of the proxy; the records of the journal, and which items have
their data in memory, are kept beside it.

Main results:

- Theorem {lit}`erase_fetch_iff`: an item is restored, and the items that it links to are left
  with the locations of their records exactly if they are in the store and, where the journal
  record is read, were in the cloud log when it was written.
-/

namespace BlueSky

open Function List Option TransitionLib

/-! ## Items in memory -/

/-- The type of an item with given data. -/
def Payload.logType : Payload → LogType
  | data _ => .data
  | inode _ => .inode
  | inodeMap _ => .inodeMap
  | checkpoint _ _ => .checkpoint
  | journalMarker => .journalMarker
  | journalCheckpoint _ _ => .journalCheckpoint

/-- What is erased and fetched of a `BlueSkyCloudLog`. -/
structure MemoryItem where
  type : LogType
  inum : Nat
  links : List (Option Nat)
  data : Option Payload
deriving DecidableEq, Repr

/-- The items in memory, with their flags `CLOUDLOG_CLOUD` and their locations. -/
structure LogMemory where
  item : Nat → MemoryItem
  inCloud : Nat → Bool
  location : Nat → Location

/-- An item as it was created, with or without its data. -/
def Item.inMemory (item : Item) (loaded : Bool) : MemoryItem where
  type := item.payload.logType
  inum := item.inum
  links := item.links
  data := if loaded then some item.payload else none

namespace LogMemory

/-- `bluesky_cloudlog_erase`. -/
def erase (m : LogMemory) (id : Nat) : LogMemory :=
  if (m.item id).type = .unknown then m
  else
    { m with
      item := update m.item id
        { m.item id with type := .unknown, links := [], data := none } }

/-- One turn of the loop over the links in `bluesky_deserialize_cloudlog`. -/
def noteLink (m : LogMemory) : Option (Nat × Location) → LogMemory
  | none => m
  | some (id, l) =>
    { m with
      inCloud := update m.inCloud id true
      location := update m.location id l }

/-- `bluesky_deserialize_cloudlog`. -/
def deserialize (m : LogMemory) (id : Nat) (record : CloudObject) : LogMemory :=
  record.links.foldl noteLink
    { m with
      item := update m.item id
        { type := record.payload.logType
          inum := record.inum
          links := record.links.map (Option.map Prod.fst)
          data := none } }

/-- `bluesky_cloudlog_fetch` of an item, with what `bluesky_log_map_object` finds. -/
def fetch (m : LogMemory) (id : Nat) (found : Option CloudObject) : Option LogMemory :=
  if (m.item id).data.isSome then some m
  else
    found.map fun record =>
      let m := if (m.item id).type = .unknown then m.deserialize id record else m
      { m with item := update m.item id { m.item id with data := some record.payload } }

end LogMemory

/-! ## The proxy with its journal records -/

/-- The proxy, the records of its journal, and the items whose data have been dropped. -/
structure RecordedState where
  proxy : ProxyState
  /-- What the log thread has written for an item. -/
  record : Nat → Option CloudObject
  /-- History: the links of an item that were in the cloud log when the log thread wrote it. -/
  located : Nat → List Nat
  dropped : List Nat

/-- The steps of the threads, and those that drop the data of an item or load them again. -/
inductive RecordedEvent where
  | proxy (e : ProxyState.Event)
  /-- `drop_caches` or `bluesky_file_drop_cached`. -/
  | dropData (id : Nat)
  /-- `bluesky_cloudlog_fetch` of an item whose type is known. -/
  | loadData (id : Nat)
deriving DecidableEq, Repr

namespace RecordedState

/-- An empty file system. -/
def start (disableAggregation : Bool) : RecordedState where
  proxy := .start disableAggregation
  record := fun _ => none
  located := fun _ => []
  dropped := []

/-- The log thread writes the next item of its queue. -/
def writeRecord (s : RecordedState) : RecordedState :=
  match s.proxy.log.queue with
  | [] => s
  | id :: _ =>
    match s.proxy.items[id]? with
    | none => s
    | some item =>
      { s with
        record := update s.record id (some (s.proxy.cloud.object id item))
        located := update s.located id
          (item.links.reduceOption.filter fun j => (s.proxy.cloud.location j).isSome) }

/-- The items in memory. -/
def memory (s : RecordedState) : LogMemory where
  item := fun id =>
    match s.proxy.items[id]? with
    | some item => item.inMemory (id ∉ s.dropped)
    | none => { type := .unknown, inum := 0, links := [], data := none }
  inCloud := fun id => (s.proxy.cloud.location id).any fun l => l.sequence ∈ s.proxy.cloud.stored
  location := fun id => (s.proxy.cloud.location id).getD ⟨0, 0, 0, 0⟩

/-- The journal record of an item, if the file that it is in exists. -/
def journalCopy (s : RecordedState) (id : Nat) : Option CloudObject :=
  match s.proxy.log.entryOf id with
  | some entry => if entry.seq ∈ s.proxy.log.unlinked then none else s.record id
  | none => none

/-- `bluesky_log_map_object`. -/
def mapObject (s : RecordedState) (id : Nat) : Option CloudObject :=
  match s.journalCopy id with
  | some record => some record
  | none =>
    if s.memory.inCloud id then s.proxy.cloud.storeGet (s.memory.location id) else none

/-- One step. -/
def step (s : RecordedState) : RecordedEvent → Option RecordedState
  | .proxy e =>
    (s.proxy.step e).map fun p =>
      { (if e = .logWrite then s.writeRecord else s) with proxy := p }
  | .dropData id =>
    if id ∉ s.proxy.log.queue ∧ (s.mapObject id).isSome then
      some { s with dropped := id :: s.dropped }
    else none
  | .loadData id =>
    if (s.mapObject id).isSome then some { s with dropped := s.dropped.filter (· ≠ id) }
    else none

/-- `bluesky_cloudlog_erase` of an item, which must not be queued for the journal. -/
def erase (s : RecordedState) (id : Nat) : Option LogMemory :=
  if id ∈ s.proxy.log.queue then none else some (s.memory.erase id)

/-- A copy of the item is available. -/
def Available (s : RecordedState) (id : Nat) : Prop :=
  (s.journalCopy id).isSome = true ∨ s.memory.inCloud id = true

/-- All items that an item links to are in the store, and were in the cloud log when the copy that
is read was written. -/
def LinksSettled (s : RecordedState) (id : Nat) (item : Item) : Prop :=
  ∀ j, some j ∈ item.links →
    s.memory.inCloud j = true ∧ ((s.journalCopy id).isSome = true → j ∈ s.located id)

end RecordedState

/-! ## The records of the journal -/

section Records

variable {s s' : RecordedState} {id : Nat} {item : Item}

/-- An item as it is written with given locations of its links. -/
def recordOf (id : Nat) (item : Item) (location : Nat → Location) : CloudObject where
  id := id
  payload := item.payload
  inum := item.inum
  links := item.links.map (Option.map fun j => (j, location j))

namespace RecordedState

/-- The location of a link in the journal record of an item. -/
def recordedLocation (s : RecordedState) (id j : Nat) : Location :=
  if j ∈ s.located id then (s.proxy.cloud.location j).getD ⟨0, 0, 0, 0⟩ else ⟨0, 0, 0, 0⟩

/-- The records of the journal hold the locations that were known when they were written. -/
structure RecordsOk (s : RecordedState) : Prop where
  written : ∀ {entry : JournalEntry}, entry ∈ s.proxy.log.entries →
    ∃ item, s.proxy.items[entry.id]? = some item ∧
      s.record entry.id = some (recordOf entry.id item (s.recordedLocation entry.id))
  placed : ∀ {id j : Nat}, j ∈ s.located id → ∃ l, s.proxy.cloud.location j = some l

theorem recordsOk_start (disableAggregation : Bool) :
    (RecordedState.start disableAggregation).RecordsOk where
  written := nofun
  placed := nofun

/-- Locations do not change, so that the locations in a record stay the right ones. -/
theorem RecordsOk.recordedLocation_eq (h : s.RecordsOk)
    (hcloud : CloudAdvances s.proxy.cloud s'.proxy.cloud)
    (hlocated : s'.located id = s.located id) :
    s'.recordedLocation id = s.recordedLocation id := by
  funext j
  unfold recordedLocation
  rw [hlocated]
  split_ifs with hj
  · rcases h.placed hj with ⟨l, hl⟩
    rw [hl, hcloud.location hl]
  · rfl

/-- A step that writes no record. -/
theorem RecordsOk.advance (h : s.RecordsOk) (hcloud : CloudAdvances s.proxy.cloud s'.proxy.cloud)
    (hitems : s.proxy.items <+: s'.proxy.items)
    (hentries : s'.proxy.log.entries = s.proxy.log.entries) (hrecord : s'.record = s.record)
    (hlocated : s'.located = s.located) : s'.RecordsOk where
  written := by
    intro entry hentry
    rw [hentries] at hentry
    rcases h.written hentry with ⟨item, hitem, hwritten⟩
    refine ⟨item, getElem?_mono hitems hitem, ?_⟩
    rw [hrecord, hwritten, h.recordedLocation_eq hcloud (by rw [hlocated])]
  placed := by
    intro id j hj
    rw [hlocated] at hj
    rcases h.placed hj with ⟨l, hl⟩
    exact ⟨l, hcloud.location hl⟩

/-- What the log thread writes for an item. -/
theorem object_eq_recordOf (s : RecordedState) (id : Nat) (item : Item) (located : Nat → List Nat)
    (hlocated : located id =
      item.links.reduceOption.filter fun j => (s.proxy.cloud.location j).isSome) :
    s.proxy.cloud.object id item =
      recordOf id item ({ s with located := located }.recordedLocation id) := by
  have hlinks : item.links.map (Option.map s.proxy.cloud.linkTo) =
      item.links.map (Option.map fun j =>
        (j, { s with located := located }.recordedLocation id j)) := by
    apply map_congr_left
    intro link hlink
    cases link with
    | none => rfl
    | some j =>
      have hmem : j ∈ item.links.reduceOption := reduceOption_mem_iff.mpr hlink
      simp only [map_some, CloudLogState.linkTo, recordedLocation, hlocated,
        mem_filter, hmem, true_and]
      cases s.proxy.cloud.location j <;> rfl
  unfold CloudLogState.object recordOf
  rw [hlinks]

theorem recordsOk_logWrite {log : JournalLog} (h : s.RecordsOk) (hcore : CoreInv s.proxy)
    (hlog : s.proxy.log.writeNext s.proxy.items = some log) :
    RecordsOk { s.writeRecord with proxy := { s.proxy with log := log } } := by
  rcases writeNext_cases hlog with
    ⟨id, queue, size, seq, offset, committed, hqueue, -, -, -, hentries, -, -, -, -, -⟩
  have horder : id ∈ s.proxy.log.order := by
    apply mem_append_right
    rw [hqueue]
    exact mem_cons_self
  have hitem : ∃ item, s.proxy.items[id]? = some item :=
    ⟨_, getElem?_eq_getElem (hcore.order_lt horder)⟩
  rcases hitem with ⟨item, hitem⟩
  -- The item had no record before.
  have hfresh : ∀ {entry : JournalEntry}, entry ∈ s.proxy.log.entries → entry.id ≠ id := by
    rintro entry hentry rfl
    apply hcore.not_mem_queue hentry
    rw [hqueue]
    exact mem_cons_self
  have hwrite : s.writeRecord =
      { s with
        record := update s.record id (some (s.proxy.cloud.object id item))
        located := update s.located id
          (item.links.reduceOption.filter fun j => (s.proxy.cloud.location j).isSome) } := by
    unfold writeRecord
    rw [hqueue]
    dsimp only
    rw [hitem]
  rw [hwrite]
  refine ⟨?_, ?_⟩
  · intro entry hentry
    dsimp only at hentry ⊢
    rw [hentries] at hentry
    rcases mem_append.mp hentry with hold | hnew
    · rcases h.written hold with ⟨old, hold', hwritten⟩
      refine ⟨old, hold', ?_⟩
      rw [update_of_ne (hfresh hold), hwritten]
      refine congrArg (fun location => some (recordOf entry.id old location)) (Eq.symm ?_)
      apply h.recordedLocation_eq
      · exact CloudAdvances.refl _
      · exact update_of_ne (hfresh hold) _ _
    · rw [mem_singleton.mp hnew]
      refine ⟨item, hitem, ?_⟩
      rw [update_self, object_eq_recordOf s id item _ (update_self id _ _)]
      rfl
  · intro k j hj
    dsimp only at hj ⊢
    by_cases hk : k = id
    · subst hk
      rw [update_self] at hj
      exact isSome_iff_exists.mp (mem_filter.mp hj).2
    · rw [update_of_ne hk] at hj
      exact h.placed hj

/-- All invariants that reading an item rests on. -/
structure RecordedInv (s : RecordedState) : Prop where
  ahead : WriteAheadInv s.proxy
  flush : FlushInv s.proxy
  queue : QueueInv s.proxy
  records : s.RecordsOk

theorem recordedInv_start (disableAggregation : Bool) :
    (RecordedState.start disableAggregation).RecordedInv where
  ahead := ⟨coreInv_start _, positionsOk_start _, journalFirst_start _⟩
  flush := flushInv_start _
  queue := queueInv_start _
  records := recordsOk_start _

theorem recordedInv_proxy {e : ProxyState.Event} {p : ProxyState} (h : s.RecordedInv)
    (hstep : s.proxy.step e = some p) :
    RecordedInv { (if e = .logWrite then s.writeRecord else s) with proxy := p } where
  ahead := writeAheadInv_step h.ahead hstep
  flush := flushInv_step h.ahead.core h.flush hstep
  queue := queueInv_step h.queue h.ahead hstep
  records := by
    by_cases he : e = .logWrite
    · subst he
      cases stepped hstep with | logWrite log hlog => ?_
      exact recordsOk_logWrite h.records h.ahead.core hlog
    · have hentries : p.log.entries = s.proxy.log.entries := by
        rcases journal_step hstep with hsame | ⟨heq, -⟩ | hcommit
        · exact hsame.entries
        · exact absurd heq he
        · rw [hcommit]
          rfl
      rw [if_neg he]
      exact h.records.advance (cloud_step h.ahead.core hstep) (items_step hstep) hentries rfl rfl

theorem recordedInv_step {e : RecordedEvent} (h : s.RecordedInv) (hstep : s.step e = some s') :
    s'.RecordedInv := by
  have hsame : s'.proxy = s.proxy → s'.record = s.record → s'.located = s.located →
      s'.RecordedInv := by
    intro hproxy hrecord hlocated
    refine ⟨hproxy ▸ h.ahead, hproxy ▸ h.flush, hproxy ▸ h.queue, ?_⟩
    apply h.records.advance _ _ _ hrecord hlocated
    · rw [hproxy]
      exact CloudAdvances.refl _
    · rw [hproxy]
    · rw [hproxy]
  cases e with
  | proxy e =>
    rcases map_eq_some_iff.mp hstep with ⟨p, hp, rfl⟩
    exact recordedInv_proxy h hp
  | dropData id | loadData id =>
    simp only [step] at hstep
    split_ifs at hstep
    cases some.inj hstep
    exact hsame rfl rfl rfl

/-! ## What is read -/

/-- The store holds a record of the item at the location. -/
def StoredAt (s : RecordedState) (j : Nat) (l : Location) : Prop :=
  ∃ object, s.proxy.cloud.storeGet l = some object ∧ object.id = j

theorem not_storedAt_zero (s : RecordedState) (j : Nat) : ¬ s.StoredAt j ⟨0, 0, 0, 0⟩ := by
  rintro ⟨object, hget, -⟩
  rcases at_of_storeGet hget with ⟨segment, -, hobject⟩
  have hsize : object.size = 0 := (segmentGet_eq_some.mp hobject).2
  exact absurd hsize (Nat.ne_of_gt object.size_pos)

/-- The record of an item that is in the cloud log is in the store if its segment is. -/
theorem storedAt_iff (h : s.RecordedInv) {j : Nat} {l : Location}
    (hl : s.proxy.cloud.location j = some l) : s.StoredAt j l ↔ s.memory.inCloud j = true := by
  have hcloud : s.memory.inCloud j = true ↔ l.sequence ∈ s.proxy.cloud.stored := by
    simp [memory, hl]
  rw [hcloud]
  constructor
  · rintro ⟨object, hget, -⟩
    unfold CloudLogState.storeGet CloudLogState.storedSegment at hget
    split_ifs at hget with hdir hstored
    · exact hstored
    · cases hget
  · intro hstored
    rcases h.ahead.core.cloud.placed hl with ⟨item, hitem, hdir, hat, -⟩
    exact ⟨_, storeGet_of_at hat hdir (h.flush.stored_lt _ hstored) hstored, rfl⟩

/-- A journal record is that of a record of the log. -/
theorem journalCopy_cases {record : CloudObject} (h : s.journalCopy id = some record) :
    ∃ entry ∈ s.proxy.log.entries, entry.id = id ∧ s.record id = some record := by
  unfold journalCopy at h
  cases hentry : s.proxy.log.entryOf id with
  | none => simp [hentry] at h
  | some entry =>
    rw [hentry] at h
    dsimp only at h
    split_ifs at h
    exact ⟨entry, mem_of_find?_eq_some hentry, by simpa using find?_some hentry, h⟩

theorem location_of_inCloud (h : s.memory.inCloud id = true) :
    ∃ l, s.proxy.cloud.location id = some l ∧ l.sequence ∈ s.proxy.cloud.stored := by
  rcases (Option.any_eq_true _ _).mp h with ⟨l, hl, hstored⟩
  exact ⟨l, hl, of_decide_eq_true hstored⟩

/-- The locations that are read from the copy of an item. -/
theorem mapObject_spec (h : s.RecordedInv) (hitem : s.proxy.items[id]? = some item)
    (havailable : s.Available id) :
    ∃ location, s.mapObject id = some (recordOf id item location) ∧
      ((∀ j, some j ∈ item.links → s.StoredAt j (location j)) ↔ s.LinksSettled id item) := by
  cases hcopy : s.journalCopy id with
  | some record =>
    have hrecord : record = recordOf id item (s.recordedLocation id) := by
      rcases journalCopy_cases hcopy with ⟨entry, hentry, rfl, hrecord⟩
      rcases h.records.written hentry with ⟨item', hitem', hwritten⟩
      rw [hitem, some_inj] at hitem'
      subst hitem'
      rw [hrecord] at hwritten
      exact some.inj hwritten
    refine ⟨s.recordedLocation id, by rw [mapObject, hcopy, hrecord], ?_⟩
    unfold LinksSettled
    apply forall_congr'
    intro j
    apply imp_congr_right
    intro hj
    rw [hcopy]
    unfold recordedLocation
    split_ifs with hlocated
    · rcases h.records.placed hlocated with ⟨l, hl⟩
      rw [hl, getD_some, storedAt_iff h hl]
      simp [hlocated]
    · simp [hlocated, not_storedAt_zero]
  | none =>
    have hcloud : s.memory.inCloud id = true := by
      rcases havailable with hjournal | hcloud
      · rw [hcopy] at hjournal
        cases hjournal
      · exact hcloud
    rcases location_of_inCloud hcloud with ⟨l, hl, hstored⟩
    rcases h.ahead.core.cloud.placed hl with ⟨item', hitem', hdir, hat, hlinks⟩
    rw [hitem, some_inj] at hitem'
    subst hitem'
    have hget := storeGet_of_at hat hdir (h.flush.stored_lt _ hstored) hstored
    refine ⟨s.memory.location, ?_, ?_⟩
    · rw [mapObject, hcopy]
      dsimp only
      rw [if_pos hcloud]
      simp only [memory, hl, getD_some, hget]
      rfl
    · unfold LinksSettled
      apply forall_congr'
      intro j
      apply imp_congr_right
      intro hj
      rcases hlinks hj with ⟨l', hl', -⟩
      have hlocation : s.memory.location j = l' := by
        simp [memory, hl']
      rw [hcopy, hlocation, storedAt_iff h hl']
      simp

end RecordedState

/-! ## Erasing and fetching -/

namespace LogMemory

/-- The loop over the links installs the location of each link. -/
theorem foldl_noteLink (location : Nat → Location) (links : List (Option Nat)) (m : LogMemory) :
    let m' := (links.map (Option.map fun j => (j, location j))).foldl noteLink m
    m'.item = m.item ∧ ∀ j,
      (some j ∈ links → m'.inCloud j = true ∧ m'.location j = location j) ∧
      (some j ∉ links → m'.inCloud j = m.inCloud j ∧ m'.location j = m.location j) := by
  induction links generalizing m with
  | nil => exact ⟨rfl, fun j => ⟨nofun, fun _ => ⟨rfl, rfl⟩⟩⟩
  | cons link links ih =>
    cases link with
    | none =>
      rcases ih m with ⟨hitem, hlinks⟩
      refine ⟨hitem, fun j => ⟨?_, ?_⟩⟩
      · intro hj
        exact (hlinks j).1 (by simpa using hj)
      · intro hj
        exact (hlinks j).2 (by simpa using hj)
    | some k =>
      rcases ih (m.noteLink (some (k, location k))) with ⟨hitem, hlinks⟩
      refine ⟨hitem, fun j => ⟨?_, ?_⟩⟩
      · intro hj
        by_cases hrest : some j ∈ links
        · exact (hlinks j).1 hrest
        · have hjk : j = k := by
            simpa [hrest] using hj
          subst hjk
          rcases (hlinks j).2 hrest with ⟨hcloud, hlocation⟩
          refine ⟨hcloud.trans ?_, hlocation.trans ?_⟩
          · simp [noteLink]
          · simp [noteLink]
      · intro hj
        have hjk : j ≠ k := by
          rintro rfl
          exact hj mem_cons_self
        rcases (hlinks j).2 (fun hrest => hj (mem_cons_of_mem _ hrest)) with
          ⟨hcloud, hlocation⟩
        refine ⟨hcloud.trans ?_, hlocation.trans ?_⟩
        · simp [noteLink, hjk]
        · simp [noteLink, hjk]

/-- After an erase nothing is known about an item. -/
theorem item_erase {m : LogMemory} {id : Nat} (hknown : (m.item id).type ≠ .unknown) :
    ((m.erase id).item id).type = .unknown ∧ ((m.erase id).item id).data = none := by
  unfold erase
  rw [if_neg hknown]
  simp

/-- Reading a record. -/
theorem deserialize_recordOf (m : LogMemory) (id : Nat) (item : Item) (location : Nat → Location) :
    (m.deserialize id (recordOf id item location)).item id = item.inMemory false ∧
      ∀ j, some j ∈ item.links →
        (m.deserialize id (recordOf id item location)).inCloud j = true ∧
          (m.deserialize id (recordOf id item location)).location j = location j := by
  rcases foldl_noteLink location item.links
      { m with
        item := update m.item id
          { type := item.payload.logType
            inum := item.inum
            links := (recordOf id item location).links.map (Option.map Prod.fst)
            data := none } } with ⟨hitem, hlinks⟩
  refine ⟨?_, fun j => (hlinks j).1⟩
  have hids : (recordOf id item location).links.map (Option.map Prod.fst) = item.links := by
    simp [recordOf, Function.comp_def]
  refine (congrFun hitem id).trans ?_
  dsimp only
  rw [update_self, hids]
  rfl

/-- Fetching an item about which nothing is known. -/
theorem fetch_recordOf {m : LogMemory} {id : Nat} (htype : (m.item id).type = .unknown)
    (hdata : (m.item id).data = none) (item : Item) (location : Nat → Location) :
    ∃ m', m.fetch id (some (recordOf id item location)) = some m' ∧
      m'.item id = item.inMemory true ∧
      ∀ j, some j ∈ item.links → m'.inCloud j = true ∧ m'.location j = location j := by
  rcases deserialize_recordOf m id item location with ⟨hitem, hlinks⟩
  have hfetch : m.fetch id (some (recordOf id item location)) = some
      { m.deserialize id (recordOf id item location) with
        item := update (m.deserialize id (recordOf id item location)).item id
          (item.inMemory true) } := by
    unfold fetch
    rw [hdata, isSome_none, if_neg Bool.false_ne_true]
    simp only [map_some, htype, if_true, hitem]
    rfl
  exact ⟨_, hfetch, update_self id _ _, hlinks⟩

end LogMemory

theorem Payload.logType_ne_unknown (payload : Payload) : payload.logType ≠ .unknown := by
  cases payload <;> exact nofun

theorem invariant_of_reachable {ok : RecordedState → RecordedEvent → Prop}
    {disableAggregation : Bool}
    (hs : Reachable RecordedState.step ok (.start disableAggregation) s) : s.RecordedInv :=
  hs.invariant (RecordedState.recordedInv_start disableAggregation)
    fun _ _ _ h _ hstep => RecordedState.recordedInv_step h hstep

/-- An item of which a copy is available can be erased. -/
theorem not_mem_queue_of_available (h : s.RecordedInv) (havailable : s.Available id) :
    id ∉ s.proxy.log.queue := by
  rcases havailable with hjournal | hcloud
  · rcases isSome_iff_exists.mp hjournal with ⟨record, hcopy⟩
    rcases RecordedState.journalCopy_cases hcopy with ⟨entry, hentry, rfl, -⟩
    exact h.ahead.core.not_mem_queue hentry
  · rcases RecordedState.location_of_inCloud hcloud with ⟨l, hl, -⟩
    exact h.queue.located hl

/-- Whatever the threads have done before: erasing an item of which a copy is available, and
fetching it again, restores its type, its inode number, its data and its links.  The items that it
links to are then flagged as being in the cloud; the store holds records of them at their
locations exactly if the links of the item were settled. -/
theorem erase_fetch_iff (disableAggregation : Bool) (s : RecordedState)
    (hs : Reachable RecordedState.step (fun _ _ => True) (.start disableAggregation) s) (id : Nat)
    (item : Item) (hitem : s.proxy.items[id]? = some item) (havailable : s.Available id) :
    ∃ m m', s.erase id = some m ∧ m.fetch id (s.mapObject id) = some m' ∧
      m'.item id = item.inMemory true ∧
      ((∀ j, some j ∈ item.links → m'.inCloud j = true → s.StoredAt j (m'.location j)) ↔
        s.LinksSettled id item) := by
  have hinv := invariant_of_reachable hs
  rcases RecordedState.mapObject_spec hinv hitem havailable with ⟨location, hmap, hsettled⟩
  have hmemory : s.memory.item id = item.inMemory (id ∉ s.dropped) := by
    simp only [RecordedState.memory, hitem]
  have hknown : (s.memory.item id).type ≠ .unknown := by
    rw [hmemory]
    exact item.payload.logType_ne_unknown
  rcases LogMemory.item_erase hknown with ⟨htype, hdata⟩
  rcases LogMemory.fetch_recordOf htype hdata item location with ⟨m', hfetch, hrestored, hlinks⟩
  refine ⟨s.memory.erase id, m', if_neg (not_mem_queue_of_available hinv havailable),
    by rw [hmap, hfetch], hrestored, ?_⟩
  rw [← hsettled]
  apply forall_congr'
  intro j
  apply imp_congr_right
  intro hj
  rcases hlinks j hj with ⟨hcloud, hlocation⟩
  rw [hcloud, hlocation]
  simp

end Records

/-! ## A stale journal record -/

/-- A file of three bytes is synchronized, and a flush of it completes. -/
def flushedFile : List RecordedEvent :=
  [.modify 2 { emptyDirectory with body := .regular 3 } [.dirty [1, 2, 3]], .startSync 2,
    .logWrite, .logWrite, .logCommit, .finishSync 2, .getCommitPoint, .logWrite, .logCommit,
    .readSeqNum, .drain 2, .endDrain, .writeMap, .putComplete 0, .writeCommitPoint, .logWrite,
    .logCommit, .finishFlush].map .proxy

/-- Then its mode is changed, and it is synchronized again with the same block. -/
def touchedFile : List RecordedEvent :=
  flushedFile ++
    [.modify 2 { emptyDirectory with mode := 420, body := .regular 3 } [.ref 0], .startSync 2,
      .logWrite, .logCommit, .finishSync 2].map .proxy

/-- The new version of the inode links to a block that is in the store since before the version
was written to the journal. -/
theorem erase_fetch_iff_touched :
    ∃ s item m m', Reachable RecordedState.step (fun _ _ => True) (.start false) s ∧
      s.proxy.items[6]? = some item ∧ item.links = [some 0] ∧ s.LinksSettled 6 item ∧
      s.erase 6 = some m ∧ m.fetch 6 (s.mapObject 6) = some m' ∧
      m'.item 6 = item.inMemory true ∧
      (∀ j, some j ∈ item.links → m'.inCloud j = true → s.StoredAt j (m'.location j)) := by
  have hfacts : ∃ s ∈ runWhile RecordedState.step (fun _ _ => True) (.start false) touchedFile,
      ∃ item ∈ s.proxy.items[6]?, item.links = [some 0] ∧ (s.journalCopy 6).isSome = true ∧
        s.memory.inCloud 0 = true ∧ 0 ∈ s.located 6 := by
    decide +kernel
  rcases hfacts with ⟨s, hrun, item, hitem, hlinks, hcopy, hcloud, hlocated⟩
  have hreach : Reachable RecordedState.step (fun _ _ => True) (.start false) s :=
    reachable_of_runWhile .start hrun
  have hsettled : s.LinksSettled 6 item := by
    intro j hj
    rw [hlinks, mem_singleton, some_inj] at hj
    subst hj
    exact ⟨hcloud, fun _ => hlocated⟩
  rcases erase_fetch_iff false s hreach 6 item hitem (Or.inl hcopy) with
    ⟨m, m', herase, hfetch, hrestored, hiff⟩
  exact ⟨s, item, m, m', hreach, hitem, hlinks, hsettled, herase, hfetch, hrestored,
    hiff.mpr hsettled⟩

/-- The first version of the inode was written to the journal before its block was in the cloud.
Fetching it again replaces the location of the block, which is in the store, by zeros. -/
theorem stale_location_installed :
    ∃ s m m', Reachable RecordedState.step (fun _ _ => True) (.start false) s ∧
      s.memory.inCloud 0 = true ∧ s.StoredAt 0 (s.memory.location 0) ∧
      s.erase 1 = some m ∧ m.fetch 1 (s.mapObject 1) = some m' ∧
      (m'.item 1).links = [some 0] ∧ m'.inCloud 0 = true ∧
      m'.location 0 = ⟨0, 0, 0, 0⟩ ∧ ¬ s.StoredAt 0 (m'.location 0) := by
  have hfacts : ∃ s ∈ runWhile RecordedState.step (fun _ _ => True) (.start false) flushedFile,
      ∃ m ∈ s.erase 1, ∃ m' ∈ m.fetch 1 (s.mapObject 1), s.memory.inCloud 0 = true ∧
        (∃ object ∈ s.proxy.cloud.storeGet (s.memory.location 0), object.id = 0) ∧
        (m'.item 1).links = [some 0] ∧ m'.inCloud 0 = true ∧ m'.location 0 = ⟨0, 0, 0, 0⟩ := by
    decide +kernel
  rcases hfacts with
    ⟨s, hrun, m, herase, m', hfetch, hcloud, hstored, hlinks, hflag, hlocation⟩
  refine ⟨s, m, m', reachable_of_runWhile .start hrun, hcloud, hstored, herase, hfetch, hlinks,
    hflag, hlocation, ?_⟩
  rw [hlocation]
  exact s.not_storedAt_zero 0

end BlueSky
