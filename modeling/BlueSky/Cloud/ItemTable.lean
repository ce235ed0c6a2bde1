import BlueSky.Format
import Mathlib.Logic.Function.Basic

/-!
# The life of a log item

The file system counts its log items: those in the cloud in `cache_log_cloud`, of the others
those in the journal in `cache_log_journal`, of the others those with data in memory in
`cache_log_dirty`.  Code that changes the flags or the data of an item is to call
`bluesky_cloudlog_stats_update` before with -1 and afterwards with 1.

Here an item is reduced to its flags and to whether its data are in memory.  A step is what
one function does with an item while it holds the lock of the item; whether a journal file
still exists, and what an item that is read links to, are parameters of the steps that depend
on it.  An access that would end the program is no step.

Main definitions:

- Definition {lit}`ItemTable.statsUpdate`: the update of the counters.
- Definition {lit}`ItemTable.step`: what can happen to an item from its creation to the end of
  its last reference.
-/

namespace BlueSky

open Function

/-! ## Items and counters -/

/-- What `bluesky_cloudlog_stats_update` looks at in a `BlueSkyCloudLog`, with the lock count
of its data, and whether its type is known. -/
structure CountedItem where
  typeKnown : Bool := false
  locationFlags : LocationFlags := {}
  pendingWrite : LocationFlags := {}
  hasData : Bool := false
  dataLockCount : Nat := 0
deriving DecidableEq, Repr

/-- The counters of a `BlueSkyFS`. -/
inductive LogCounter where
  | cacheLogCloud
  | cacheLogJournal
  | cacheLogDirty
deriving DecidableEq, Repr

namespace CountedItem

/-- The item is in the journal or about to be. -/
def journaled (item : CountedItem) : Bool :=
  item.locationFlags.journal || item.pendingWrite.journal

/-- The counter that `bluesky_cloudlog_stats_update` changes for an item. -/
def counter (item : CountedItem) : Option LogCounter :=
  if item.locationFlags.cloud then some .cacheLogCloud
  else if item.locationFlags.journal then some .cacheLogJournal
  else if item.pendingWrite.journal then some .cacheLogJournal
  else if item.hasData then some .cacheLogDirty
  else none

end CountedItem

/-- The live items and the counters of a file system. -/
structure ItemTable where
  live : List Nat
  item : Nat → CountedItem
  counters : LogCounter → Int

namespace ItemTable

/-- A file system without items. -/
def empty : ItemTable where
  live := []
  item := fun _ => {}
  counters := fun _ => 0

/-- `bluesky_cloudlog_stats_update`. -/
def statsUpdate (s : ItemTable) (id : Nat) (type : Int) : ItemTable :=
  match (s.item id).counter with
  | some c => { s with counters := update s.counters c (s.counters c + type) }
  | none => s

/-- A change of an item that is not counted. -/
def change (s : ItemTable) (id : Nat) (f : CountedItem → CountedItem) : ItemTable :=
  { s with item := update s.item id (f (s.item id)) }

/-- A change of an item between two calls of `bluesky_cloudlog_stats_update`. -/
def countedChange (s : ItemTable) (id : Nat) (f : CountedItem → CountedItem) : ItemTable :=
  ((s.statsUpdate id (-1)).change id f).statsUpdate id 1

/-- A new item, counted once it is set up. -/
def addItem (s : ItemTable) (id : Nat) (item : CountedItem) : ItemTable :=
  { s with live := id :: s.live, item := update s.item id item }.statsUpdate id 1

/-- `bluesky_cloudlog_get`. -/
def getItem (s : ItemTable) (id : Nat) : ItemTable :=
  if id ∈ s.live then s else s.addItem id {}

/-- The last `bluesky_cloudlog_unref`. -/
def dropItem (s : ItemTable) (id : Nat) : ItemTable :=
  { s.statsUpdate id (-1) with live := s.live.erase id }

end ItemTable

/-! ## Changes of one item -/

namespace CountedItem

/-- `item->location_flags &= ~CLOUDLOG_JOURNAL`. -/
def clearJournal (item : CountedItem) : CountedItem :=
  { item with locationFlags := { item.locationFlags with journal := false } }

/-- `item->location_flags |= CLOUDLOG_CLOUD`. -/
def setCloud (item : CountedItem) : CountedItem :=
  { item with locationFlags := { item.locationFlags with cloud := true } }

/-- `item->data` is set or dropped. -/
def setData (hasData : Bool) (item : CountedItem) : CountedItem :=
  { item with hasData := hasData }

/-- What `bluesky_log_item_submit` does to an item. -/
def submitted (item : CountedItem) : CountedItem :=
  { item with
    locationFlags := { item.locationFlags with uncommitted := true }
    dataLockCount := item.dataLockCount + 1 }

/-- What `log_thread` does to an item before it writes it. -/
def journalPending (item : CountedItem) : CountedItem :=
  { item with pendingWrite := { item.pendingWrite with journal := true } }

/-- What `log_commit` does to an item. -/
def journalCommitted (item : CountedItem) : CountedItem :=
  { item with
    locationFlags := { item.locationFlags with uncommitted := false, journal := true }
    pendingWrite := { item.pendingWrite with journal := false } }

/-- What `bluesky_cloudlog_serialize` does to an item. -/
def cloudPending (item : CountedItem) : CountedItem :=
  { item with pendingWrite := { item.pendingWrite with cloud := true } }

/-- What `cloudlog_flush_complete` does to an item. -/
def cloudComplete (item : CountedItem) : CountedItem :=
  { item with
    locationFlags := { item.locationFlags with cloud := true }
    pendingWrite := { item.pendingWrite with cloud := false } }

/-- The item is no longer queued. -/
def unlockData (item : CountedItem) : CountedItem :=
  { item with dataLockCount := item.dataLockCount - 1 }

/-- What `bluesky_cloudlog_erase` does to an item whose type is known. -/
def erased (item : CountedItem) : CountedItem :=
  { item with typeKnown := false, hasData := false, dataLockCount := 0 }

/-- What `reload_item` does to an item. -/
def reloaded (item : CountedItem) : CountedItem :=
  { item with hasData := false, locationFlags := { journal := true } }

/-- What `bluesky_deserialize_cloudlog` does to the item that it reads. -/
def deserialized (item : CountedItem) : CountedItem :=
  { item with typeKnown := true, hasData := false }

end CountedItem

/-! ## The functions -/

namespace ItemTable

/-- `bluesky_log_map_object`: the item is mapped from the journal, if its file exists, or else
from the cloud. -/
def mapObject (s : ItemTable) (id : Nat) (journalExists : Bool) : Option ItemTable :=
  if (s.item id).journaled && journalExists then
    some (s.countedChange id fun item => item)
  else if (s.item id).locationFlags.cloud then
    some (s.countedChange id CountedItem.clearJournal)
  else none

/-- One turn of the loop over the links in `bluesky_deserialize_cloudlog`. -/
def linkItem (s : ItemTable) : Option Nat → ItemTable
  | none => s
  | some link => (s.getItem link).change link CountedItem.setCloud

/-- `bluesky_deserialize_cloudlog`.  What is read may not be a record: then nothing is done. -/
def deserialize (s : ItemTable) (id : Nat) : Option (List (Option Nat)) → ItemTable
  | none => s
  | some links => links.foldl linkItem (s.change id CountedItem.deserialized)

/-- The first half of `bluesky_cloudlog_fetch`. -/
def fetchType (s : ItemTable) (id : Nat) (journalExists : Bool)
    (found : Option (List (Option Nat))) : Option ItemTable :=
  if (s.item id).typeKnown then some s
  else (s.mapObject id journalExists).map fun s => s.deserialize id found

/-- `bluesky_cloudlog_fetch`. -/
def fetch (s : ItemTable) (id : Nat) (journalExists : Bool)
    (found : Option (List (Option Nat))) : Option ItemTable :=
  if (s.item id).hasData then some s
  else do
    let s ← s.fetchType id journalExists found
    let s ← s.mapObject id journalExists
    some (s.change id (.setData true))

/-- `bluesky_cloudlog_prefetch`. -/
def prefetch (options : FetchOptions) (s : ItemTable) (id : Nat) (journalExists : Bool) :
    ItemTable :=
  if (s.item id).hasData then s
  -- the item is fetched in the background
  else if options.unaggregated then s
  else if (s.item id).journaled && journalExists then s
  else s.change id .clearJournal

/-- The part of `log_thread` that handles one item. -/
def logWrite (s : ItemTable) (id : Nat) : Option ItemTable :=
  if (s.item id).hasData then
    if (s.item id).journaled then some (s.change id .unlockData)
    else do
      let s := (s.countedChange id .journalPending).change id (.setData false)
      -- the journal file is open, and the type of the item is known
      let s ← s.fetch id true (some [])
      some (s.change id .unlockData)
  else none

/-- `bluesky_cloudlog_serialize` without its recursion. -/
def serialize (s : ItemTable) (id : Nat) (journalExists : Bool)
    (found : Option (List (Option Nat))) : Option ItemTable :=
  if (s.item id).locationFlags.cloud || (s.item id).pendingWrite.cloud then some s
  else (s.fetch id journalExists found).map fun s => s.countedChange id .cloudPending

/-- `bluesky_cloudlog_erase`. -/
def erase (s : ItemTable) (id : Nat) : Option ItemTable :=
  if (s.item id).dataLockCount = 0 then
    if (s.item id).typeKnown then some (s.change id .erased) else some s
  else none

/-- One item of `bluesky_replay_scan_journal2`: its data are in memory while the inode in it is
read. -/
def reload (s : ItemTable) (id : Nat) : ItemTable :=
  (((s.getItem id).countedChange id .reloaded).change id (.setData true)).change id (.setData false)

/-- How `bluesky_checkpoint_load` sets up the item of the checkpoint. -/
def loadCheckpoint (s : ItemTable) (id : Nat) : ItemTable :=
  ((s.getItem id).change id .setCloud).statsUpdate id 1

end ItemTable

/-! ## The life of the items -/

/-- What can happen to an item. -/
inductive ItemEvent where
  /-- An item is made with its data: `bluesky_block_flush`, `bluesky_serialize_inode`, and the
  makers of journal markers, sections of the inode map and checkpoints. -/
  | create (id : Nat)
  /-- `bluesky_cloudlog_get`. -/
  | get (id : Nat)
  /-- `bluesky_log_item_submit`. -/
  | submit (id : Nat)
  /-- `log_thread` handles the item. -/
  | logWrite (id : Nat)
  /-- `log_commit`. -/
  | logCommit (id : Nat)
  /-- `bluesky_cloudlog_serialize`; the parameters are those of the fetch that it begins with. -/
  | serialize (id : Nat) (journalExists : Bool) (found : Option (List (Option Nat)))
  /-- `cloudlog_flush_complete`. -/
  | flushComplete (id : Nat)
  /-- `bluesky_cloudlog_fetch`; if the type of the item is not known, the links of what is read
  are given. -/
  | fetch (id : Nat) (journalExists : Bool) (found : Option (List (Option Nat)))
  /-- `bluesky_cloudlog_prefetch`. -/
  | prefetch (id : Nat) (journalExists : Bool)
  /-- `drop_caches` or `bluesky_file_drop_cached`. -/
  | dropCached (id : Nat)
  /-- `bluesky_cloudlog_erase`. -/
  | erase (id : Nat)
  /-- The item is found in the journal in `bluesky_replay`. -/
  | reload (id : Nat)
  /-- The item is the checkpoint that `bluesky_checkpoint_load` has found. -/
  | loadCheckpoint (id : Nat)
  /-- The last reference to the item goes. -/
  | unref (id : Nat)
deriving DecidableEq, Repr

namespace ItemTable

/-- `drop_caches` and `bluesky_file_drop_cached` drop data that nobody waits for. -/
def droppable (item : CountedItem) : Bool :=
  item.hasData && item.dataLockCount = 0 && item.locationFlags ≠ {}

/-- What an event does to an item that exists. -/
def stepLive (options : FetchOptions) (s : ItemTable) : ItemEvent → Option ItemTable
  | .create _ | .loadCheckpoint _ => none
  | .get id => some (s.getItem id)
  | .submit id =>
    if (s.item id).locationFlags.journal then some s else some (s.change id .submitted)
  | .logWrite id => s.logWrite id
  | .logCommit id =>
    if (s.item id).pendingWrite.journal then some (s.countedChange id .journalCommitted)
    else none
  | .serialize id journalExists found => s.serialize id journalExists found
  | .flushComplete id =>
    if (s.item id).pendingWrite.cloud then some (s.countedChange id .cloudComplete) else none
  | .fetch id journalExists found => s.fetch id journalExists found
  | .prefetch id journalExists => some (s.prefetch options id journalExists)
  | .dropCached id =>
    if droppable (s.item id) then some (s.countedChange id (.setData false)) else some s
  | .erase id => s.erase id
  | .reload id => some (s.reload id)
  | .unref id => some (s.dropItem id)

end ItemTable

/-- The item that an event is about. -/
def ItemEvent.id : ItemEvent → Nat
  | create id | get id | submit id | logWrite id | logCommit id | serialize id _ _
  | flushComplete id | fetch id _ _ | prefetch id _ | dropCached id | erase id | reload id
  | loadCheckpoint id | unref id => id

namespace ItemTable

/-- What an event does to an item that does not exist yet.  New items have random identifiers,
and `bluesky_checkpoint_load` runs before there are any items. -/
def stepNew (s : ItemTable) : ItemEvent → Option ItemTable
  | .create id => some (s.addItem id { typeKnown := true, hasData := true })
  | .get id => some (s.getItem id)
  | .reload id => some (s.reload id)
  | .loadCheckpoint id => some (s.loadCheckpoint id)
  | _ => none

/-- The step function. -/
def step (options : FetchOptions) (s : ItemTable) (e : ItemEvent) : Option ItemTable :=
  if e.id ∈ s.live then s.stepLive options e else s.stepNew e

end ItemTable

end BlueSky
