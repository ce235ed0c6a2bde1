import BlueSky.Cloud.Log
import BlueSky.File.Model
import BlueSky.Lib.Transition

/-!
# The threads of the proxy

The proxy as a transition system: threads that change inodes and run
`bluesky_inode_start_sync`, the log thread, the flush daemon in `flushd_cloud`, the
uploads that it starts, and `bluesky_cachefile_gc`.  A step is what a thread does
between two points at which it can be overtaken by another one.

An inode is locked while a synchronization of it runs; the file system is locked while
the flush daemon waits for its marker.  A step that would have to wait for a lock or a
condition is not enabled.

Main definitions:

- Definition {lit}`ProxyState.step`: the step function.
- Definition {lit}`ProxyState.start`: an empty file system on an empty store and an empty
  journal directory.
-/

namespace BlueSky

open Function ByteLib

/-! ## The state -/

/-- A block of a file: it was never written, or it is in a log item, or it has data that
are not in a log item yet. -/
inductive MemBlock where
  | zero
  | ref (id : Nat)
  | dirty (bytes : Bytes)
deriving DecidableEq, Repr

/-- The parts of a `BlueSkyInode` that synchronization and flushing use. -/
structure MemInode where
  image : InodeImage
  blocks : List MemBlock
  changeCommit : Nat
  changeCloud : Nat
  committedItem : Option Nat
deriving DecidableEq, Repr

/-- A record in the journal. -/
structure JournalEntry where
  seq : Nat
  offset : Nat
  id : Nat
deriving DecidableEq, Repr

/-- `BlueSkyLog`. -/
structure JournalLog where
  /-- The records, in the order in which they were written. -/
  entries : List JournalEntry
  seqNum : Nat
  /-- The end of the open journal file. -/
  offset : Nat
  /-- How many of the records are known to be on disk. -/
  committed : Nat
  queue : List Nat
  journalWatermark : Nat
  /-- The journal files that have been unlinked. -/
  unlinked : List Nat
deriving DecidableEq, Repr

/-- A thread in `bluesky_inode_start_sync`: the inode that it has locked, and the items
that it waits for, those of the blocks apart from that of the inode. -/
structure SyncThread where
  inum : Nat
  blockItems : List Nat
  item : Nat
deriving DecidableEq, Repr

/-- Where the flush daemon is in `flushd_cloud`. -/
inductive Flushd where
  | idle
  /-- In `bluesky_log_get_commit_point`, with the file system locked. -/
  | waiting (marker : Nat)
  /-- In the loop over the dirty list. -/
  | draining (marker journalSeqStart : Nat)
  /-- Before `bluesky_inode_map_serialize`. -/
  | serializing (marker journalSeqStart : Nat)
  /-- Waiting for the segments. -/
  | uploading (marker journalSeqStart : Nat)
  /-- In `bluesky_log_write_commit_point`. -/
  | committing (journalSeqStart commit : Nat)
deriving DecidableEq, Repr

/-- What a reader of an inode sees: its attributes and the contents of its blocks. -/
structure InodeView where
  image : InodeImage
  contents : List Bytes
deriving DecidableEq, Repr

/-- The state of the proxy and of its disk and store. -/
structure ProxyState where
  /-- The log items created so far. -/
  items : List Item
  inodes : Nat → Option MemInode
  dirtyList : List Nat
  syncs : List SyncThread
  log : JournalLog
  cloud : CloudLogState
  flushd : Flushd
  /-- History: the number of the first segment of the flush that runs, or of the next
  one. -/
  flushBase : Nat
  /-- History: the version of each inode that was last synchronized. -/
  synced : Nat → Option InodeView

/-! ## Inodes -/

/-- A file has as many blocks as its size needs; other inodes have none. -/
def InodeImage.fits (image : InodeImage) (blocks : List MemBlock) : Bool :=
  match image.body with
  | .regular size => blocks.length = ChunkLib.chunkCount blockSize size
  | _ => blocks = []

/-- The size of a file. -/
def InodeImage.size (image : InodeImage) : Nat :=
  match image.body with
  | .regular size => size
  | _ => 0

/-- The link to a block in an inode item. -/
def MemBlock.link : MemBlock → Option Nat
  | ref id => some id
  | _ => none

/-- The contents of a data item. -/
def itemBytes (items : List Item) (id : Nat) : Bytes :=
  match items[id]? with
  | some ⟨.data bytes, _, _⟩ => bytes
  | _ => []

/-- The contents of a block of a file of the given size. -/
def MemBlock.contents (items : List Item) (size i : Nat) : MemBlock → Bytes
  | zero => zeros (ChunkLib.chunkLen blockSize size i)
  | ref id => itemBytes items id
  | dirty bytes => bytes

/-- What a reader of the inode sees. -/
def MemInode.view (items : List Item) (inode : MemInode) : InodeView where
  image := inode.image
  contents := inode.blocks.mapIdx fun i block => block.contents items inode.image.size i

/-- `bluesky_file_flush`: a data item for each dirty block. -/
def fileFlushBlocks (inum : Nat) : List Item → List MemBlock →
    List Item × List MemBlock × List Nat
  | items, [] => (items, [], [])
  | items, .dirty bytes :: blocks =>
    let rest := fileFlushBlocks inum
      (items ++ [{ payload := .data bytes, inum := inum, links := [] }]) blocks
    (rest.1, .ref items.length :: rest.2.1, items.length :: rest.2.2)
  | items, block :: blocks =>
    let rest := fileFlushBlocks inum items blocks
    (rest.1, block :: rest.2.1, rest.2.2)

/-- `bluesky_serialize_inode`. -/
def serializeInode (inum : Nat) (image : InodeImage) (blocks : List MemBlock) : Item where
  payload := .inode image
  inum := inum
  links := blocks.map MemBlock.link

/-! ## The journal -/

namespace JournalLog

/-- The numbers of all items that are or will be in the journal, in order. -/
def order (log : JournalLog) : List Nat :=
  log.entries.map JournalEntry.id ++ log.queue

/-- The record of an item. -/
def entryOf (log : JournalLog) (id : Nat) : Option JournalEntry :=
  log.entries.find? fun entry => entry.id = id

/-- The records that survive a crash for certain. -/
def durable (log : JournalLog) : List JournalEntry :=
  log.entries.take log.committed

/-- Whether the log thread has committed the record of an item. -/
def isCommitted (log : JournalLog) (id : Nat) : Bool :=
  log.durable.any fun entry => entry.id = id

/-- `marker->log_seq` and `marker->log_offset`, which are zero until the log thread has
written the record. -/
def position (log : JournalLog) (id : Nat) : Nat × Nat :=
  match log.entryOf id with
  | some entry => (entry.seq, entry.offset)
  | none => (0, 0)

end JournalLog

/-- `log_commit`. -/
def JournalLog.commit (log : JournalLog) : JournalLog :=
  { log with committed := log.entries.length }

/-- `log_open` on an open journal, which commits what is in the old file. -/
def JournalLog.open (log : JournalLog) : JournalLog :=
  { log.commit with seqNum := log.seqNum + 1, offset := 0 }

/-- Write the record of an item at the end of the open file. -/
def JournalLog.append (log : JournalLog) (id size : Nat) : JournalLog :=
  { log with
    entries := log.entries ++ [⟨log.seqNum, log.offset, id⟩]
    offset := log.offset + size }

/-- One iteration of `log_thread`: the next item of the queue, and a new file before it if
the record would reach the segment size. -/
def JournalLog.writeNext (items : List Item) (log : JournalLog) : Option JournalLog :=
  match log.queue with
  | [] => none
  | id :: queue =>
    let size := ((items[id]?).map Item.journalSize).getD 0
    let log := { log with queue := queue }
    let log := if needsRotation log.offset size then log.open else log
    some (log.append id size)

/-- `bluesky_cloudlog_sync`: queue items for the log thread. -/
def JournalLog.submit (log : JournalLog) (ids : List Nat) : JournalLog :=
  { log with queue := log.queue ++ ids }

/-! ## The steps -/

namespace ProxyState

/-- An empty file system on an empty store and an empty journal directory. -/
def start (disableAggregation : Bool) : ProxyState where
  items := []
  inodes := fun _ => none
  dirtyList := []
  syncs := []
  log :=
    { entries := [], seqNum := 0, offset := 0, committed := 0, queue := []
      journalWatermark := 0, unlinked := [] }
  cloud := CloudLogState.start disableAggregation
  flushd := .idle
  flushBase := 0
  synced := fun _ => none

/-- Whether a synchronization holds the lock of the inode. -/
def locked (s : ProxyState) (inum : Nat) : Bool :=
  s.syncs.any fun t => t.inum = inum

/-- A file-system operation leaves the inode with new attributes and blocks.  A block that
is in a log item was one of the inode before. -/
def modify (s : ProxyState) (inum : Nat) (image : InodeImage) (blocks : List MemBlock) :
    Option ProxyState :=
  let old := ((s.inodes inum).map MemInode.blocks).getD []
  let count := ((s.inodes inum).map fun inode => inode.image.changeCount).getD 1
  if inum < 2 ^ 64 ∧ s.locked inum = false ∧ image.fits blocks ∧
      ∀ block ∈ blocks, block.link ≠ none → block ∈ old then
    let inode := (s.inodes inum).getD
      { image := image, blocks := [], changeCommit := 0, changeCloud := 0
        committedItem := none }
    some { s with
      inodes := update s.inodes inum (some { inode with
        image := { image with changeCount := count + 1 }, blocks := blocks }) }
  else none

/-- `bluesky_inode_start_sync` until it waits for the journal. -/
def startSync (s : ProxyState) (inum : Nat) : Option ProxyState :=
  match s.inodes inum with
  | none => none
  | some inode =>
    if s.locked inum then none
    else
      let flushed := fileFlushBlocks inum s.items inode.blocks
      let item := serializeInode inum inode.image flushed.2.1
      let id := flushed.1.length
      some { s with
        items := flushed.1 ++ [item]
        inodes := update s.inodes inum (some { inode with
          blocks := flushed.2.1, committedItem := some id })
        syncs := { inum := inum, blockItems := flushed.2.2, item := id } :: s.syncs
        log := s.log.submit (flushed.2.2 ++ [id]) }

/-- The end of `bluesky_inode_start_sync`, which needs the lock of the file system. -/
def finishSync (s : ProxyState) (inum : Nat) : Option ProxyState :=
  match s.syncs.find? (fun t => t.inum = inum), s.inodes inum with
  | some t, some inode =>
    let waiting := match s.flushd with
      | .waiting _ => true
      | _ => false
    if (t.blockItems ++ [t.item]).all s.log.isCommitted ∧ waiting = false then
      some { s with
        inodes := update s.inodes inum (some { inode with
          changeCommit := inode.image.changeCount, changeCloud := inode.image.changeCount })
        syncs := s.syncs.erase t
        dirtyList := inum :: s.dirtyList.erase inum
        synced := update s.synced inum (some (inode.view s.items)) }
    else none
  | _, _ => none

/-- One iteration of `log_thread`. -/
def logWrite (s : ProxyState) : Option ProxyState :=
  (s.log.writeNext s.items).map fun log => { s with log := log }

/-- `log_commit` at the end of an iteration of `log_thread`. -/
def logCommit (s : ProxyState) : Option ProxyState :=
  some { s with log := s.log.commit }

/-- `flushd_cloud` locks the file system and queues a marker. -/
def getCommitPoint (s : ProxyState) : Option ProxyState :=
  match s.flushd with
  | .idle =>
    some { s with
      items := s.items ++ [{ payload := .journalMarker, inum := 0, links := [] }]
      log := s.log.submit [s.items.length]
      flushd := .waiting s.items.length }
  | _ => none

/-- The wait for the marker ends, and `flushd_cloud` reads the number of the open journal
file.  The wait is for the record to be committed if the log thread has begun with it, and
otherwise there is no wait. -/
def readSeqNum (s : ProxyState) : Option ProxyState :=
  match s.flushd with
  | .waiting marker =>
    if marker ∈ s.log.queue ∨ s.log.isCommitted marker then
      some { s with flushd := .draining marker s.log.seqNum }
    else none
  | _ => none

/-- One iteration of the loop over the dirty list.  The inode was last on the list when it
was chosen; others may have been synchronized until its lock was taken. -/
def drain (s : ProxyState) (inum : Nat) : Option ProxyState :=
  match s.flushd, s.inodes inum with
  | .draining _ _, some inode =>
    if inum ∈ s.dirtyList ∧ s.locked inum = false ∧
        inode.changeCloud = inode.changeCommit then
      some { s with
        dirtyList := s.dirtyList.erase inum
        inodes := update s.inodes inum (some { inode with committedItem := none })
        cloud := inode.committedItem.elim s.cloud
          (cloudlogSerialize s.items s.items.length s.cloud) }
    else none
  | _, _ => none

/-- The loop over the dirty list ends. -/
def endDrain (s : ProxyState) : Option ProxyState :=
  match s.flushd with
  | .draining marker journalSeqStart =>
    if s.dirtyList = [] then some { s with flushd := .serializing marker journalSeqStart }
    else none
  | _ => none

/-- The section that `bluesky_inode_map_serialize_section` creates for a range. -/
def sectionItem (r : InodeMapRange) : Item where
  payload := .inodeMap (r.entries.map Prod.fst)
  inum := 0
  links := r.entries.map fun entry => some entry.2

/-- A new section for each range that has changed. -/
def serializeSections : List Item → InodeMap → List Item × InodeMap
  | items, [] => (items, [])
  | items, r :: m =>
    match r.serialized with
    | some _ =>
      let rest := serializeSections items m
      (rest.1, r :: rest.2)
    | none =>
      let rest := serializeSections (items ++ [sectionItem r]) m
      (rest.1, { r with serialized := some items.length } :: rest.2)

/-- The version vector of a checkpoint. -/
def versionVector (latestCleanerSeqSeen : Int) : List (Nat × Nat) :=
  if 0 ≤ latestCleanerSeqSeen then [(1, latestCleanerSeqSeen.toNat)] else []

/-- The checkpoint item for the inode map. -/
def checkpointItem (latestCleanerSeqSeen : Int) (m : InodeMap) : Item where
  payload := .checkpoint (versionVector latestCleanerSeqSeen)
    (m.map fun r => (r.start, r.stop))
  inum := 0
  links := m.map InodeMapRange.serialized

/-- `bluesky_inode_map_serialize` and the serialization of the checkpoint, if a range has
changed, and `bluesky_cloudlog_flush`. -/
def writeMap (s : ProxyState) : Option ProxyState :=
  match s.flushd with
  | .serializing marker journalSeqStart =>
    if s.cloud.inodeMap.any (fun r => r.serialized.isNone) then
      let sections := serializeSections s.items s.cloud.inodeMap
      let items := sections.1 ++ [checkpointItem s.cloud.latestCleanerSeqSeen sections.2]
      some { s with
        items := items
        cloud := cloudlogFlush (cloudlogSerialize items items.length
          { s.cloud with inodeMap := sections.2 } sections.1.length)
        flushd := .uploading marker journalSeqStart }
    else
      some { s with
        cloud := cloudlogFlush s.cloud
        flushd := .uploading marker journalSeqStart }
  | _ => none

/-- The upload of a segment completes. -/
def putComplete (s : ProxyState) (n : Nat) : Option ProxyState :=
  if n < s.cloud.segments.length ∧ n ∉ s.cloud.stored then
    some { s with cloud := { s.cloud with stored := n :: s.cloud.stored } }
  else none

/-- Whether no segment is pending. -/
def uploaded (s : ProxyState) : Bool :=
  (List.range s.cloud.segments.length).all fun n => n ∈ s.cloud.stored

/-- All segments are in the store, and `bluesky_log_write_commit_point` queues a record that
names the position of the marker. -/
def writeCommitPoint (s : ProxyState) : Option ProxyState :=
  match s.flushd with
  | .uploading marker journalSeqStart =>
    if s.uploaded then
      let position := s.log.position marker
      some { s with
        items := s.items ++
          [{ payload := .journalCheckpoint position.1 position.2, inum := 0, links := [] }]
        log := s.log.submit [s.items.length]
        flushd := .committing journalSeqStart s.items.length
        flushBase := s.cloud.segments.length }
    else none
  | _ => none

/-- The commit point is on disk, and `flushd_cloud` sets the watermark and returns. -/
def finishFlush (s : ProxyState) : Option ProxyState :=
  match s.flushd with
  | .committing journalSeqStart commit =>
    if s.log.isCommitted commit then
      some { s with
        log := { s.log with journalWatermark := journalSeqStart }
        flushd := .idle }
    else none
  | _ => none

/-- `bluesky_cachefile_gc` unlinks a journal file; which ones it unlinks also depends on the
use of the files and of the disk. -/
def gc (s : ProxyState) (n : Nat) : Option ProxyState :=
  if n < s.log.journalWatermark ∧ n ∉ s.log.unlinked then
    some { s with log := { s.log with unlinked := n :: s.log.unlinked } }
  else none

/-- The steps of the threads. -/
inductive Event where
  | modify (inum : Nat) (image : InodeImage) (blocks : List MemBlock)
  | startSync (inum : Nat)
  | finishSync (inum : Nat)
  | logWrite
  | logCommit
  | getCommitPoint
  | readSeqNum
  | drain (inum : Nat)
  | endDrain
  | writeMap
  | putComplete (n : Nat)
  | writeCommitPoint
  | finishFlush
  | gc (n : Nat)
deriving DecidableEq, Repr

/-- One step of one thread. -/
def step (s : ProxyState) : Event → Option ProxyState
  | .modify inum image blocks => s.modify inum image blocks
  | .startSync inum => s.startSync inum
  | .finishSync inum => s.finishSync inum
  | .logWrite => s.logWrite
  | .logCommit => s.logCommit
  | .getCommitPoint => s.getCommitPoint
  | .readSeqNum => s.readSeqNum
  | .drain inum => s.drain inum
  | .endDrain => s.endDrain
  | .writeMap => s.writeMap
  | .putComplete n => s.putComplete n
  | .writeCommitPoint => s.writeCommitPoint
  | .finishFlush => s.finishFlush
  | .gc n => s.gc n

end ProxyState

end BlueSky
