import BlueSky.Journal.RoundTrip
import BlueSky.CloudLog

/-!
# Replaying journal records into the item table

After a restart, `bluesky_checkpoint_load` leaves in the item table the inode items
that the inode map of the last checkpoint names, none of them read yet, and
`bluesky_replay_scan_journal2` then enters the records of the journal.  The log
thread and the replay code record different locations for one record: the former
that of its header, the latter that of its data.

Main results:

- Theorem {lit}`replayTable_cases`: what replay leaves in the table.
- Theorem {lit}`replayed_not_readable`: no replayed item is read back.
- Theorem {lit}`keepsBlocks_iff`: replay keeps the blocks of an inode record only if
  it has none.
-/

namespace BlueSky

open Function List Option ByteLib

/-! ## Replay -/

/-- The item table after `bluesky_checkpoint_load`: the inode items that the sections of
the inode map link, with their places in the cloud. -/
def loadedLocations (entries : List (CloudId × CloudPointer)) : Locations :=
  entries.foldl
    (fun t entry => update t entry.1 (some
      { cloudlogNew entry.1 with location := entry.2, locationFlags := { cloud := true } }))
    (fun _ => none)

/-- `reload_item`: a link becomes a pointer only if its item is in the table. -/
def reloadItem (t : Locations) (item : CloudLog) (data2 : Bytes) : CloudLog :=
  { item with
    data := none
    locationFlags := { journal := true }
    links := (parseIds data2).map fun id =>
      if id ≠ 0 ∧ (t id).isSome then some id else none }

/-- The loop body of `bluesky_replay_scan_journal2` on the item table.  (An inode record
also replaces the inode in memory, which the table does not see.) -/
def replayRecord (t : Locations) (rec : Nat × ScannedItem) : Option Locations := do
  let (t, item) ← cloudlogGet t rec.2.id
  let item := reloadItem t { item with inum := rec.2.inum } rec.2.data2
  some (update t rec.2.id (some
    { item with
      logSeq := rec.1
      logOffset := rec.2.offset + logHeaderSize
      logSize := rec.2.data1.length }))

/-- The item table after a list of records. -/
def replayTable (t : Locations) (recs : List (Nat × ScannedItem)) : Option Locations :=
  recs.foldlM replayRecord t

variable {t t' : Locations} {recs : List (Nat × ScannedItem)} {rec : Nat × ScannedItem}

theorem replayTable_snoc (h : replayTable t (recs ++ [rec]) = some t') :
    ∃ t₁, replayTable t recs = some t₁ ∧ replayRecord t₁ rec = some t' := by
  rw [replayTable, foldlM_append] at h
  simpa [replayTable, bind_eq_some_iff] using h

/-- An item of the table that was entered but never read. -/
structure CloudLog.Unread (item : CloudLog) : Prop where
  type_eq : item.type = LogType.unknown.code
  dataSize_eq : item.dataSize = 0
  data_eq : item.data = none

/-- The location replay records for a journal record. -/
structure CloudLog.ReplayedFrom (item : CloudLog) (rec : Nat × ScannedItem) : Prop where
  flags : item.locationFlags.journal = true
  logSeq : item.logSeq = rec.1
  logOffset : item.logOffset = rec.2.offset + logHeaderSize
  logSize : item.logSize = rec.2.data1.length

variable {item : CloudLog}

theorem loadedLocations_some {entries : List (CloudId × CloudPointer)} {id : CloudId}
    (h : loadedLocations entries id = some item) :
    item.Unread ∧ id ∈ entries.map Prod.fst := by
  induction entries using List.reverseRecOn with
  | nil => simp [loadedLocations] at h
  | append_singleton entries entry ih =>
    rw [loadedLocations, foldl_append, foldl_cons, foldl_nil] at h
    by_cases hid : id = entry.1
    · subst hid
      rw [update_self] at h
      rw [← some.inj h]
      exact ⟨⟨rfl, rfl, rfl⟩, by simp⟩
    · rw [update_of_ne hid] at h
      rcases ih h with ⟨hunread, hmem⟩
      exact ⟨hunread, by simp [List.mem_map.mp hmem]⟩

/-- What one record does to the table. -/
theorem replayRecord_cases (h : replayRecord t rec = some t') :
    ∃ t₁ found, cloudlogGet t rec.2.id = some (t₁, found) ∧
      ∃ item, t' = update t₁ rec.2.id (some item) ∧ item.ReplayedFrom rec ∧
        item.type = found.type ∧ item.dataSize = found.dataSize ∧ item.data = none ∧
        item.links = (parseIds rec.2.data2).map fun id =>
          if id ≠ 0 ∧ (t₁ id).isSome then some id else none := by
  simp only [replayRecord, bind_eq_bind, bind_eq_some_iff] at h
  rcases h with ⟨⟨t₁, found⟩, hget, heq⟩
  exact ⟨t₁, found, hget, _, (some.inj heq).symm, ⟨rfl, rfl, rfl, rfl⟩, rfl, rfl, rfl, rfl⟩

/-- Creating an item for an identifier keeps the table of unread items as it is
elsewhere. -/
theorem cloudlogGet_unread {t₁ : Locations} {id : CloudId} {found : CloudLog}
    (h : cloudlogGet t id = some (t₁, found)) (hunread : ∀ item, t id = some item → item.Unread) :
    found.Unread ∧ ∀ k, k ≠ id → t₁ k = t k := by
  unfold cloudlogGet at h
  split_ifs at h with hid
  cases hget : t id with
  | some item =>
    simp only [hget, some.injEq, Prod.mk.injEq] at h
    rcases h with ⟨rfl, rfl⟩
    exact ⟨hunread _ hget, fun _ _ => rfl⟩
  | none =>
    simp only [hget, some.injEq, Prod.mk.injEq] at h
    rcases h with ⟨rfl, rfl⟩
    exact ⟨⟨rfl, rfl, rfl⟩, fun k hk => update_of_ne hk _ _⟩

/-- The last of a list of records that carries an identifier. -/
def lastRecord (recs : List (Nat × ScannedItem)) (id : CloudId) : Option (Nat × ScannedItem) :=
  recs.reverse.find? fun rec => rec.2.id = id

theorem lastRecord_snoc (recs : List (Nat × ScannedItem)) (rec : Nat × ScannedItem)
    (id : CloudId) :
    lastRecord (recs ++ [rec]) id = if rec.2.id = id then some rec else lastRecord recs id := by
  rw [lastRecord, reverse_append, reverse_singleton, singleton_append, find?_cons]
  by_cases hid : rec.2.id = id
  · simp [hid]
  · simp [hid, lastRecord]

theorem lastRecord_some {id : CloudId} (h : lastRecord recs id = some rec) :
    rec ∈ recs ∧ rec.2.id = id := by
  constructor
  · simpa using mem_of_find?_eq_some h
  · simpa using find?_some h

/-- After replay, every item of the table is unread, and it is either the item of an
inode in the map or located at the data of the last record that carries its
identifier. -/
theorem replayTable_cases {entries : List (CloudId × CloudPointer)}
    (h : replayTable (loadedLocations entries) recs = some t) {id : CloudId}
    (hitem : t id = some item) :
    item.Unread ∧
      ((id ∈ entries.map Prod.fst ∧ lastRecord recs id = none) ∨
        ∃ rec, lastRecord recs id = some rec ∧ item.ReplayedFrom rec) := by
  induction recs using List.reverseRecOn generalizing t id item with
  | nil =>
    simp only [replayTable, foldlM_nil, Option.pure_def, some.injEq] at h
    subst h
    rcases loadedLocations_some hitem with ⟨hunread, hmem⟩
    exact ⟨hunread, Or.inl ⟨hmem, rfl⟩⟩
  | append_singleton recs rec ih =>
    rcases replayTable_snoc h with ⟨t₁, hpre, hrec⟩
    rcases replayRecord_cases hrec with ⟨t₂, found, hget, new, rfl, hfrom, htype, hsize, hdata, -⟩
    rcases cloudlogGet_unread hget (fun old hold => (ih hpre hold).1) with
      ⟨hfound, hother⟩
    rw [lastRecord_snoc]
    by_cases hid : id = rec.2.id
    · subst hid
      rw [update_self] at hitem
      rw [← some.inj hitem, if_pos rfl]
      exact ⟨⟨htype.trans hfound.type_eq, hsize.trans hfound.dataSize_eq, hdata⟩,
        Or.inr ⟨rec, rfl, hfrom⟩⟩
    · rw [update_of_ne hid, hother id hid] at hitem
      rw [if_neg (Ne.symm hid)]
      exact ih hpre hitem

/-- The files of the records found by the scan exist. -/
theorem file_of_mem_replayItems {dir : JournalDir} {seq off : Nat}
    (h : rec ∈ replayItems dir seq off) :
    ∃ buf, dir.file rec.1 = some buf := by
  have hscan : ∀ fuel seq off, rec ∈ scanFiles dir fuel seq off →
      ∃ buf, dir.file rec.1 = some buf := by
    intro fuel
    induction fuel with
    | zero => simp [scanFiles]
    | succ fuel ih =>
      intro seq off hmem
      rw [scanFiles] at hmem
      cases hfile : dir.file seq with
      | none => simp [hfile] at hmem
      | some buf =>
        simp only [hfile, mem_append, List.mem_map] at hmem
        rcases hmem with ⟨item, -, rfl⟩ | hrest
        · exact ⟨buf, hfile⟩
        · exact ih _ _ hrest
  exact hscan _ _ _ h

/-! ## Reading back what replay recorded -/

variable {files : CacheFiles}

/-- A fetch through the location that replay records does not give the data of the
record back. -/
theorem not_fetched_of_replayed {id : CloudId} {item' : CloudLog} {buf : Bytes}
    (hitem : t id = some item) (hunread : item.Unread) (hfrom : item.ReplayedFrom rec)
    (hfile : files.journal rec.1 = some buf) (hfetch : cloudlogFetch files t id = some t')
    (hitem' : t' id = some item') : item'.data ≠ some rec.2.data1 := by
  have hjournal : journalFile files item = some buf := by
    rw [journalFile, hfrom.flags, Bool.true_or, if_pos rfl, hfrom.logSeq, hfile]
  rcases cloudlogFetch_shorter hitem hunread.type_eq hunread.dataSize_eq hunread.data_eq
    hjournal hfetch with ⟨item₁, d, hitem₁, hd, hshort⟩
  have heq : item' = item₁ := some.inj (hitem'.symm.trans hitem₁)
  intro hdata
  rw [heq, hd] at hdata
  rw [some.inj hdata, hfrom.logSize] at hshort
  exact lt_irrefl _ hshort

theorem cloudlogFetch_some {id : CloudId} (h : cloudlogFetch files t id = some t') :
    ∃ item, t id = some item := by
  cases hitem : t id with
  | none => simp [cloudlogFetch, hitem] at h
  | some item => exact ⟨item, rfl⟩

/-- After the replay of some records, a fetch of the item of a record never gives the
data of the last such record back. -/
theorem fetched_ne_replayed {entries : List (CloudId × CloudPointer)} {id : CloudId}
    {item' : CloudLog} {buf : Bytes} (hreplay : replayTable (loadedLocations entries) recs = some t)
    (hlast : lastRecord recs id = some rec) (hfile : files.journal rec.1 = some buf)
    (hfetch : cloudlogFetch files t id = some t') (hitem' : t' id = some item') :
    item'.data ≠ some rec.2.data1 := by
  rcases cloudlogFetch_some hfetch with ⟨item, hitem⟩
  rcases replayTable_cases hreplay hitem with ⟨hunread, ⟨-, hnone⟩ | ⟨rec', hrec', hfrom⟩⟩
  · rw [hlast] at hnone
    exact absurd hnone (by simp)
  · have heq : rec = rec' := some.inj (hlast.symm.trans hrec')
    subst heq
    exact not_fetched_of_replayed hitem hunread hfrom hfile hfetch hitem'

/-- The journal file of a record that the scan found is there for a fetch. -/
theorem cacheFiles_journal_of_mem {dir : JournalDir} {seq off : Nat}
    (h : rec ∈ replayItems dir seq off) (cloud : BitVec 32 → BitVec 32 → Option Bytes) :
    ∃ buf, (cacheFiles dir cloud).journal rec.1 = some buf := by
  rcases file_of_mem_replayItems h with ⟨buf, hbuf⟩
  exact ⟨ChunkLib.fill 0 cacheFileSize buf, by simp [cacheFiles, hbuf]⟩

/-- A record is readable after replay: a fetch of its item restores the type, the data
and the link identifiers with which it was written. -/
def ReadableAfterReplay (entries : List (CloudId × CloudPointer)) (dir : JournalDir)
    (cloud : BitVec 32 → BitVec 32 → Option Bytes) (seq off : Nat) (rec : ScannedItem) : Prop :=
  ∃ t t' item,
    replayTable (loadedLocations entries) (replayItems dir seq off) = some t ∧
    cloudlogFetch (cacheFiles dir cloud) t rec.id = some t' ∧
    t' rec.id = some item ∧ item.type = rec.type ∧ item.data = some rec.data1 ∧
    item.links = (parseIds rec.data2).map fun id => if id = 0 then none else some id

/-- No record that replay accepts is readable afterwards. -/
theorem replayed_not_readable (entries : List (CloudId × CloudPointer)) (dir : JournalDir)
    (cloud : BitVec 32 → BitVec 32 → Option Bytes) (seq off : Nat) (rec : Nat × ScannedItem)
    (hlast : lastRecord (replayItems dir seq off) rec.2.id = some rec) :
    ¬ ReadableAfterReplay entries dir cloud seq off rec.2 := by
  rintro ⟨t, t', item', hreplay, hfetch, hitem', -, hdata, -⟩
  rcases cacheFiles_journal_of_mem (lastRecord_some hlast).1 cloud with ⟨buf, hfile⟩
  exact fetched_ne_replayed hreplay hlast hfile hfetch hitem' hdata

/-- A journal with the record of one block. -/
def blockJournal : JournalDir :=
  (logThread 0
    [{ type := .data, id := 7, inum := 2, data := [1, 2, 3, 4, 5, 6], links := [] }]).crashImage
    59 0

/-- That record as replay accepts it. -/
def blockRecord : ScannedItem where
  offset := 0
  type := LogType.data.code
  inum := 2
  id := 7
  data1 := [1, 2, 3, 4, 5, 6]
  data2 := []
  data3 := []

theorem lastRecord_blockJournal :
    lastRecord (replayItems blockJournal 0 0) 7 = some (0, blockRecord) := by
  decide +kernel

theorem replayed_not_readable_block :
    ¬ ReadableAfterReplay [] blockJournal (fun _ _ => none) 0 0 blockRecord :=
  replayed_not_readable [] blockJournal _ 0 0 (0, blockRecord) lastRecord_blockJournal

/-- The block was written, survives whole and is accepted, and cannot be read. -/
theorem blockJournal_unreadable :
    ¬ ∀ rec : Nat × ScannedItem,
      lastRecord (replayItems blockJournal 0 0) rec.2.id = some rec →
        ReadableAfterReplay [] blockJournal (fun _ _ => none) 0 0 rec.2 := by
  intro hall
  rcases hall (0, blockRecord) lastRecord_blockJournal with
    ⟨t, t', item', hreplay, hfetch, hitem', -, hdata, -⟩
  rcases cacheFiles_journal_of_mem (lastRecord_some lastRecord_blockJournal).1
    (fun _ _ => none) with ⟨buf, hfile⟩
  exact fetched_ne_replayed hreplay lastRecord_blockJournal hfile hfetch hitem' hdata

/-! ## The blocks of a replayed inode -/

/-- When replay has processed an inode record, each link of the record that is not null
points to the item with its identifier, and a fetch of that item gives the contents
of the block. -/
def KeepsBlocks (entries : List (CloudId × CloudPointer)) (files : CacheFiles)
    (contents : CloudId → Bytes) (pre : List (Nat × ScannedItem))
    (rec : Nat × ScannedItem) : Prop :=
  ∃ t item, replayTable (loadedLocations entries) (pre ++ [rec]) = some t ∧
    t rec.2.id = some item ∧
    ∀ (i : Nat) (id : CloudId), (parseIds rec.2.data2)[i]? = some id → id ≠ 0 →
      item.links[i]? = some (some id) ∧
        ∃ t' ref, cloudlogFetch files t id = some t' ∧ t' id = some ref ∧
          ref.data = some (contents id)

/-- Replay gets past records whose identifiers are not null. -/
theorem replayTable_isSome (t : Locations) (hid : ∀ rec ∈ recs, rec.2.id ≠ 0) :
    ∃ t', replayTable t recs = some t' := by
  induction recs generalizing t with
  | nil => exact ⟨t, rfl⟩
  | cons rec recs ih =>
    obtain ⟨t₁, hrec⟩ : ∃ t₁, replayRecord t rec = some t₁ := by
      unfold replayRecord cloudlogGet
      rw [if_neg (hid rec mem_cons_self)]
      cases t rec.2.id with
      | some item => exact ⟨_, rfl⟩
      | none => exact ⟨_, rfl⟩
    rcases ih t₁ (fun r hr => hid r (mem_cons_of_mem _ hr)) with ⟨t', hrest⟩
    exact ⟨t', by simp only [replayTable, foldlM_cons, hrec]; exact hrest⟩

/-- A link of the record just replayed that is not null has its item in the table. -/
theorem replayTable_link {entries : List (CloudId × CloudPointer)} {pre : List (Nat × ScannedItem)}
    (h : replayTable (loadedLocations entries) (pre ++ [rec]) = some t)
    (hitem : t rec.2.id = some item) {i : Nat} {id : CloudId}
    (hlink : item.links[i]? = some (some id)) : ∃ ref, t id = some ref := by
  rcases replayTable_snoc h with ⟨t₁, -, hrec⟩
  rcases replayRecord_cases hrec with ⟨t₂, found, -, new, rfl, -, -, -, -, hlinks⟩
  rw [update_self] at hitem
  rw [← some.inj hitem, hlinks, getElem?_map, map_eq_some_iff] at hlink
  rcases hlink with ⟨id', -, hif⟩
  split_ifs at hif with hfound
  rw [← some.inj hif]
  by_cases hself : id' = rec.2.id
  · exact ⟨new, by rw [hself, update_self]⟩
  · rcases isSome_iff_exists.mp hfound.2 with ⟨ref, href⟩
    exact ⟨ref, by rw [update_of_ne hself, href]⟩

/-- Replay keeps the blocks of an inode record exactly if it has none: a block that is
only in the cloud is not in the table, and a block that was replayed cannot be read
back. -/
theorem keepsBlocks_iff (entries : List (CloudId × CloudPointer)) (dir : JournalDir)
    (cloud : BitVec 32 → BitVec 32 → Option Bytes) (contents : CloudId → Bytes)
    (seq off : Nat) (pre post : List (Nat × ScannedItem)) (rec : Nat × ScannedItem)
    (hrecs : replayItems dir seq off = pre ++ rec :: post)
    (hnull : ∀ r ∈ pre ++ [rec], r.2.id ≠ 0)
    (hcontents : ∀ r ∈ pre ++ [rec], r.2.data1 = contents r.2.id)
    (hblocks : ∀ id ∈ parseIds rec.2.data2, id ∉ entries.map Prod.fst) :
    KeepsBlocks entries (cacheFiles dir cloud) contents pre rec ↔
      ∀ id ∈ parseIds rec.2.data2, id = 0 := by
  constructor
  · rintro ⟨t, item, hreplay, hitem, hkeep⟩ id hid
    by_contra hne
    rcases mem_iff_getElem?.mp hid with ⟨i, hi⟩
    rcases hkeep i id hi hne with ⟨hlink, t', ref', hfetch, href', hdata⟩
    rcases replayTable_link hreplay hitem hlink with ⟨ref, href⟩
    rcases replayTable_cases hreplay href with ⟨-, ⟨hmap, -⟩ | ⟨last, hlast, -⟩⟩
    · exact hblocks id hid hmap
    · rcases lastRecord_some hlast with ⟨hmem, hlastId⟩
      have hfound : last ∈ replayItems dir seq off := by
        rw [hrecs]
        rcases mem_append.mp hmem with hpre | hrec
        · exact mem_append_left _ hpre
        · rw [mem_singleton.mp hrec]
          exact mem_append_right _ mem_cons_self
      rcases cacheFiles_journal_of_mem hfound cloud with ⟨buf, hfile⟩
      apply fetched_ne_replayed hreplay hlast hfile hfetch href'
      rw [hdata, hcontents last hmem, hlastId]
  · intro hempty
    rcases replayTable_isSome (loadedLocations entries) hnull with ⟨t, hreplay⟩
    rcases replayTable_snoc hreplay with ⟨t₁, -, hrec⟩
    rcases replayRecord_cases hrec with ⟨t₂, found, -, new, rfl, -⟩
    refine ⟨_, new, hreplay, update_self _ _ _, ?_⟩
    intro i id hi hne
    exact absurd (hempty id (mem_of_getElem? hi)) hne

/-- A journal behind the commit point for a file of two blocks: the first block is in
the cloud, the second was rewritten and is in the journal with the inode. -/
def rewrittenJournal : JournalDir :=
  (logThread 0
    [{ type := .data, id := 6, inum := 2, data := [1, 2, 3, 4, 5, 6], links := [] },
      { type := .inode, id := 8, inum := 2, data := [9],
        links := [some { id := 5, location := ⟨0, 3, 0, 100⟩ },
          some { id := 6, location := ⟨0, 0, 0, 0⟩ }] }]).crashImage 177 0

/-- The record of the rewritten block. -/
def rewrittenBlock : Nat × ScannedItem :=
  (0, { blockRecord with id := 6 })

/-- The record of the inode. -/
def rewrittenInode : Nat × ScannedItem :=
  (0,
    { offset := 59
      type := LogType.inode.code
      inum := 2
      id := 8
      data1 := [9]
      data2 := CloudId.toBytes 5 ++ CloudId.toBytes 6
      data3 := CloudPointer.toBytes ⟨0, 3, 0, 100⟩ ++ CloudPointer.toBytes ⟨0, 0, 0, 0⟩ })

theorem replayItems_rewrittenJournal :
    replayItems rewrittenJournal 0 0 = [rewrittenBlock, rewrittenInode] := by
  decide +kernel

theorem parseIds_rewrittenInode : parseIds rewrittenInode.2.data2 = [5, 6] := by
  decide +kernel

/-- The contents of the blocks and of the inode item. -/
def rewrittenContents (id : CloudId) : Bytes :=
  if id = 8 then [9] else [1, 2, 3, 4, 5, 6]

/-- The inode map of the checkpoint names the version of the inode before that. -/
def rewrittenMap : List (CloudId × CloudPointer) := [(4, ⟨0, 3, 100, 157⟩)]

theorem keepsBlocks_iff_rewritten :
    KeepsBlocks rewrittenMap (cacheFiles rewrittenJournal fun _ _ => none)
        rewrittenContents [rewrittenBlock] rewrittenInode ↔
      ∀ id ∈ parseIds rewrittenInode.2.data2, id = 0 :=
  keepsBlocks_iff rewrittenMap rewrittenJournal _ rewrittenContents 0 0 [rewrittenBlock] []
    rewrittenInode replayItems_rewrittenJournal (by decide) (by decide)
    (by simp [parseIds_rewrittenInode, rewrittenMap])

/-- The block that is only in the cloud is lost, whatever the cloud holds. -/
theorem rewrittenInode_loses_block :
    replayItems rewrittenJournal 0 0 = [rewrittenBlock] ++ [rewrittenInode] ∧
      ∀ cloud, ¬ KeepsBlocks rewrittenMap (cacheFiles rewrittenJournal cloud)
        rewrittenContents [rewrittenBlock] rewrittenInode := by
  refine ⟨replayItems_rewrittenJournal, ?_⟩
  rintro cloud ⟨t, item, hreplay, hitem, hkeep⟩
  have hfirst : (parseIds rewrittenInode.2.data2)[0]? = some 5 := by
    rw [parseIds_rewrittenInode]
    rfl
  rcases hkeep 0 5 hfirst (by decide) with ⟨hlink, -⟩
  rcases replayTable_link hreplay hitem hlink with ⟨ref, href⟩
  rcases replayTable_cases hreplay href with ⟨-, ⟨hmap, -⟩ | ⟨last, hlast, -⟩⟩
  · exact absurd hmap (by decide)
  · have hmem := (lastRecord_some hlast).1
    have hlastId := (lastRecord_some hlast).2
    simp only [cons_append, nil_append, mem_cons, not_mem_nil, or_false] at hmem
    rcases hmem with rfl | rfl
    · exact absurd hlastId (by decide)
    · exact absurd hlastId (by decide)

end BlueSky
