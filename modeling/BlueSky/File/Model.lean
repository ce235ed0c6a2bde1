import BlueSky.Format
import BlueSky.Lib.Chunks

/-!
# Regular files

The block array of a regular file and the operations of `file.c` on it.  A block
is a hole, a reference to a log item, or dirty data in memory.  A null pointer
dereference, a failed assertion or a copy outside a buffer ends the program; such
a step has the result {lean}`none`.
-/

namespace BlueSky

open ByteLib ChunkLib

/-! ## Data model -/

/-- `BLUESKY_BLOCK_SIZE`. -/
def blockSize : Nat := 32768

/-- `BLUESKY_MAX_FILE_SIZE`. -/
def maxFileSize : Nat := blockSize * 2 ^ 24

theorem blockSize_pos : 0 < blockSize := by
  decide

/-- `BlueSkyFileType`. -/
inductive FileType where
  | regular
  | directory
  | block
  | character
  | symlink
  | socket
  | fifo
  | pending
  | invalid
deriving DecidableEq, Repr

/-- `BlueSkyBlockType`. -/
inductive BlockType where
  | zero
  | ref
  | dirty
deriving DecidableEq, Repr

/-- A log item with the data of a block.  The payload is what the item was created
with; {lit}`data` is the copy in memory, if there is one. -/
structure BlockItem where
  id : CloudId
  inum : BitVec 64
  payload : Bytes
  data : Option Bytes
  dataLockCount : Int
  locationFlags : LocationFlags
deriving DecidableEq, Repr

/-- `BlueSkyBlock`. -/
structure Block where
  type : BlockType
  ref : Option BlockItem
  dirty : Option Bytes
deriving DecidableEq, Repr

/-- A block as `g_array_set_size` creates it. -/
def Block.fresh : Block where
  type := .zero
  ref := none
  dirty := none

/-- The part of `BlueSkyInode` that the file operations use. -/
structure FileInode where
  type : FileType
  inum : BitVec 64
  size : Nat
  blocks : List Block
  changeCount : Nat
  ctime : Int
  mtime : Int
  changeTime : Int
deriving DecidableEq, Repr

/-- An inode with the dirty-block counter of its file system. -/
structure FileCtx where
  cacheDirty : Int
  inode : FileInode
deriving DecidableEq, Repr

/-- `bluesky_new_inode` for a regular file. -/
def newFile (inum : BitVec 64) (cacheDirty : Int) : FileCtx where
  cacheDirty := cacheDirty
  inode :=
    { type := .regular, inum := inum, size := 0, blocks := [], changeCount := 1,
      ctime := 0, mtime := 0, changeTime := 0 }

/-! ## Operations -/

/-- `bluesky_inode_update_ctime`, less the update of the LRU lists. -/
def updateCtime (now : Int) (updateMtime : Bool) (inode : FileInode) : FileInode :=
  { inode with
    changeCount := inode.changeCount + 1
    ctime := now
    mtime := if updateMtime then now else inode.mtime
    changeTime := if inode.changeTime = 0 then now else inode.changeTime }

/-- `bluesky_cloudlog_fetch` of a flushed block: its payload is read back. -/
def BlockItem.fetch (item : BlockItem) : BlockItem :=
  { item with data := some (item.data.getD item.payload) }

/-- The length `bluesky_block_touch` gives to a block it allocates. -/
def touchLen (inode : FileInode) (i : Nat) : Nat :=
  if i < inode.blocks.length - 1 then blockSize else inode.size - i * blockSize

/-- The buffer `bluesky_block_touch` leaves in a block. -/
def touchData (block : Block) (len : Nat) (preserve : Bool) : Option (Option Bytes) :=
  match block.type with
  | .zero => some (some (zeros len))
  | .ref =>
    if preserve then block.ref.map fun item => item.fetch.data
    else some (some (zeros len))
  | .dirty => some block.dirty

/-- `bluesky_block_touch`. -/
def blockTouch (ctx : FileCtx) (i : Nat) (preserve : Bool) : Option FileCtx :=
  match ctx.inode.blocks[i]? with
  | none => some ctx
  | some block => do
      let dirty ← touchData block (touchLen ctx.inode i) preserve
      some
        { cacheDirty :=
            if block.type = .dirty then ctx.cacheDirty else ctx.cacheDirty + 1
          inode :=
            { ctx.inode with
              blocks := ctx.inode.blocks.set i
                { type := .dirty, ref := none, dirty := dirty } } }

/-- Apply an update to the dirty buffer of a block. -/
def updateDirty (ctx : FileCtx) (i : Nat) (f : Bytes → Option Bytes) : Option FileCtx := do
  let block ← ctx.inode.blocks[i]?
  let data ← block.dirty
  let data ← f data
  some
    { ctx with
      inode :=
        { ctx.inode with
          blocks := ctx.inode.blocks.set i { block with dirty := some data } } }

/-- `bluesky_string_resize`, with the bytes gained set to zero. -/
def resizeDirty (ctx : FileCtx) (i n : Nat) : Option FileCtx :=
  updateDirty ctx i fun data => some (fill 0 n data)

/-- The number of bytes in the last block of a file. -/
def lastBlockLen (size : Nat) : Nat :=
  if size % blockSize = 0 ∧ 0 < size then blockSize else size % blockSize

/-- Before blocks are added, `bluesky_file_truncate` extends the last block to full
size. -/
def extendLast (ctx : FileCtx) : Option FileCtx :=
  let last := ctx.inode.blocks.length - 1
  match ctx.inode.blocks[last]? with
  | none => some ctx
  | some b =>
    if b.type ≠ .zero ∧ lastBlockLen ctx.inode.size < blockSize then do
      let ctx ← blockTouch ctx last true
      resizeDirty ctx last blockSize
    else some ctx

/-- The part of `bluesky_file_truncate` that adds blocks. -/
def growBlocks (ctx : FileCtx) (blocks : Nat) : Option FileCtx := do
  let ctx ← extendLast ctx
  some
    { ctx with
      inode :=
        { ctx.inode with
          blocks := ctx.inode.blocks ++
            List.replicate (blocks - ctx.inode.blocks.length) Block.fresh } }

/-- The part of `bluesky_file_truncate` that deletes blocks. -/
def shrinkBlocks (ctx : FileCtx) (blocks : Nat) : FileCtx where
  cacheDirty := ctx.cacheDirty -
    ((ctx.inode.blocks.drop blocks).countP fun b => b.type = .dirty)
  inode := { ctx.inode with blocks := ctx.inode.blocks.take blocks }

/-- The part of `bluesky_file_truncate` that sets the number of blocks. -/
def adjustBlocks (ctx : FileCtx) (blocks : Nat) : Option FileCtx :=
  if ctx.inode.blocks.length < blocks then growBlocks ctx blocks
  else if blocks < ctx.inode.blocks.length then some (shrinkBlocks ctx blocks)
  else some ctx

/-- The part of `bluesky_file_truncate` that gives the new last block its size. -/
def resizeLast (ctx : FileCtx) (last size : Nat) : Option FileCtx := do
  let b ← ctx.inode.blocks[last]?
  if b.type = .zero then some ctx
  else if size < ctx.inode.size ∧ lastBlockLen size = blockSize then some ctx
  else do
    let ctx ← blockTouch ctx last true
    resizeDirty ctx last (size - last * blockSize)

/-- An empty file has no last block. -/
def sizeLast (ctx : FileCtx) (blocks size : Nat) : Option FileCtx :=
  if 0 < blocks then resizeLast ctx (blocks - 1) size else some ctx

/-- `bluesky_file_truncate`. -/
def fileTruncate (now : Int) (ctx : FileCtx) (size : Nat) : Option FileCtx :=
  if maxFileSize < size then some ctx
  else if size = ctx.inode.size then some ctx
  else do
    let blocks := (size + blockSize - 1) / blockSize
    let ctx ← adjustBlocks ctx blocks
    let ctx ← sizeLast ctx blocks size
    some { ctx with inode := updateCtime now true { ctx.inode with size := size } }

/-- `memcpy` into the dirty buffer of a block. -/
def storeDirty (ctx : FileCtx) (i pos : Nat) (bytes : Bytes) : Option FileCtx :=
  updateDirty ctx i fun data =>
    if pos + bytes.length ≤ data.length then some (splice data pos bytes) else none

/-- One iteration of the loop of `bluesky_file_write`. -/
def writeBlock (ctx : FileCtx) (offset : Nat) (bytes : Bytes) : Option FileCtx := do
  let blockNum := offset / blockSize
  let blockOffset := offset % blockSize
  let size :=
    if blockNum = ctx.inode.blocks.length - 1 then ctx.inode.size - blockNum * blockSize
    else blockSize
  let preserve := !(blockOffset = 0 ∧ bytes.length = size)
  let ctx ← blockTouch ctx blockNum preserve
  storeDirty ctx blockNum blockOffset bytes

/-- The loop of `bluesky_file_write`; each iteration takes at least one byte. -/
def writeLoop : Nat → FileCtx → Nat → Bytes → Option FileCtx
  | 0, ctx, _, _ => some ctx
  | fuel + 1, ctx, offset, data =>
    if data.length = 0 then some ctx
    else do
      let bytes := min (blockSize - offset % blockSize) data.length
      let ctx ← writeBlock ctx offset (data.take bytes)
      writeLoop fuel ctx (offset + bytes) (data.drop bytes)

/-- `bluesky_file_write`. -/
def fileWrite (now : Int) (ctx : FileCtx) (offset : Nat) (data : Bytes) : Option FileCtx :=
  if ctx.inode.type ≠ .regular then some ctx
  else if ¬ offset < ctx.inode.size then some ctx
  else if ¬ data.length ≤ ctx.inode.size - offset then some ctx
  else if data.length = 0 then some ctx
  else do
    let ctx ← writeLoop data.length ctx offset data
    some { ctx with inode := updateCtime now true ctx.inode }

/-- `bluesky_block_fetch`. -/
def blockFetch (block : Block) : Option Block :=
  if block.type = .ref then
    block.ref.map fun item => { block with ref := some item.fetch }
  else some block

/-- The buffer that the read loop copies from. -/
def Block.buffer (b : Block) : Option Bytes :=
  if b.type = .ref then b.ref.bind BlockItem.data else b.dirty

/-- One iteration of the loop of `bluesky_file_read`. -/
def readBlock (ctx : FileCtx) (offset bytes : Nat) : Option (FileCtx × Bytes) := do
  let blockNum := offset / blockSize
  let blockOffset := offset % blockSize
  let b ← ctx.inode.blocks[blockNum]?
  if b.type = .zero then some (ctx, zeros bytes)
  else do
    let b ← blockFetch b
    let data ← b.buffer
    if blockOffset + bytes ≤ data.length then
      some
        ({ ctx with
            inode := { ctx.inode with blocks := ctx.inode.blocks.set blockNum b } },
          slice data blockOffset bytes)
    else none

/-- The copying loop of `bluesky_file_read`; each iteration takes at least one byte. -/
def readLoop : Nat → FileCtx → Nat → Nat → Option (FileCtx × Bytes)
  | 0, ctx, _, _ => some (ctx, [])
  | fuel + 1, ctx, offset, len =>
    if len = 0 then some (ctx, [])
    else do
      let bytes := min (blockSize - offset % blockSize) len
      let (ctx, head) ← readBlock ctx offset bytes
      let (ctx, tail) ← readLoop fuel ctx (offset + bytes) (len - bytes)
      some (ctx, head ++ tail)

/-- `bluesky_file_read`.  A refused request copies nothing. -/
def fileRead (ctx : FileCtx) (offset len : Nat) : Option (FileCtx × Bytes) :=
  if len = 0 ∧ offset ≤ ctx.inode.size then some (ctx, [])
  else if ctx.inode.type ≠ .regular then some (ctx, [])
  else if ¬ offset < ctx.inode.size then some (ctx, [])
  else if ¬ len ≤ ctx.inode.size - offset then some (ctx, [])
  else readLoop len ctx offset len

/-- The log item `bluesky_block_flush` makes of a dirty block and submits to the
journal. -/
def flushedItem (inum : BitVec 64) (id : CloudId) (data : Bytes) : BlockItem where
  id := id
  inum := inum
  payload := data
  data := some data
  dataLockCount := 1
  locationFlags := { uncommitted := true }

/-- `bluesky_block_flush`. -/
def blockFlush (inum : BitVec 64) (id : CloudId) (block : Block)
    (logItems : List BlockItem) : Option (Block × List BlockItem) :=
  if block.type ≠ .dirty then some (block, logItems)
  else if block.ref ≠ none then none
  else
    block.dirty.map fun data =>
      let item := flushedItem inum id data
      ({ type := .ref, ref := some item, dirty := none }, item :: logItems)

/-- The loop of `bluesky_file_flush` from a block on.  Identifiers are drawn afresh
for each item. -/
def flushBlocks (inum : BitVec 64) (ids : Nat → CloudId) : Nat → List Block →
    List BlockItem → Option (List Block × List BlockItem)
  | _, [], logItems => some ([], logItems)
  | i, b :: bs, logItems => do
      let (b, logItems) ← blockFlush inum (ids i) b logItems
      let (bs, logItems) ← flushBlocks inum ids (i + 1) bs logItems
      some (b :: bs, logItems)

/-- `bluesky_file_flush`: all dirty blocks become log items, which are collected for
the caller. -/
def fileFlush (ids : Nat → CloudId) (ctx : FileCtx) (logItems : List BlockItem) :
    Option (FileCtx × List BlockItem) :=
  if ctx.inode.type ≠ .regular then some (ctx, logItems)
  else do
    let (blocks, logItems) ← flushBlocks ctx.inode.inum ids 0 ctx.inode.blocks logItems
    some
      ({ cacheDirty := ctx.cacheDirty -
          (ctx.inode.blocks.countP fun b => b.type = .dirty)
         inode := { ctx.inode with blocks := blocks } }, logItems)

/-- The loop body of `bluesky_file_drop_cached`: forget data that can be fetched
again. -/
def dropBlock (block : Block) : Option Block :=
  if block.type = .ref then
    block.ref.map fun item =>
      if item.dataLockCount = 0 ∧ item.locationFlags ≠ {} then
        { block with ref := some { item with data := none } }
      else block
  else some block

/-- `bluesky_file_drop_cached`. -/
def fileDropCached (ctx : FileCtx) : Option FileCtx :=
  if ctx.inode.type ≠ .regular then some ctx
  else do
    let blocks ← ctx.inode.blocks.mapM dropBlock
    some { ctx with inode := { ctx.inode with blocks := blocks } }

/-- What the log thread does to the item of a block once it is written: the data is
mapped again, the lock on it is released and the item counts as journaled. -/
def BlockItem.journaled (item : BlockItem) : BlockItem :=
  { item with
    data := some item.payload
    dataLockCount := item.dataLockCount - 1
    locationFlags := { item.locationFlags with journal := true, uncommitted := false } }

/-- The item of a block, if it has one, is written. -/
def Block.journaled (b : Block) : Block :=
  if b.type = .ref then { b with ref := b.ref.map BlockItem.journaled } else b

/-- The log thread reaches the item of a block. -/
def logThreadWrites (ctx : FileCtx) (i : Nat) : FileCtx :=
  { ctx with
    inode := { ctx.inode with blocks := ctx.inode.blocks.modify i Block.journaled } }

end BlueSky
