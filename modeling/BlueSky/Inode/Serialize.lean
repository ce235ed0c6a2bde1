import BlueSky.Inode.Model
import BlueSky.File.Refinement

/-!
# Serialized inodes

`bluesky_serialize_inode` writes an inode to the data of a log item, with a link for each
block of a file, and `bluesky_deserialize_inode` reads it back.  A hole becomes a null link,
and every link becomes a block that is a reference, so that reading a hole afterwards
follows a null pointer.

Main results:

- Theorem {lit}`SerializedInode.ofBytes_append`: the fixed part of an inode is read back.
- Theorem {lit}`direntLoop_direntsBytes`: the entries of a directory are read back in order.
- Theorem {lit}`roundTrips_iff`: an inode survives being serialized if and only if it has no
  hole.
-/

namespace BlueSky

open List Option ByteLib ChunkLib CStringLib PackedLib SortedSeqLib

/-! ## The fixed part -/

/-- The numeric value of a file type. -/
def FileType.code : FileType → BitVec 32
  | regular => 1
  | directory => 2
  | block => 3
  | character => 4
  | symlink => 5
  | socket => 6
  | fifo => 7
  | pending => 0
  | invalid => -1

/-- What a reader makes of a numeric value. -/
def FileType.ofCode (code : BitVec 32) : FileType :=
  match code.toNat with
  | 0 => pending
  | 1 => regular
  | 2 => directory
  | 3 => block
  | 4 => character
  | 5 => symlink
  | 6 => socket
  | 7 => fifo
  | _ => invalid

@[simp]
theorem FileType.ofCode_code (t : FileType) : ofCode t.code = t := by
  cases t <;> rfl

/-- `INODE_MAGIC`. -/
def inodeMagic : BitVec 64 := 0xa6832100943d71e6

/-- `struct serialized_inode`. -/
structure SerializedInode where
  signature : BitVec 64
  type : BitVec 32
  mode : BitVec 32
  uid : BitVec 32
  gid : BitVec 32
  nlink : BitVec 32
  inum : BitVec 64
  changeCount : BitVec 64
  atime : BitVec 64
  ctime : BitVec 64
  mtime : BitVec 64
  ntime : BitVec 64
deriving DecidableEq, Repr

/-- `sizeof(struct serialized_inode)`. -/
def serializedInodeSize : Nat := 76

namespace SerializedInode

/-- The fields, in order. -/
def fields (raw : SerializedInode) : Fields :=
  [(8, raw.signature.toNat), (4, raw.type.toNat), (4, raw.mode.toNat), (4, raw.uid.toNat),
    (4, raw.gid.toNat), (4, raw.nlink.toNat), (8, raw.inum.toNat), (8, raw.changeCount.toNat),
    (8, raw.atime.toNat), (8, raw.ctime.toNat), (8, raw.mtime.toNat), (8, raw.ntime.toNat)]

/-- The packed bytes. -/
def toBytes (raw : SerializedInode) : Bytes :=
  pack raw.fields

/-- The structure that a buffer starts with. -/
def ofBytes (buf : Bytes) : SerializedInode where
  signature := readField 64 8 buf 0
  type := readField 32 4 buf 8
  mode := readField 32 4 buf 12
  uid := readField 32 4 buf 16
  gid := readField 32 4 buf 20
  nlink := readField 32 4 buf 24
  inum := readField 64 8 buf 28
  changeCount := readField 64 8 buf 36
  atime := readField 64 8 buf 44
  ctime := readField 64 8 buf 52
  mtime := readField 64 8 buf 60
  ntime := readField 64 8 buf 68

@[simp]
theorem length_toBytes (raw : SerializedInode) : raw.toBytes.length = serializedInodeSize := by
  rw [toBytes, length_pack]
  rfl

/-- A written structure is read back, whatever follows it. -/
theorem ofBytes_append (raw : SerializedInode) (rest : Bytes) :
    ofBytes (raw.toBytes ++ rest) = raw := by
  have hfield := fun i k x post => readField_pack (raw.fields.take i) k x post rest
  have hsignature := hfield 0 8 raw.signature (raw.fields.drop 1)
  have htype := hfield 1 4 raw.type (raw.fields.drop 2)
  have hmode := hfield 2 4 raw.mode (raw.fields.drop 3)
  have huid := hfield 3 4 raw.uid (raw.fields.drop 4)
  have hgid := hfield 4 4 raw.gid (raw.fields.drop 5)
  have hnlink := hfield 5 4 raw.nlink (raw.fields.drop 6)
  have hinum := hfield 6 8 raw.inum (raw.fields.drop 7)
  have hcount := hfield 7 8 raw.changeCount (raw.fields.drop 8)
  have hatime := hfield 8 8 raw.atime (raw.fields.drop 9)
  have hctime := hfield 9 8 raw.ctime (raw.fields.drop 10)
  have hmtime := hfield 10 8 raw.mtime (raw.fields.drop 11)
  have hntime := hfield 11 8 raw.ntime []
  unfold ofBytes
  cases raw with
  | mk signature type mode uid gid nlink inum changeCount atime ctime mtime ntime =>
    exact (mk.injEq ..).mpr ⟨hsignature, htype, hmode, huid, hgid, hnlink, hinum, hcount,
      hatime, hctime, hmtime, hntime⟩

end SerializedInode

/-! ## Writing and reading inodes -/

/-- The log item of an inode; its type is `LOGTYPE_INODE`. -/
structure InodeItem where
  id : CloudId
  inum : BitVec 64
  data : Bytes
  links : List (Option BlockItem)

/-- The fixed part of an inode. -/
def Inode.serialized (inode : Inode) : SerializedInode where
  signature := inodeMagic
  type := inode.type.code
  mode := inode.mode
  uid := inode.uid
  gid := inode.gid
  nlink := inode.nlink
  inum := inode.inum
  changeCount := BitVec.ofNat 64 inode.changeCount
  atime := BitVec.ofInt 64 inode.atime
  ctime := BitVec.ofInt 64 inode.ctime
  mtime := BitVec.ofInt 64 inode.mtime
  ntime := BitVec.ofInt 64 inode.ntime

/-- An entry of a directory: `seq`, `inum` and the name. -/
def direntBytes (d : DirEntry) : Bytes :=
  pack [(4, d.cookie.toNat), (8, d.inum.toNat)] ++ d.name.terminated

/-- The entries of a directory, ended by a zero `seq`. -/
def direntsBytes (dirents : List DirEntry) : Bytes :=
  (dirents.map direntBytes).flatten ++ leBytes 4 0

/-- The link that is written for a block. -/
def Block.link (b : Block) : Option BlockItem :=
  if b.type = .ref then b.ref else none

/-- The contents of a serialized inode, behind the fixed part. -/
def Inode.contentBytes (inode : Inode) : Bytes :=
  match inode.type with
  | .regular => leBytes 8 inode.size
  | .directory => direntsBytes inode.dir.dirents
  | .symlink => inode.symlinkContents.terminated
  | _ => []

/-- `bluesky_serialize_inode`. -/
def Inode.serializeInode (inode : Inode) (id : CloudId) : InodeItem where
  id := id
  inum := inode.inum
  data := inode.serialized.toBytes ++ inode.contentBytes
  links := if inode.type = .regular then inode.blocks.map Block.link else []

/-- The loop of `bluesky_deserialize_inode` over the entries of a directory. -/
def direntLoop : Nat → Bytes → Directory → Option Directory
  | 0, _, _ => none
  | fuel + 1, buf, dir =>
    if buf.length < 4 then none
    else if fieldAt buf 0 4 = 0 then some dir
    else if buf.length < 12 then none
    else
      (readString (buf.drop 12)).bind fun name =>
        direntLoop fuel (buf.drop (12 + name.terminated.length))
          (dir.add { name := name, cookie := readField 32 4 buf 0, inum := readField 64 8 buf 4 })

/-- A block as `bluesky_deserialize_inode` makes it from a link. -/
def Block.ofLink (link : Option BlockItem) : Block where
  type := .ref
  ref := link
  dirty := none

/-- Gives an inode the size and the blocks of a file. -/
def Inode.withFile (inode : Inode) (size : Nat) (blocks : List Block) : Inode :=
  { inode with size := size, blocks := blocks }

/-- The part of `bluesky_deserialize_inode` that depends on the type. -/
def deserializeContents (inode : Inode) (buf : Bytes) (links : List (Option BlockItem)) :
    Option Inode :=
  match inode.type with
  | .regular =>
    if buf.length < 8 then none
    else
      let size := fieldAt buf 0 8
      let blocks := (size + blockSize - 1) % 2 ^ 64 / blockSize % 2 ^ 32
      if blocks = links.length then
        some (inode.withFile size (links.map Block.ofLink))
      else none
  | .directory =>
    (direntLoop (buf.length + 1) buf inode.dir).map fun dir => { inode with dir := dir }
  | .symlink => (readString buf).map fun text => { inode with symlinkContents := text }
  | _ => some inode

/-- The metadata of a serialized inode. -/
def Inode.withMetadata (inode : Inode) (raw : SerializedInode) : Inode :=
  { inode.initInode (FileType.ofCode raw.type) with
    mode := raw.mode
    uid := raw.uid
    gid := raw.gid
    nlink := raw.nlink
    changeCount := raw.changeCount.toNat
    changeCommit := raw.changeCount.toNat
    atime := raw.atime.toInt
    ctime := raw.ctime.toInt
    mtime := raw.mtime.toInt
    ntime := raw.ntime.toInt }

/-- `bluesky_deserialize_inode`.  A failed assertion, or a read behind the end of the data, has
no result. -/
def Inode.deserializeInode (inode : Inode) (item : InodeItem) : Option (Inode × Bool) :=
  if item.data.length < serializedInodeSize then none
  else
    let raw := SerializedInode.ofBytes item.data
    if raw.signature ≠ inodeMagic then some (inode, false)
    else if inode.inum ≠ raw.inum then some (inode, false)
    else
      (deserializeContents (inode.withMetadata raw) (item.data.drop serializedInodeSize)
        item.links).map fun inode => (inode, true)

/-! ## Directories -/

theorem direntLoop_cons (fuel : Nat) (d : DirEntry) (hcookie : d.cookie ≠ 0) (rest : Bytes)
    (dir : Directory) :
    direntLoop (fuel + 1) (direntBytes d ++ rest) dir = direntLoop fuel rest (dir.add d) := by
  have hlength : 12 ≤ (direntBytes d ++ rest).length := by
    simp [direntBytes, width]
  have hseq := readField_pack [] 4 d.cookie [(8, d.inum.toNat)] (d.name.terminated ++ rest)
  have hinum := readField_pack [(4, d.cookie.toNat)] 8 d.inum [] (d.name.terminated ++ rest)
  have hbytes : direntBytes d ++ rest =
      pack [(4, d.cookie.toNat), (8, d.inum.toNat)] ++ (d.name.terminated ++ rest) := by
    rw [direntBytes, append_assoc]
  have hdrop : (direntBytes d ++ rest).drop 12 = d.name.terminated ++ rest := by
    rw [hbytes]
    exact drop_left' rfl
  have hnonzero : fieldAt (direntBytes d ++ rest) 0 4 ≠ 0 := by
    have hfield := toNat_readField 4 (direntBytes d ++ rest) 0
    rw [hbytes] at hfield ⊢
    rw [← hfield]
    intro hzero
    exact hcookie (hseq.symm.trans (BitVec.eq_of_toNat_eq hzero))
  have hrest : (direntBytes d ++ rest).drop (12 + d.name.terminated.length) = rest := by
    rw [← drop_drop, hdrop]
    exact drop_left' rfl
  rw [direntLoop, if_neg (by omega), if_neg hnonzero, if_neg (by omega), hdrop,
    readString_append, bind_some, hrest, hbytes]
  exact congrArg (direntLoop fuel rest ∘ dir.add) (by
    cases d
    exact (DirEntry.mk.injEq ..).mpr ⟨rfl, hseq, hinum⟩)

/-- The entries of a directory are read back in order. -/
theorem direntLoop_direntsBytes {dirents : List DirEntry} (h : ∀ d ∈ dirents, d.cookie ≠ 0)
    {fuel : Nat} (hfuel : dirents.length < fuel) (dir : Directory) :
    direntLoop fuel (direntsBytes dirents) dir = some (dirents.foldl Directory.add dir) := by
  induction dirents generalizing fuel dir with
  | nil =>
    cases fuel with
    | zero => simp at hfuel
    | succ fuel => rfl
  | cons d dirents ih =>
    cases fuel with
    | zero => simp at hfuel
    | succ fuel =>
      have hbytes : direntsBytes (d :: dirents) = direntBytes d ++ direntsBytes dirents := by
        simp [direntsBytes]
      rw [hbytes, direntLoop_cons fuel d (h d (by simp)), foldl_cons]
      exact ih (fun d hd => h d (mem_cons_of_mem _ hd)) (by simpa using hfuel) _

theorem length_le_direntsBytes (dirents : List DirEntry) :
    dirents.length ≤ (direntsBytes dirents).length := by
  induction dirents with
  | nil => exact Nat.zero_le _
  | cons d dirents ih =>
    simp only [direntsBytes, map_cons, flatten_cons, length_append, length_cons] at ih ⊢
    have hpos : 1 ≤ (direntBytes d).length := by
      simp [direntBytes, width]
      omega
    omega

theorem dirents_foldl_add (dirents : List DirEntry) (dir : Directory) :
    (dirents.foldl Directory.add dir).dirents =
      dirents.foldl (insertSorted DirEntry.key) dir.dirents := by
  induction dirents generalizing dir with
  | nil => rfl
  | cons d dirents ih => exact ih (dir.add d)

/-- A directory is read back with the same entries. -/
theorem DirInv.direntLoop {dir : Directory} (h : DirInv dir) :
    ∃ dir', direntLoop ((direntsBytes dir.dirents).length + 1) (direntsBytes dir.dirents) .empty =
      some dir' ∧ dir'.dirents = dir.dirents := by
  have hcookies : ∀ d ∈ dir.dirents, d.cookie ≠ 0 := by
    intro d hd hzero
    have hrange := (h.cookies d hd).1
    rw [hzero] at hrange
    exact absurd hrange (by decide)
  have hfuel := Nat.lt_succ_of_le (length_le_direntsBytes dir.dirents)
  refine ⟨_, direntLoop_direntsBytes hcookies hfuel .empty, ?_⟩
  rw [dirents_foldl_add]
  exact @Sorted.foldl_insertSorted _ DirEntry.key [] dir.dirents h.sorted

/-! ## Files -/

/-- The size of the array that operations describe is limited. -/
theorem length_apply_le (ops : List FileOp) {a : Bytes} (ha : a.length ≤ maxFileSize) :
    (ops.foldl FileOp.apply a).length ≤ maxFileSize := by
  induction ops generalizing a with
  | nil => exact ha
  | cons op ops ih =>
    apply ih
    cases op with
    | truncate now size =>
      rw [FileOp.apply]
      split_ifs with hsize
      · rwa [length_fill]
      · exact ha
    | write now offset data =>
      rw [FileOp.apply]
      split_ifs with hin
      · rwa [length_splice (by omega)]
      · exact ha
    | flush ids => exact ha
    | dropCached => exact ha
    | logThreadWrites i => exact ha

/-- A regular file as operations on a fresh one and a flush at the end leave it. -/
def FlushedFile (inode : FileInode) : Prop :=
  ∃ (cacheDirty : Int) (ops : List FileOp) (ids : Nat → CloudId) (logItems : List BlockItem)
    (ctx : FileCtx) (result : FileCtx × List BlockItem),
    fileRun (newFile inode.inum cacheDirty) ops = some ctx ∧
    fileFlush ids ctx logItems = some result ∧
    inode.type = .regular ∧ inode.size = result.1.inode.size ∧
    inode.blocks = result.1.inode.blocks

theorem FlushedFile.spec {inode : FileInode} (h : FlushedFile inode) :
    FileInv inode ∧ inode.size ≤ maxFileSize ∧ ∀ b ∈ inode.blocks, b.type ≠ .dirty := by
  rcases h with
    ⟨cacheDirty, ops, ids, logItems, ctx, result, hrun, hflush, htype, hsize, hblocks⟩
  rcases (Represents.newFile inode.inum cacheDirty).run ops with ⟨ctx', hrun', hrep⟩
  rw [hrun, some_inj] at hrun'
  subst hrun'
  rcases hrep.inv.flush ids logItems with ⟨ctx', logItems', hflush', hinv, hsize', -⟩
  rw [hflush, some_inj] at hflush'
  subst hflush'
  have hsizes : inode.size = ctx'.inode.size := hsize
  have hsame : inode.blocks = ctx'.inode.blocks := hblocks
  refine ⟨⟨htype, ?_, ?_⟩, ?_, ?_⟩
  · rw [hsame]
    exact hinv.blocks_ok
  · rw [FileInode.contents, hsame, hsizes]
    exact hinv.chunked
  · rw [hsizes, hsize', ← hrep.length_eq]
    exact length_apply_le ops (Nat.zero_le _)
  · rw [fileFlush, if_neg (not_not.mpr hrep.inv.regular)] at hflush
    rcases bind_eq_some_iff.mp hflush with ⟨⟨blocks, items⟩, hblocks', heq⟩
    rw [some_inj, Prod.mk.injEq] at heq
    rw [hsame, ← heq.1]
    exact FileInv.flushBlocks_clean hblocks'

/-- What a read returns, in the file or outside. -/
theorem FileInv.fileRead_bytes {inode : FileInode} (h : FileInv inode) (cacheDirty : Int)
    (offset len : Nat) :
    (fileRead ⟨cacheDirty, inode⟩ offset len).map Prod.snd =
      some (if offset + len ≤ inode.size then
        slice (flat 0 blockSize inode.size inode.contents) offset len else []) := by
  by_cases hin : offset + len ≤ inode.size
  · rcases @FileInv.read ⟨cacheDirty, inode⟩ h offset len hin with ⟨ctx', hread, -⟩
    rw [hread, if_pos hin]
    rfl
  · rw [if_neg hin, fileRead]
    dsimp only
    rw [if_neg (by omega), if_neg (not_not.mpr h.regular)]
    by_cases hoffset : offset < inode.size
    · rw [if_neg (not_not.mpr hoffset), if_pos (by omega)]
      rfl
    · rw [if_pos hoffset]
      rfl

/-- A clean block that is no hole is the one that is made of its link. -/
theorem Block.Ok.ofLink_link {b : Block} (h : b.Ok) (hdirty : b.type ≠ .dirty)
    (hzero : b.type ≠ .zero) : Block.ofLink b.link = b := by
  unfold Block.Ok at h
  cases b with
  | mk type ref dirty =>
    cases type with
    | zero => exact absurd rfl hzero
    | ref =>
      rcases h with ⟨hnone, -⟩
      simp only at hnone
      simp [Block.ofLink, Block.link, hnone]
    | dirty => exact absurd rfl hdirty

/-- Reading a block that was made of a null link follows the null pointer. -/
theorem fileRead_null {ctx : FileCtx} {k : Nat} (htype : ctx.inode.type = .regular)
    (hblock : ctx.inode.blocks[k]? = some (Block.ofLink none))
    (hsize : k * blockSize < ctx.inode.size) : fileRead ctx (k * blockSize) 1 = none := by
  have hdiv : k * blockSize / blockSize = k := Nat.mul_div_cancel k blockSize_pos
  have hread : ∀ bytes, readBlock ctx (k * blockSize) bytes = none := by
    intro bytes
    rw [readBlock, hdiv, hblock]
    rfl
  rw [fileRead, if_neg (by omega), if_neg (not_not.mpr htype), if_neg (not_not.mpr hsize),
    if_neg (by omega), readLoop, if_neg (by omega)]
  dsimp only
  rw [hread]
  rfl

/-! ## The round trip -/

/-- The metadata that a serialized inode carries. -/
structure SameMetadata (i j : Inode) : Prop where
  type : j.type = i.type
  mode : j.mode = i.mode
  uid : j.uid = i.uid
  gid : j.gid = i.gid
  nlink : j.nlink = i.nlink
  changeCount : j.changeCount = i.changeCount
  atime : j.atime = i.atime
  ctime : j.ctime = i.ctime
  mtime : j.mtime = i.mtime
  ntime : j.ntime = i.ntime

/-- Two inodes of one type that look the same to their users: the size and what
`bluesky_file_read` returns at every offset, the entries in cookie order, the text. -/
def SameContents (i j : Inode) : Prop :=
  match i.type with
  | .regular =>
    j.size = i.size ∧ ∀ cacheDirty offset len,
      (fileRead ⟨cacheDirty, j.toFileInode⟩ offset len).map Prod.snd =
        (fileRead ⟨cacheDirty, i.toFileInode⟩ offset len).map Prod.snd
  | .directory => j.dir.dirents = i.dir.dirents
  | .symlink => j.symlinkContents = i.symlinkContents
  | _ => True

/-- Reading what was written for an inode, into any inode with its number, restores it. -/
def InodeRoundTrips (id : CloudId) (i : Inode) : Prop :=
  ∀ into : Inode, into.inum = i.inum →
    ∃ j, into.deserializeInode (i.serializeInode id) = some (j, true) ∧
      SameMetadata i j ∧ SameContents i j

/-- The values of the counter and the times are those of their types. -/
structure Inode.Fits (i : Inode) : Prop where
  changeCount : i.changeCount < 2 ^ 64
  times : ∀ t ∈ [i.atime, i.ctime, i.mtime, i.ntime], -2 ^ 63 ≤ t ∧ t < 2 ^ 63

/-- Inodes that operations and a flush make: files, directories, and symbolic links. -/
def Inode.Flushed (i : Inode) : Prop :=
  match i.type with
  | .regular => FlushedFile i.toFileInode
  | .directory => DirReachable i.dir
  | .symlink => True
  | _ => False

theorem toInt_ofInt {t : Int} (h : -2 ^ 63 ≤ t ∧ t < 2 ^ 63) :
    (BitVec.ofInt 64 t).toInt = t := by
  rw [BitVec.toInt_ofInt]
  exact Int.bmod_eq_of_le (by omega) (by omega)

variable {i : Inode}

theorem sameMetadata_withMetadata (hfits : i.Fits) (into : Inode) :
    SameMetadata i (into.withMetadata i.serialized) where
  type := by
    rw [Inode.withMetadata]
    simp only [Inode.serialized, FileType.ofCode_code]
    cases i.type <;> rfl
  mode := rfl
  uid := rfl
  gid := rfl
  nlink := rfl
  changeCount := Nat.mod_eq_of_lt hfits.changeCount
  atime := toInt_ofInt (hfits.times _ (by simp))
  ctime := toInt_ofInt (hfits.times _ (by simp))
  mtime := toInt_ofInt (hfits.times _ (by simp))
  ntime := toInt_ofInt (hfits.times _ (by simp))

theorem deserializeInode_serializeInode {into : Inode} (hinum : into.inum = i.inum) (id : CloudId) :
    into.deserializeInode (i.serializeInode id) =
      (deserializeContents (into.withMetadata i.serialized) i.contentBytes
        (i.serializeInode id).links).map fun j => (j, true) := by
  have hdata : (i.serializeInode id).data = i.serialized.toBytes ++ i.contentBytes := rfl
  have hsignature : ¬ i.serialized.signature ≠ inodeMagic := not_not.mpr rfl
  have hlength : ¬ (i.serializeInode id).data.length < serializedInodeSize := by
    rw [hdata, length_append, SerializedInode.length_toBytes]
    omega
  have hdrop : (i.serializeInode id).data.drop serializedInodeSize = i.contentBytes := by
    rw [hdata]
    exact drop_left' (SerializedInode.length_toBytes _)
  have hraw : SerializedInode.ofBytes (i.serializeInode id).data = i.serialized := by
    rw [hdata, SerializedInode.ofBytes_append]
  rw [Inode.deserializeInode, if_neg hlength]
  dsimp only
  rw [hraw, hdrop, if_neg hsignature, if_neg (show ¬ into.inum ≠ i.serialized.inum from
    not_not.mpr hinum)]

theorem SameMetadata.withFile {j : Inode} (h : SameMetadata i j) (size : Nat)
    (blocks : List Block) : SameMetadata i (j.withFile size blocks) :=
  ⟨h.type, h.mode, h.uid, h.gid, h.nlink, h.changeCount, h.atime, h.ctime, h.mtime, h.ntime⟩

theorem FileInv.blocks_length (h : FileInv i.toFileInode) :
    i.blocks.length = (i.size + blockSize - 1) / blockSize :=
  @FileInv.length_blocks ⟨0, i.toFileInode⟩ h

theorem deserializeContents_regular {j : Inode} (hfile : FlushedFile i.toFileInode)
    (hi : i.type = .regular) (hj : j.type = .regular) :
    deserializeContents j i.contentBytes (i.blocks.map Block.link) =
      some (j.withFile i.size (i.blocks.map fun b => Block.ofLink b.link)) := by
  rcases hfile.spec with ⟨hinv, hsize, -⟩
  have hmax : i.size < 2 ^ 40 := lt_of_le_of_lt hsize (by decide)
  have hbytes : i.contentBytes = leBytes 8 i.size := by
    rw [Inode.contentBytes, hi]
  have hread : fieldAt (leBytes 8 i.size) 0 8 = i.size := by
    have hfield := fieldAt_pack [] 8 i.size [] []
    simp only [nil_append, append_nil, pack] at hfield
    exact hfield.trans (Nat.mod_eq_of_lt (by omega))
  have hblocks : (i.size + blockSize - 1) % 2 ^ 64 / blockSize % 2 ^ 32 =
      (i.blocks.map Block.link).length := by
    rw [length_map, hinv.blocks_length]
    unfold blockSize
    omega
  have hlength : ¬ (leBytes 8 i.size).length < 8 := by simp
  rw [deserializeContents, hj, hbytes]
  simp only [hread]
  rw [if_neg hlength, if_pos hblocks, List.map_map]
  rfl

/-- What becomes of a regular file. -/
theorem deserializeInode_regular {into : Inode} (hfits : i.Fits) (hfile : FlushedFile i.toFileInode)
    (hi : i.type = .regular) (hinum : into.inum = i.inum) (id : CloudId) :
    into.deserializeInode (i.serializeInode id) =
      some ((into.withMetadata i.serialized).withFile i.size
        (i.blocks.map fun b => Block.ofLink b.link), true) := by
  have hlinks : (i.serializeInode id).links = i.blocks.map Block.link := if_pos hi
  have htype := (sameMetadata_withMetadata hfits into).type.trans hi
  rw [deserializeInode_serializeInode hinum, hlinks,
    deserializeContents_regular hfile hi htype, map_some]

/-- A file without holes survives. -/
theorem roundTrips_solid (hfits : i.Fits) (hfile : FlushedFile i.toFileInode)
    (hi : i.type = .regular) (hsolid : ∀ b ∈ i.blocks, b.type ≠ .zero) (id : CloudId) :
    InodeRoundTrips id i := by
  rcases hfile.spec with ⟨hinv, -, hclean⟩
  have hblocks : (i.blocks.map fun b => Block.ofLink b.link) = i.blocks := by
    conv_rhs => rw [← List.map_id i.blocks]
    refine map_congr_left ?_
    intro b hb
    exact (hinv.blocks_ok b hb).ofLink_link (hclean b hb) (hsolid b hb)
  intro into hinum
  have hmeta := (sameMetadata_withMetadata hfits into).withFile i.size i.blocks
  refine ⟨_, by rw [deserializeInode_regular hfits hfile hi hinum, hblocks], hmeta, ?_⟩
  rw [SameContents, hi]
  refine ⟨rfl, ?_⟩
  intro cacheDirty offset len
  generalize hj : (into.withMetadata i.serialized).withFile i.size i.blocks = j at hmeta
  have hsize : j.size = i.size := by rw [← hj]; rfl
  have hsame : j.blocks = i.blocks := by rw [← hj]; rfl
  have hinv' : FileInv j.toFileInode := by
    refine ⟨hmeta.type.trans hi, ?_, ?_⟩
    · rw [hsame]
      exact hinv.blocks_ok
    · rw [FileInode.contents, hsame, hsize]
      exact hinv.chunked
  rw [hinv'.fileRead_bytes, hinv.fileRead_bytes]
  simp only [FileInode.contents, hsame, hsize]

/-- A hole cannot be read any more. -/
theorem not_roundTrips_hole (hfits : i.Fits) (hfile : FlushedFile i.toFileInode)
    (hi : i.type = .regular) {b : Block} (hb : b ∈ i.blocks) (hzero : b.type = .zero)
    (id : CloudId) : ¬ InodeRoundTrips id i := by
  rcases hfile.spec with ⟨hinv, -, -⟩
  intro htrip
  have hnew : (newInode i.inum .pending).inum = i.inum := rfl
  rcases htrip (newInode i.inum .pending) hnew with ⟨j, hj, hmeta, hsame⟩
  rw [deserializeInode_regular hfits hfile hi hnew, some_inj, Prod.mk.injEq] at hj
  rcases hj with ⟨hj, -⟩
  rw [SameContents, hi] at hsame
  rcases getElem?_of_mem hb with ⟨k, hk⟩
  have hoffset : k * blockSize < i.size := by
    have hklen : k < i.blocks.length := (List.getElem?_eq_some_iff.mp hk).1
    have hcount := hinv.blocks_length
    unfold blockSize at hcount ⊢
    omega
  have hblock : j.blocks[k]? = some (Block.ofLink none) := by
    rw [← hj]
    simp [Inode.withFile, hk, Block.link, hzero]
  have hnull : fileRead ⟨0, j.toFileInode⟩ (k * blockSize) 1 = none := by
    refine fileRead_null (hmeta.type.trans hi) hblock ?_
    rw [hsame.1]
    exact hoffset
  have hread := hsame.2 0 (k * blockSize) 1
  rw [hnull, hinv.fileRead_bytes] at hread
  cases hread

theorem roundTrips_directory (hfits : i.Fits) (hdir : DirReachable i.dir) (hi : i.type = .directory)
    (id : CloudId) : InodeRoundTrips id i := by
  intro into hinum
  have hmeta := sameMetadata_withMetadata hfits into
  rcases (dirInv_of_reachable hdir).direntLoop with ⟨dir, hloop, hdirents⟩
  have hbytes : i.contentBytes = direntsBytes i.dir.dirents := by
    rw [Inode.contentBytes, hi]
  have hempty : (into.withMetadata i.serialized).dir = .empty := by
    simp [Inode.withMetadata, Inode.initInode, Inode.serialized, hi]
  refine ⟨{ into.withMetadata i.serialized with dir := dir }, ?_,
    ⟨hmeta.type, hmeta.mode, hmeta.uid, hmeta.gid, hmeta.nlink, hmeta.changeCount, hmeta.atime,
      hmeta.ctime, hmeta.mtime, hmeta.ntime⟩, ?_⟩
  · rw [deserializeInode_serializeInode hinum, deserializeContents, hmeta.type, hi]
    dsimp only
    rw [hempty, hbytes, hloop]
    rfl
  · rw [SameContents, hi]
    exact hdirents

theorem roundTrips_symlink (hfits : i.Fits) (hi : i.type = .symlink) (id : CloudId) :
    InodeRoundTrips id i := by
  intro into hinum
  have hmeta := sameMetadata_withMetadata hfits into
  have hbytes : i.contentBytes = i.symlinkContents.terminated := by
    rw [Inode.contentBytes, hi]
  have hread := readString_append i.symlinkContents []
  rw [append_nil] at hread
  refine ⟨{ into.withMetadata i.serialized with symlinkContents := i.symlinkContents }, ?_,
    ⟨hmeta.type, hmeta.mode, hmeta.uid, hmeta.gid, hmeta.nlink, hmeta.changeCount, hmeta.atime,
      hmeta.ctime, hmeta.mtime, hmeta.ntime⟩, ?_⟩
  · rw [deserializeInode_serializeInode hinum, deserializeContents, hmeta.type, hi]
    dsimp only
    rw [hbytes, hread]
    rfl
  · rw [SameContents, hi]

/-- An inode survives being serialized if and only if it is no file with a hole. -/
theorem roundTrips_iff (i : Inode) (hfits : i.Fits) (hflushed : i.Flushed) (id : CloudId) :
    InodeRoundTrips id i ↔ (i.type = .regular → ∀ b ∈ i.blocks, b.type ≠ .zero) := by
  rw [Inode.Flushed] at hflushed
  cases hi : i.type with
  | regular =>
    rw [hi] at hflushed
    constructor
    · intro htrip _ b hb hzero
      exact not_roundTrips_hole hfits hflushed hi hb hzero id htrip
    · intro hsolid
      exact roundTrips_solid hfits hflushed hi (hsolid rfl) id
  | directory =>
    rw [hi] at hflushed
    exact iff_of_true (roundTrips_directory hfits hflushed hi id) (by simp)
  | symlink => exact iff_of_true (roundTrips_symlink hfits hi id) (by simp)
  | _ =>
    rw [hi] at hflushed
    exact hflushed.elim

/-- A file of three bytes. -/
def smallFile : Inode :=
  (newInode 5 .regular).withFile 3 [⟨.ref, some (flushedItem 5 9 [1, 2, 3]), none⟩]

theorem roundTrips_iff_small :
    InodeRoundTrips 7 smallFile ↔
      (smallFile.type = .regular → ∀ b ∈ smallFile.blocks, b.type ≠ .zero) :=
  roundTrips_iff smallFile ⟨by decide, by decide⟩
    ⟨0, [.truncate 1 3, .write 1 0 [1, 2, 3]], fun _ => 9, [], _, _, rfl, rfl, rfl, rfl, rfl⟩ 7

/-- A file that has been extended to three bytes, none of which has been written. -/
def holeFile : Inode :=
  (newInode 5 .regular).withFile 3 [Block.fresh]

/-- The bytes of the hole could be read before, and cannot be afterwards. -/
theorem hole_unreadable :
    holeFile.Flushed ∧ holeFile.Fits ∧ ¬ InodeRoundTrips 7 holeFile ∧
      (fileRead ⟨0, holeFile.toFileInode⟩ 0 3).map Prod.snd = some [0, 0, 0] ∧
      ∃ j, (newInode 5 .pending).deserializeInode (holeFile.serializeInode 7) = some (j, true) ∧
        fileRead ⟨0, j.toFileInode⟩ 0 3 = none := by
  have hflushed : FlushedFile holeFile.toFileInode :=
    ⟨0, [.truncate 1 3], fun _ => 9, [], _, _, rfl, rfl, rfl, rfl, rfl⟩
  have hfits : holeFile.Fits := ⟨by decide, by decide⟩
  have hnew : (newInode 5 .pending).inum = holeFile.inum := rfl
  refine ⟨hflushed, hfits, not_roundTrips_hole hfits hflushed rfl mem_cons_self rfl 7, rfl,
    _, deserializeInode_regular hfits hflushed rfl hnew 7, rfl⟩

end BlueSky
