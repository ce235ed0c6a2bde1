import BlueSky.Nfs.Namespace
import BlueSky.File.Refinement

/-!
# READ and WRITE

The handlers `nfsproc3_read_3_svc` and `nfsproc3_write_3_svc`, with the conversions between the
unsigned fields of the requests and the signed lengths of `file.c`.  A read copies into a buffer of
`NFS_MAXSIZE` bytes on the stack; the model gives the bytes that are copied, however many they are.

Main results:

- Theorem {lit}`readCount_eq_iff`: when the length that READ computes is the right one.
- Theorem {lit}`nfsproc3Read_right_iff`: when READ returns what it should.
- Theorem {lit}`nfsproc3Write_represents`: what WRITE does to the bytes of a file.
- Theorem {lit}`nfsproc3Write_stores_iff`: when an acknowledged WRITE is in the file.
-/

namespace BlueSky

open Function List Option ByteLib ChunkLib

/-! ## Conversions -/

/-- `NFS_MAXSIZE`. -/
def nfsMaxsize : Nat := 2 ^ 20

/-- A signed number converted to `uint64_t`. -/
def toUint64 (n : Int) : Nat :=
  (n % 2 ^ 64).toNat

/-- An unsigned number converted to `int`. -/
def toGint (n : Nat) : Int :=
  (BitVec.ofNat 32 n).toInt

/-- An inode that `file.c` has worked on in place. -/
def NfsState.putFile (s : NfsState) (inode : Inode) (ctx : FileCtx) : NfsState :=
  { s with
    inodes := update s.inodes inode.inum (some { inode with toFileInode := ctx.inode })
    cacheDirty := ctx.cacheDirty }

/-! ## READ -/

/-- `read3res`. -/
structure ReadReply where
  status : NfsStatus
  attributes : Option Fattr3 := none
  count : BitVec 32 := 0
  eof : Bool := false
  dataLen : BitVec 32 := 0

/-- The number of bytes that READ asks `bluesky_file_read` for, when the offset is in the file. -/
def readCount (count : BitVec 32) (size offset : Nat) : Int :=
  toGint (min (toUint64 (min count.toInt nfsMaxsize)) (size - offset))

/-- `nfsproc3_read_3_svc`, with the bytes that it copies into its buffer. -/
def nfsproc3Read (s : NfsState) (file : Bytes) (offset : BitVec 64) (count : BitVec 32) :
    Option (NfsState × ReadReply × Bytes) :=
  match s.lookupFh file with
  | none => some (s, { status := .stale }, [])
  | some inode =>
    if inode.size ≤ offset.toNat then
      some (s, { status := .ok, attributes := some (encodeFattr3 inode), eof := true }, [])
    else do
      let count := readCount count inode.size offset.toNat
      let eof := decide ((offset.toNat + toUint64 count) % 2 ^ 64 = inode.size)
      let (ctx, buf) ← fileRead { cacheDirty := s.cacheDirty, inode := inode.toFileInode }
        offset.toNat (toUint64 count)
      some (s.putFile inode ctx,
        { status := .ok
          attributes := some (encodeFattr3 { inode with toFileInode := ctx.inode })
          count := BitVec.ofInt 32 count
          eof := eof
          dataLen := BitVec.ofInt 32 count }, buf)

/-- The bytes of a file. -/
def Inode.bytes (inode : Inode) : Bytes :=
  flat 0 blockSize inode.size inode.toFileInode.contents

theorem Inode.length_bytes (inode : Inode) : inode.bytes.length = inode.size := by
  rw [Inode.bytes, length_flat]

/-- An inode as requests find it: a file in good order, or another inode, which has no size. -/
structure Inode.InOrder (inode : Inode) : Prop where
  size_le : inode.size ≤ maxFileSize
  file : inode.type = .regular → FileInv inode.toFileInode
  other : inode.type ≠ .regular → inode.size = 0

/-- The number of bytes that a READ is to return. -/
def readLength (size offset count : Nat) : Nat :=
  if size ≤ offset then 0 else min count (min nfsMaxsize (size - offset))

/-- What a READ is to do. -/
structure ReadsRight (inode : Inode) (offset : BitVec 64) (count : BitVec 32) (reply : ReadReply)
    (buf : Bytes) : Prop where
  status : reply.status = .ok
  reported : reply.count.toNat = readLength inode.size offset.toNat count.toNat
  dataLen : reply.dataLen = reply.count
  copied : buf = slice inode.bytes offset.toNat (readLength inode.size offset.toNat count.toNat)
  length : buf.length = readLength inode.size offset.toNat count.toNat
  fits : buf.length ≤ nfsMaxsize
  eof : reply.eof = true ↔ inode.size ≤ offset.toNat ∨
    offset.toNat + readLength inode.size offset.toNat count.toNat = inode.size

variable {offset : Nat}

theorem readLength_of_lt {size : Nat} (hoff : offset < size) (count : Nat) :
    readLength size offset count = min count (min nfsMaxsize (size - offset)) :=
  if_neg (Nat.not_le_of_lt hoff)

theorem toUint64_natCast {n : Nat} (h : n < 2 ^ 64) : toUint64 n = n := by
  unfold toUint64
  omega

theorem toGint_of_lt {n : Nat} (h : n % 2 ^ 32 < 2 ^ 31) : toGint n = (n % 2 ^ 32 : Nat) := by
  unfold toGint
  rw [BitVec.toInt_eq_toNat_of_lt]
  · rw [BitVec.toNat_ofNat]
  · rw [BitVec.toNat_ofNat]
    omega

theorem toNat_ofInt_toGint (n : Nat) : (BitVec.ofInt 32 (toGint n)).toNat = n % 2 ^ 32 := by
  rw [toGint, BitVec.ofInt_toInt, BitVec.toNat_ofNat]

/-- The length that READ computes: for a count of 2 ^ 31 or more, the rest of the file, cut to
32 bits. -/
theorem readCount_eq (count : BitVec 32) {size : Nat} (hsize : size ≤ maxFileSize)
    (hoff : offset < size) :
    readCount count size offset =
      if count.toNat < 2 ^ 31 then (readLength size offset count.toNat : Int)
      else toGint (size - offset) := by
  have hmax : maxFileSize = 2 ^ 39 := by decide
  rw [hmax] at hsize
  have hcount := count.isLt
  rw [readCount, readLength_of_lt hoff]
  by_cases hpos : count.toNat < 2 ^ 31
  · have hmin : min count.toInt (nfsMaxsize : Int) = (min count.toNat nfsMaxsize : Nat) := by
      rw [BitVec.toInt_eq_toNat_of_lt (by omega)]
      omega
    rw [if_pos hpos, hmin, toUint64_natCast, toGint_of_lt]
    · rw [Nat.mod_eq_of_lt, Nat.min_assoc]
      unfold nfsMaxsize
      omega
    · unfold nfsMaxsize
      omega
    · unfold nfsMaxsize
      omega
  · have hneg : count.toInt = (count.toNat : Int) - 2 ^ 32 := by
      rw [BitVec.toInt_eq_toNat_cond, if_neg (by omega)]
      rfl
    have hmin : min count.toInt (nfsMaxsize : Int) = (count.toNat : Int) - 2 ^ 32 := by
      rw [hneg]
      unfold nfsMaxsize
      omega
    have hbig : toUint64 ((count.toNat : Int) - 2 ^ 32) = count.toNat + (2 ^ 64 - 2 ^ 32) := by
      unfold toUint64
      omega
    rw [if_neg hpos, hmin, hbig, Nat.min_eq_right (by omega)]

/-- When the length that READ computes is the right one. -/
theorem readCount_eq_iff (count : BitVec 32) {size : Nat} (hsize : size ≤ maxFileSize)
    (hoff : offset < size) :
    readCount count size offset = readLength size offset count.toNat ↔
      count.toNat < 2 ^ 31 ∨ size - offset ≤ nfsMaxsize ∨
        (size - offset) % 2 ^ 32 = nfsMaxsize := by
  rw [readCount_eq count hsize hoff]
  by_cases hpos : count.toNat < 2 ^ 31
  · rw [if_pos hpos]
    exact ⟨fun _ => Or.inl hpos, fun _ => rfl⟩
  · rw [if_neg hpos]
    have hlength : readLength size offset count.toNat = min nfsMaxsize (size - offset) := by
      rw [readLength_of_lt hoff]
      unfold nfsMaxsize
      omega
    rw [hlength]
    constructor
    · intro heq
      -- The length in 32 bits is what is left of the file.
      have hbits := congrArg (fun n => (BitVec.ofInt 32 n).toNat) heq
      simp only [toNat_ofInt_toGint, BitVec.ofInt_natCast, BitVec.toNat_ofNat] at hbits
      unfold nfsMaxsize at *
      omega
    · rintro (hlt | hsmall | hmod)
      · exact absurd hlt hpos
      · rw [toGint_of_lt (by unfold nfsMaxsize at *; omega)]
        unfold nfsMaxsize at *
        omega
      · rw [toGint_of_lt (by rw [hmod]; decide), hmod]
        unfold nfsMaxsize at *
        omega

/-- READ copies the right bytes, and as many as it says, exactly when the count is below 2 ^ 31 or
what is left of the file happens to fit. -/
theorem nfsproc3Read_right_iff {s : NfsState} {file : Bytes} {inode : Inode}
    (hfile : s.lookupFh file = some inode) (hinode : inode.InOrder) (offset : BitVec 64)
    (count : BitVec 32) :
    (∃ s' reply buf, nfsproc3Read s file offset count = some (s', reply, buf) ∧
      ReadsRight inode offset count reply buf) ↔
      count.toNat < 2 ^ 31 ∨ inode.size ≤ offset.toNat ∨
        inode.size - offset.toNat ≤ nfsMaxsize ∨
        (inode.size - offset.toNat) % 2 ^ 32 = nfsMaxsize := by
  unfold nfsproc3Read
  rw [hfile]
  dsimp only
  by_cases hoff : inode.size ≤ offset.toNat
  · rw [if_pos hoff]
    have hlength : readLength inode.size offset.toNat count.toNat = 0 := if_pos hoff
    refine ⟨fun _ => Or.inr (Or.inl hoff), fun _ => ⟨_, _, _, rfl, ?_⟩⟩
    exact ⟨rfl, by rw [hlength]; rfl, rfl, by rw [hlength]; simp [slice], by rw [hlength]; rfl,
      Nat.zero_le _, by simp [hoff]⟩
  · have hlt := Nat.lt_of_not_le hoff
    have hregular : inode.type = .regular := by
      by_contra hother
      rw [hinode.other hother] at hlt
      exact absurd hlt (Nat.not_lt_zero _)
    have hmax : maxFileSize = 2 ^ 39 := by decide
    have hsize := hinode.size_le
    have hle : readLength inode.size offset.toNat count.toNat ≤ nfsMaxsize ∧
        offset.toNat + readLength inode.size offset.toNat count.toNat ≤ inode.size := by
      rw [readLength_of_lt hlt]
      omega
    have hiff := readCount_eq_iff count hinode.size_le hlt
    rw [if_neg hoff]
    have hcond : (count.toNat < 2 ^ 31 ∨ inode.size ≤ offset.toNat ∨
        inode.size - offset.toNat ≤ nfsMaxsize ∨
        (inode.size - offset.toNat) % 2 ^ 32 = nfsMaxsize) ↔
        readCount count inode.size offset.toNat =
          readLength inode.size offset.toNat count.toNat := by
      rw [hiff]
      simp [hoff]
    rw [hcond]
    constructor
    · rintro ⟨s', reply, buf, heq, hright⟩
      simp only [bind_eq_bind, bind_eq_some_iff, some.injEq, Prod.mk.injEq, Prod.exists] at heq
      rcases heq with ⟨ctx, buf', -, -, rfl, -⟩
      have hbits := hright.reported
      rw [hiff]
      rw [readCount_eq count hinode.size_le hlt] at hbits
      by_cases hpos : count.toNat < 2 ^ 31
      · exact Or.inl hpos
      · rw [if_neg hpos, toNat_ofInt_toGint, readLength_of_lt hlt] at hbits
        unfold nfsMaxsize at *
        omega
    · intro heq
      rw [heq, toUint64_natCast (by unfold nfsMaxsize at hle; omega)]
      rcases @FileInv.read { cacheDirty := s.cacheDirty, inode := inode.toFileInode }
          (hinode.file hregular) offset.toNat _ hle.2 with ⟨ctx, hread, -, -, -⟩
      rw [hread]
      have hbytes : (slice inode.bytes offset.toNat
          (readLength inode.size offset.toNat count.toNat)).length =
          readLength inode.size offset.toNat count.toNat := by
        apply length_slice_of_le
        rw [Inode.bytes, length_flat]
        exact hle.2
      have hcount : (BitVec.ofInt 32 (readLength inode.size offset.toNat count.toNat : Int)).toNat =
          readLength inode.size offset.toNat count.toNat := by
        rw [BitVec.ofInt_natCast, BitVec.toNat_ofNat, Nat.mod_eq_of_lt]
        unfold nfsMaxsize at hle
        omega
      refine ⟨_, _, _, rfl, ⟨rfl, hcount, rfl, rfl, hbytes, ?_, ?_⟩⟩
      · exact hbytes.le.trans hle.1
      · simp only [decide_eq_true_eq, hoff, false_or]
        rw [Nat.mod_eq_of_lt (by omega)]

/-- A file of the given size that nothing was written to. -/
def sparseFile (inum : BitVec 64) (size : Nat) : Inode :=
  { newInode inum .regular with
    size := size
    blocks := List.replicate (chunkCount blockSize size) Block.fresh }

/-- A file system with one such file. -/
def oneFile (size : Nat) : NfsState where
  inodes := update (fun _ => none) 2 (some (sparseFile 2 size))
  nextInum := 3
  cacheDirty := 0

theorem fileInv_sparseFile (inum : BitVec 64) (size : Nat) :
    FileInv (sparseFile inum size).toFileInode := by
  refine ⟨rfl, ?_, ?_, ?_⟩
  · intro b hb
    rw [eq_of_mem_replicate hb]
    exact Block.ok_fresh
  · simp [sparseFile, FileInode.contents]
  · intro i c hc
    simp [sparseFile, FileInode.contents, getElem?_replicate] at hc

theorem inOrder_sparseFile (inum : BitVec 64) {size : Nat} (h : size ≤ maxFileSize) :
    (sparseFile inum size).InOrder :=
  ⟨h, fun _ => fileInv_sparseFile inum size, fun hother => absurd rfl hother⟩

theorem inodes_oneFile (size : Nat) :
    (oneFile size).inodes = update (fun _ => none) 2 (some (sparseFile 2 size)) :=
  rfl

theorem lookupFh_oneFile (size : Nat) :
    (oneFile size).lookupFh (fileHandle 2) = some (sparseFile 2 size) := by
  rw [NfsState.lookupFh, handleInum_fileHandle, bind_some, NfsState.getInode, if_neg (by decide)]
  rw [inodes_oneFile, update_self]

/-- A READ of ten bytes. -/
theorem nfsproc3Read_right_ten : (∃ s' reply buf,
    nfsproc3Read (oneFile 25) (fileHandle 2) 20 10 = some (s', reply, buf) ∧
      ReadsRight (sparseFile 2 25) 20 10 reply buf) :=
  (nfsproc3Read_right_iff (lookupFh_oneFile 25) (inOrder_sparseFile 2 (by decide)) 20 10).mpr
    (Or.inl (by decide))

/-- A READ with a count of 2 ^ 31 of a file with one byte more than the buffer has copies one byte
too many. -/
theorem nfsproc3Read_overruns : (sparseFile 2 (nfsMaxsize + 1)).InOrder ∧
    ∃ s' reply buf, nfsproc3Read (oneFile (nfsMaxsize + 1)) (fileHandle 2) 0 0x80000000 =
      some (s', reply, buf) ∧ nfsMaxsize < buf.length := by
  refine ⟨inOrder_sparseFile 2 (by decide), ?_⟩
  have hcount : toUint64 (readCount 0x80000000 (nfsMaxsize + 1) 0) = nfsMaxsize + 1 := by decide
  rcases @FileInv.read { cacheDirty := 0, inode := (sparseFile 2 (nfsMaxsize + 1)).toFileInode }
      (fileInv_sparseFile 2 _) 0 (nfsMaxsize + 1) (Nat.le_of_eq (Nat.zero_add _)) with
    ⟨ctx, hread, -⟩
  unfold nfsproc3Read
  rw [lookupFh_oneFile]
  dsimp only
  rw [if_neg (by decide)]
  change ∃ s' reply buf,
    ((fileRead { cacheDirty := 0, inode := (sparseFile 2 (nfsMaxsize + 1)).toFileInode } 0
      (toUint64 (readCount 0x80000000 (nfsMaxsize + 1) 0))).bind _) = some (s', reply, buf) ∧ _
  rw [hcount, hread]
  refine ⟨_, _, _, rfl, ?_⟩
  rw [length_slice_of_le (by rw [length_flat]; exact Nat.le_of_eq (Nat.zero_add _))]
  exact Nat.lt_succ_self _

/-! ## WRITE -/

/-- `stable_how`. -/
inductive StableHow where
  | unstable
  | dataSync
  | fileSync
deriving DecidableEq, Repr

/-- The values of `nfsstat3` that WRITE sends. -/
inductive WriteStatus where
  | ok
  | inval
  | stale
deriving DecidableEq, Repr

/-- `write3res`. -/
structure WriteReply where
  status : WriteStatus
  wcc : WccData := {}
  count : BitVec 32 := 0
  committed : StableHow := .unstable
  verf : Bytes := []

/-- `bluesky_file_write` with the length that its caller passes, as the checks convert it. -/
def fileWriteLen (now : Int) (ctx : FileCtx) (offset : Nat) (data : Bytes) (len : Int) :
    Option FileCtx :=
  if ctx.inode.size - offset < toUint64 len then some ctx
  else fileWrite now ctx offset (data.take (toUint64 len))

/-- The part of WRITE that extends the file, for an end computed in 64 bits. -/
def writeExtends (now : Int) (ctx : FileCtx) (lastbyte : Nat) : Option FileCtx :=
  if ctx.inode.size < lastbyte then fileTruncate now ctx lastbyte else some ctx

/-- `bluesky_inode_do_sync`, as far as the file is concerned. -/
def writeSyncs (ids : Nat → CloudId) (ctx : FileCtx) (stable : StableHow) : Option FileCtx :=
  if stable = .unstable then some ctx else (fileFlush ids ctx []).map Prod.fst

/-- `nfsproc3_write_3_svc`. -/
def nfsproc3Write (now : Int) (verf : Bytes) (ids : Nat → CloudId) (s : NfsState) (file : Bytes)
    (offset : BitVec 64) (count : BitVec 32) (stable : StableHow) (data : Bytes) :
    Option (NfsState × WriteReply) :=
  match s.lookupFh file with
  | none => some (s, { status := .stale })
  | some inode =>
    let wcc := encodePreWcc inode
    if inode.type ≠ .regular then some (s, { status := .inval, wcc := wcc })
    else do
      let lastbyte := (offset.toNat + count.toNat) % 2 ^ 64
      let ctx : FileCtx := { cacheDirty := s.cacheDirty, inode := inode.toFileInode }
      let ctx ← writeExtends now ctx lastbyte
      let ctx ←
        (if data.length < count.toNat then some ctx
        else fileWriteLen now ctx offset.toNat data count.toInt)
      let written : Inode := { inode with toFileInode := ctx.inode }
      let ctx ← writeSyncs ids ctx stable
      some (s.putFile inode ctx,
        { status := .ok
          wcc := { wcc with after := some (encodeFattr3 written) }
          count := count
          committed := if stable = .unstable then .unstable else .fileSync
          verf := verf })

/-- The bytes of a file after the extension. -/
def extendedBytes (a : Bytes) (lastbyte : Nat) : Bytes :=
  if a.length < lastbyte ∧ lastbyte ≤ maxFileSize then fill 0 lastbyte a else a

/-- The bytes of a file after WRITE. -/
def writtenBytes (a : Bytes) (offset : Nat) (data : Bytes) : Bytes :=
  let a := extendedBytes a ((offset + data.length) % 2 ^ 64)
  if data.length < 2 ^ 31 ∧ offset < a.length ∧ data.length ≤ a.length - offset then
    splice a offset data
  else a

/-- The bytes that an acknowledged WRITE is to leave. -/
def storedBytes (a : Bytes) (offset : Nat) (data : Bytes) : Bytes :=
  splice (fill 0 (max a.length (offset + data.length)) a) offset data

theorem length_extendedBytes {a : Bytes} {lastbyte : Nat} (ha : a.length ≤ maxFileSize) :
    (extendedBytes a lastbyte).length ≤ maxFileSize ∧
      (extendedBytes a lastbyte).length ≤ max a.length lastbyte := by
  unfold extendedBytes
  split
  · next hand =>
      rw [length_fill]
      omega
  · omega

variable {ctx : FileCtx} {a : Bytes}

theorem Represents.writeExtends (h : Represents ctx a) (now : Int) (lastbyte : Nat) :
    ∃ ctx', writeExtends now ctx lastbyte = some ctx' ∧
      Represents ctx' (extendedBytes a lastbyte) := by
  unfold BlueSky.writeExtends extendedBytes
  rw [← h.length_eq]
  by_cases hlt : a.length < lastbyte
  · rw [if_pos hlt]
    rcases h.truncate now lastbyte with ⟨ctx', heq, hctx'⟩
    refine ⟨ctx', heq, ?_⟩
    simpa [FileOp.apply, hlt] using hctx'
  · rw [if_neg hlt, if_neg (fun hand => hlt hand.1)]
    exact ⟨ctx, rfl, h⟩

theorem Represents.fileWriteLen (h : Represents ctx a) (hsize : a.length ≤ maxFileSize) (now : Int)
    (offset : Nat) (data : Bytes) {count : BitVec 32} (hcount : count.toNat = data.length) :
    ∃ ctx', fileWriteLen now ctx offset data count.toInt = some ctx' ∧
      Represents ctx' (if data.length < 2 ^ 31 ∧ offset < a.length ∧
        data.length ≤ a.length - offset then splice a offset data else a) := by
  have hmax : maxFileSize = 2 ^ 39 := by decide
  have hlt := count.isLt
  unfold BlueSky.fileWriteLen
  rw [← h.length_eq]
  by_cases hpos : data.length < 2 ^ 31
  · have hlen : toUint64 count.toInt = data.length := by
      rw [BitVec.toInt_eq_toNat_of_lt (by omega), toUint64_natCast (by omega), hcount]
    rw [hlen, take_length]
    by_cases hfits : a.length - offset < data.length
    · rw [if_pos hfits, if_neg (by omega)]
      exact ⟨ctx, rfl, h⟩
    · rw [if_neg hfits]
      rcases h.write now offset data with ⟨ctx', heq, hctx'⟩
      refine ⟨ctx', heq, ?_⟩
      simp only [hpos, true_and]
      exact hctx'
  · -- The length is negative, and larger than any file once it is converted.
    have hbig : a.length - offset < toUint64 count.toInt := by
      rw [BitVec.toInt_eq_toNat_cond, if_neg (by omega)]
      unfold toUint64
      push_cast
      omega
    rw [if_pos hbig, if_neg (fun hand => hpos hand.1)]
    exact ⟨ctx, rfl, h⟩

theorem Represents.writeSyncs (h : Represents ctx a) (ids : Nat → CloudId) (stable : StableHow) :
    ∃ ctx', writeSyncs ids ctx stable = some ctx' ∧ Represents ctx' a := by
  unfold BlueSky.writeSyncs
  by_cases hstable : stable = .unstable
  · rw [if_pos hstable]
    exact ⟨ctx, rfl, h⟩
  · rw [if_neg hstable]
    exact h.step (.flush ids)

/-- WRITE to a file replies that all went well, and leaves these bytes. -/
theorem nfsproc3Write_represents {s : NfsState} (hs : FsInv s) {file : Bytes} {inode : Inode}
    (hfile : s.lookupFh file = some inode) (hinv : FileInv inode.toFileInode)
    (hsize : inode.size ≤ maxFileSize) (now : Int) (verf : Bytes) (ids : Nat → CloudId)
    (offset : BitVec 64) (stable : StableHow) (data : Bytes) {count : BitVec 32}
    (hcount : count.toNat = data.length) :
    ∃ s' reply inode', nfsproc3Write now verf ids s file offset count stable data =
        some (s', reply) ∧ reply.status = .ok ∧ reply.count = count ∧
      s'.lookupFh file = some inode' ∧ FileInv inode'.toFileInode ∧
      inode'.bytes = writtenBytes inode.bytes offset.toNat data := by
  have hrep : Represents { cacheDirty := s.cacheDirty, inode := inode.toFileInode } inode.bytes :=
    ⟨hinv, rfl⟩
  have hextended := @length_extendedBytes inode.bytes ((offset.toNat + data.length) % 2 ^ 64)
    (inode.length_bytes.trans_le hsize)
  rcases hrep.writeExtends now ((offset.toNat + data.length) % 2 ^ 64) with ⟨ctx₁, heq₁, hctx₁⟩
  rcases hctx₁.fileWriteLen hextended.1 now offset.toNat data hcount with ⟨ctx₂, heq₂, hctx₂⟩
  rcases hctx₂.writeSyncs ids stable with ⟨ctx₃, heq₃, hctx₃⟩
  -- The inode is found again under its own number.
  have hhandle : handleInum file = some inode.inum ∧ inode.inum ≠ 0 := by
    rcases bind_eq_some_iff.mp hfile with ⟨inum, hinum, hget⟩
    unfold NfsState.getInode at hget
    split at hget
    · cases hget
    · next hzero =>
        rw [hs.own inum inode hget]
        exact ⟨hinum, hzero⟩
  have hwrite : ∃ reply, nfsproc3Write now verf ids s file offset count stable data =
      some (s.putFile inode ctx₃, reply) ∧ reply.status = .ok ∧ reply.count = count := by
    unfold nfsproc3Write
    rw [hfile]
    dsimp only
    rw [if_neg (not_not.mpr hinv.regular), hcount]
    simp only [heq₁, lt_irrefl, if_false, heq₂, heq₃, bind_eq_bind, bind_some]
    exact ⟨_, rfl, rfl, rfl⟩
  rcases hwrite with ⟨reply, hwrite, hok, hreply⟩
  refine ⟨_, reply, { inode with toFileInode := ctx₃.inode }, hwrite, hok, hreply, ?_, hctx₃.inv,
    hctx₃.flat_eq⟩
  rw [NfsState.lookupFh, hhandle.1, bind_some, NfsState.getInode, if_neg hhandle.2]
  exact update_self _ _ _

/-- Storing bytes that are there already. -/
theorem splice_eq_self_iff {c d : Bytes} {j : Nat} (h : j + d.length ≤ c.length) :
    splice c j d = c ↔ d = slice c j d.length := by
  have hparts : c = c.take j ++ (slice c j d.length ++ c.drop (j + d.length)) := by
    rw [slice, ← drop_drop, take_append_drop, take_append_drop]
  constructor
  · intro heq
    have heq' : c.take j ++ (d ++ c.drop (j + d.length)) =
        c.take j ++ (slice c j d.length ++ c.drop (j + d.length)) := heq.trans hparts
    exact append_cancel_right (append_cancel_left heq')
  · intro heq
    rw [splice, heq, length_slice_of_le h]
    exact hparts.symm

/-- When the bytes that WRITE leaves are those that it should. -/
theorem writtenBytes_eq_iff {a : Bytes} (ha : a.length ≤ maxFileSize) {offset : Nat}
    {data : Bytes} (hdata : 0 < data.length) :
    writtenBytes a offset data = storedBytes a offset data ↔
      offset + data.length ≤ maxFileSize ∧
        (data.length < 2 ^ 31 ∨
          data = slice (fill 0 (max a.length (offset + data.length)) a) offset data.length) := by
  have hmax : maxFileSize = 2 ^ 39 := by decide
  have hstored : (storedBytes a offset data).length = max a.length (offset + data.length) := by
    rw [storedBytes, length_splice (by rw [length_fill]; omega), length_fill]
  by_cases hend : offset + data.length ≤ maxFileSize
  · have hextended : extendedBytes a ((offset + data.length) % 2 ^ 64) =
        fill 0 (max a.length (offset + data.length)) a := by
      rw [Nat.mod_eq_of_lt (by omega)]
      unfold extendedBytes
      by_cases hlt : a.length < offset + data.length
      · rw [if_pos ⟨hlt, hend⟩, Nat.max_eq_right (by omega)]
      · rw [if_neg (fun hand => hlt hand.1), Nat.max_eq_left (by omega), fill_length]
    unfold writtenBytes storedBytes
    rw [hextended]
    dsimp only
    have hfits : offset + data.length ≤
        (fill 0 (max a.length (offset + data.length)) a).length := by
      rw [length_fill]
      omega
    by_cases hpos : data.length < 2 ^ 31
    · rw [if_pos ⟨hpos, by omega, by omega⟩]
      exact ⟨fun _ => ⟨hend, Or.inl hpos⟩, fun _ => rfl⟩
    · rw [if_neg (fun hand => hpos hand.1), eq_comm, splice_eq_self_iff hfits]
      exact ⟨fun h => ⟨hend, Or.inr h⟩, fun h => h.2.resolve_left hpos⟩
  · -- The file cannot have the size that it should.
    refine ⟨fun heq => ?_, fun hand => absurd hand.1 hend⟩
    have hlength := congrArg List.length heq
    have hextended := @length_extendedBytes a ((offset + data.length) % 2 ^ 64) ha
    have hwritten : (writtenBytes a offset data).length ≤ maxFileSize := by
      unfold writtenBytes
      dsimp only
      split
      · next hand =>
          rw [length_splice (by omega)]
          exact hextended.1
      · exact hextended.1
    omega

/-- The file has the bytes that an acknowledged WRITE is to leave, exactly when they are within the
maximal size of a file and, if there are 2 ^ 31 or more of them, were there already. -/
theorem nfsproc3Write_stores_iff {s : NfsState} (hs : FsInv s) {file : Bytes} {inode : Inode}
    (hfile : s.lookupFh file = some inode) (hinv : FileInv inode.toFileInode)
    (hsize : inode.size ≤ maxFileSize) (now : Int) (verf : Bytes) (ids : Nat → CloudId)
    (offset : BitVec 64) (stable : StableHow) {data : Bytes} (hdata : 0 < data.length)
    {count : BitVec 32} (hcount : count.toNat = data.length) :
    (∃ s' reply inode', nfsproc3Write now verf ids s file offset count stable data =
        some (s', reply) ∧ reply.status = .ok ∧ reply.count = count ∧
      s'.lookupFh file = some inode' ∧
      inode'.size = max inode.size (offset.toNat + data.length) ∧
      inode'.bytes = splice (fill 0 (max inode.size (offset.toNat + data.length)) inode.bytes)
        offset.toNat data) ↔
      offset.toNat + data.length ≤ maxFileSize ∧
        (data.length < 2 ^ 31 ∨
          data = slice (fill 0 (max inode.size (offset.toNat + data.length)) inode.bytes)
            offset.toNat data.length) := by
  have hlength := inode.length_bytes
  have hiff := @writtenBytes_eq_iff inode.bytes (hlength ▸ hsize) offset.toNat data hdata
  have hstored : storedBytes inode.bytes offset.toNat data =
      splice (fill 0 (max inode.size (offset.toNat + data.length)) inode.bytes) offset.toNat
        data := by
    rw [storedBytes, hlength]
  rw [hlength, hstored] at hiff
  rw [← hiff]
  rcases nfsproc3Write_represents hs hfile hinv hsize now verf ids offset stable data hcount with
    ⟨s', reply, inode', heq, hok, hreply, hfile', hinv', hbytes⟩
  constructor
  · rintro ⟨s'', reply', inode'', heq', -, -, hfile'', -, hbytes'⟩
    rw [heq] at heq'
    cases heq'
    rw [hfile'] at hfile''
    cases hfile''
    rw [← hbytes, hbytes']
  · intro hwritten
    refine ⟨s', reply, inode', heq, hok, hreply, hfile', ?_, hbytes.trans hwritten⟩
    rw [← inode'.length_bytes, hbytes, hwritten, length_splice (by rw [length_fill]; omega),
      length_fill]

theorem fsInv_oneFile (size : Nat) : FsInv (oneFile size) := by
  have hinodes : ∀ inum inode, (oneFile size).inodes inum = some inode →
      inum = 2 ∧ inode = sparseFile 2 size := by
    intro inum inode h
    rw [inodes_oneFile] at h
    by_cases hinum : inum = 2
    · subst hinum
      rw [update_self] at h
      exact ⟨rfl, (some.inj h).symm⟩
    · rw [update_of_ne hinum] at h
      cases h
  refine ⟨?_, ?_, ?_⟩
  · intro inum inode h
    rcases hinodes inum inode h with ⟨rfl, rfl⟩
    rfl
  · rw [inodes_oneFile, update_of_ne (by decide)]
  · intro inum inode h
    rcases hinodes inum inode h with ⟨rfl, rfl⟩
    exact DirInv.empty

/-- A WRITE of three bytes behind the end of a file. -/
theorem nfsproc3Write_stores_three :
    ∃ s' reply inode', nfsproc3Write 7 [1] (fun _ => 5) (oneFile 2) (fileHandle 2) 5 3 .fileSync
        [1, 2, 3] = some (s', reply) ∧ reply.status = .ok ∧ reply.count = 3 ∧
      s'.lookupFh (fileHandle 2) = some inode' ∧ inode'.size = 8 ∧
      inode'.bytes = splice (fill 0 8 (sparseFile 2 2).bytes) 5 [1, 2, 3] :=
  (nfsproc3Write_stores_iff (fsInv_oneFile 2) (lookupFh_oneFile 2) (fileInv_sparseFile 2 2)
    (by decide) 7 [1] (fun _ => 5) 5 .fileSync (by decide) rfl).mpr ⟨by decide, Or.inl (by decide)⟩

/-- A WRITE of one byte at the maximal size of a file is acknowledged, and the file stays empty. -/
theorem nfsproc3Write_loses :
    ∃ s' reply inode', nfsproc3Write 7 [1] (fun _ => 5) (oneFile 0) (fileHandle 2)
        (BitVec.ofNat 64 maxFileSize) 1 .unstable [9] = some (s', reply) ∧
      reply.status = .ok ∧ reply.count = 1 ∧ s'.lookupFh (fileHandle 2) = some inode' ∧
      inode'.size = 0 ∧ inode'.bytes = [] := by
  have hbytes :
      writtenBytes (sparseFile 2 0).bytes (BitVec.ofNat 64 maxFileSize).toNat [9] = [] := by
    decide
  rcases nfsproc3Write_represents (fsInv_oneFile 0) (lookupFh_oneFile 0) (fileInv_sparseFile 2 0)
      (by decide) 7 [1] (fun _ => 5) (BitVec.ofNat 64 maxFileSize) .unstable [9]
      (show (1 : BitVec 32).toNat = 1 from rfl) with
    ⟨s', reply, inode', heq, hok, hcount, hfile, -, hwritten⟩
  rw [hbytes] at hwritten
  refine ⟨s', reply, inode', heq, hok, hcount, hfile, ?_, hwritten⟩
  rw [← inode'.length_bytes, hwritten]
  rfl

end BlueSky
