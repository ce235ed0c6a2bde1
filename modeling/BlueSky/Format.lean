import BlueSky.Crc32c
import BlueSky.Lib.Packed

/-!
# Log records on disk

The types and structures of `bluesky-private.h` that a journal record is made
of: item types, object identifiers, cloud pointers, the packed `log_header` and
`log_footer`, and the three data sections that `bluesky_serialize_cloudlog`
produces.

Main results:

- Theorem {lit}`LogHeader.ofBytes_append`: a header is read back from the bytes
  it was written as, whatever follows it.
- Theorem {lit}`LogItem.length_record`: a record is exactly as long as the size
  that {lit}`log_thread` accounts for it.
-/

namespace BlueSky

open List ByteLib PackedLib

/-! ## Types and identifiers -/

/-- `BlueSkyCloudLogType`. -/
inductive LogType where
  | invalid
  | unknown
  | data
  | inode
  | inodeMap
  | checkpoint
  | journalMarker
  | journalCheckpoint
deriving DecidableEq, Repr

/-- The numeric value of a type. -/
def LogType.code : LogType → Int
  | invalid => -1
  | unknown => 0
  | data => 1
  | inode => 2
  | inodeMap => 3
  | checkpoint => 4
  | journalMarker => 16
  | journalCheckpoint => 17

/-- The type octet of a header, `item->type + '0'`. -/
def LogType.octet (t : LogType) : Byte :=
  BitVec.ofInt 8 (t.code + 48)

/-- What a reader makes of a type octet, `header->type - '0'`. -/
def typeOfOctet (b : Byte) : Int :=
  (b.toNat : Int) - 48

@[simp]
theorem typeOfOctet_octet (t : LogType) : typeOfOctet t.octet = t.code := by
  cases t <;> decide

/-- `BlueSkyCloudID`: sixteen bytes. -/
abbrev CloudId := BitVec 128

/-- `BlueSkyCloudPointer`. -/
structure CloudPointer where
  directory : BitVec 32
  sequence : BitVec 32
  offset : BitVec 32
  size : BitVec 32
deriving DecidableEq, Repr

/-- The bits of `location_flags`. -/
structure LocationFlags where
  journal : Bool := false
  cloud : Bool := false
  uncommitted : Bool := false
deriving DecidableEq, Repr

/-- The sixteen bytes of an identifier. -/
def CloudId.toBytes (id : CloudId) : Bytes :=
  leBytes 16 id.toNat

/-- The sixteen bytes of a pointer, in the order of its fields. -/
def CloudPointer.toBytes (p : CloudPointer) : Bytes :=
  leBytes 4 p.directory.toNat ++ leBytes 4 p.sequence.toNat ++
    leBytes 4 p.offset.toNat ++ leBytes 4 p.size.toNat

@[simp]
theorem CloudId.length_toBytes (id : CloudId) : id.toBytes.length = 16 := by
  simp [CloudId.toBytes]

@[simp]
theorem CloudPointer.length_toBytes (p : CloudPointer) : p.toBytes.length = 16 := by
  simp [CloudPointer.toBytes]

/-! ## Options -/

/-- The fields of `bluesky_options` that decide how items are fetched. -/
structure FetchOptions where
  disableAggregation : Bool
  disableReadAggregation : Bool
  fullSegmentFetches : Bool
deriving DecidableEq, Repr

/-- The defaults of `bluesky_options`. -/
def FetchOptions.default : FetchOptions := ⟨false, false, false⟩

/-- Items are fetched one by one, and not with the segments that they are in. -/
def FetchOptions.unaggregated (options : FetchOptions) : Bool :=
  options.disableAggregation || options.disableReadAggregation

/-! ## Packed fields -/

/-- The unsigned field of {lit}`k` octets at offset {lit}`off`. -/
def readField (w k : Nat) (buf : Bytes) (off : Nat) : BitVec w :=
  BitVec.ofNat w (leNat (slice buf off k))

/-- A field is read back from the place where it was written. -/
theorem readField_append (k : Nat) (pre : Bytes) (x : BitVec (8 * k)) (post : Bytes) :
    readField (8 * k) k (pre ++ leBytes k x.toNat ++ post) pre.length = x := by
  have hx : x.toNat < 256 ^ k := by
    have := x.isLt
    rwa [pow_mul] at this
  have hslice : slice (pre ++ leBytes k x.toNat ++ post) pre.length k =
      leBytes k x.toNat := by
    rw [append_assoc]
    have hright := slice_append_right pre (leBytes k x.toNat ++ post) 0 k
    rw [Nat.add_zero] at hright
    rw [hright, slice_append_left post (by simp)]
    simpa using slice_zero_length (leBytes k x.toNat)
  rw [readField, hslice, leNat_leBytes_of_lt hx, BitVec.ofNat_toNat, BitVec.setWidth_eq]

/-- Reading a field only looks at its own octets. -/
theorem readField_congr {w k : Nat} {a b : Bytes} {i j : Nat}
    (h : slice a i k = slice b j k) : readField w k a i = readField w k b j := by
  rw [readField, readField, h]

theorem readField_pack (pre : Fields) (k : Nat) (x : BitVec (8 * k)) (post : Fields)
    (rest : Bytes) :
    readField (8 * k) k (pack (pre ++ (k, x.toNat) :: post) ++ rest) (width pre) = x := by
  have hx : x.toNat < 256 ^ k := by
    have := x.isLt
    rwa [pow_mul] at this
  have hfield := fieldAt_pack pre k x.toNat post rest
  rw [fieldAt, Nat.mod_eq_of_lt hx] at hfield
  rw [readField, hfield, BitVec.ofNat_toNat, BitVec.setWidth_eq]

theorem toNat_readField (k : Nat) (buf : Bytes) (off : Nat) :
    (readField (8 * k) k buf off).toNat = fieldAt buf off k := by
  have hlt := fieldAt_lt buf off k
  rw [readField, BitVec.toNat_ofNat, pow_mul]
  exact Nat.mod_eq_of_lt hlt

/-- `struct log_header`. -/
structure LogHeader where
  magic : BitVec 32
  type : Byte
  offset : BitVec 32
  size1 : BitVec 32
  size2 : BitVec 32
  size3 : BitVec 32
  inum : BitVec 64
  id : CloudId
deriving DecidableEq, Repr

/-- `sizeof(struct log_header)`. -/
def logHeaderSize : Nat := 45

/-- `sizeof(struct log_footer)`. -/
def logFooterSize : Nat := 8

/-- `HEADER_MAGIC`. -/
def headerMagic : BitVec 32 := 0x676f4c0a#32

/-- `FOOTER_MAGIC`. -/
def footerMagic : BitVec 32 := 0x2e435243#32

/-- The packed bytes of a header. -/
def LogHeader.toBytes (h : LogHeader) : Bytes :=
  leBytes 4 h.magic.toNat ++ ([h.type] ++ (leBytes 4 h.offset.toNat ++
    (leBytes 4 h.size1.toNat ++ (leBytes 4 h.size2.toNat ++
      (leBytes 4 h.size3.toNat ++ (leBytes 8 h.inum.toNat ++ h.id.toBytes))))))

/-- The header a buffer starts with. -/
def LogHeader.ofBytes (buf : Bytes) : LogHeader where
  magic := readField 32 4 buf 0
  type := buf.getD 4 0
  offset := readField 32 4 buf 5
  size1 := readField 32 4 buf 9
  size2 := readField 32 4 buf 13
  size3 := readField 32 4 buf 17
  inum := readField 64 8 buf 21
  id := readField 128 16 buf 29

@[simp]
theorem LogHeader.length_toBytes (h : LogHeader) : h.toBytes.length = logHeaderSize := by
  simp [LogHeader.toBytes, logHeaderSize]

/-- A written header is read back, whatever follows it. -/
theorem LogHeader.ofBytes_append (h : LogHeader) (rest : Bytes) :
    LogHeader.ofBytes (h.toBytes ++ rest) = h := by
  have field : ∀ (k : Nat) (pre : Bytes) (x : BitVec (8 * k)) (post : Bytes),
      h.toBytes ++ rest = pre ++ leBytes k x.toNat ++ post →
        readField (8 * k) k (h.toBytes ++ rest) pre.length = x := by
    intro k pre x post heq
    rw [heq]
    exact readField_append k pre x post
  have hmagic := field 4 [] h.magic _ (by simp [LogHeader.toBytes]; rfl)
  have hoffset := field 4 (leBytes 4 h.magic.toNat ++ [h.type]) h.offset _
    (by simp [LogHeader.toBytes]; rfl)
  have hsize1 := field 4 (leBytes 4 h.magic.toNat ++ [h.type] ++
    leBytes 4 h.offset.toNat) h.size1 _ (by simp [LogHeader.toBytes]; rfl)
  have hsize2 := field 4 (leBytes 4 h.magic.toNat ++ [h.type] ++
    leBytes 4 h.offset.toNat ++ leBytes 4 h.size1.toNat) h.size2 _
    (by simp [LogHeader.toBytes]; rfl)
  have hsize3 := field 4 (leBytes 4 h.magic.toNat ++ [h.type] ++
    leBytes 4 h.offset.toNat ++ leBytes 4 h.size1.toNat ++ leBytes 4 h.size2.toNat)
    h.size3 _ (by simp [LogHeader.toBytes]; rfl)
  have hinum := field 8 (leBytes 4 h.magic.toNat ++ [h.type] ++
    leBytes 4 h.offset.toNat ++ leBytes 4 h.size1.toNat ++ leBytes 4 h.size2.toNat ++
    leBytes 4 h.size3.toNat) h.inum _ (by simp [LogHeader.toBytes]; rfl)
  have hid := field 16 (leBytes 4 h.magic.toNat ++ [h.type] ++
    leBytes 4 h.offset.toNat ++ leBytes 4 h.size1.toNat ++ leBytes 4 h.size2.toNat ++
    leBytes 4 h.size3.toNat ++ leBytes 8 h.inum.toNat) h.id rest
    (by simp [LogHeader.toBytes, CloudId.toBytes])
  have htype : (h.toBytes ++ rest).getD 4 0 = h.type := by
    simp [LogHeader.toBytes, leBytes]
  simp only [length_append, length_nil, length_singleton,
    length_leBytes] at hmagic hoffset hsize1 hsize2 hsize3 hinum hid
  simp only [LogHeader.ofBytes, htype]
  cases h
  simp_all

/-- Reading a header only looks at its own octets. -/
theorem LogHeader.ofBytes_slice (buf : Bytes) (off n : Nat) (h : logHeaderSize ≤ n) :
    LogHeader.ofBytes (slice buf off n) = LogHeader.ofBytes (buf.drop off) := by
  unfold logHeaderSize at h
  have hslice : ∀ i k : Nat, i + k ≤ n →
      slice (slice buf off n) i k = slice (buf.drop off) i k := by
    intro i k hik
    rw [slice_slice hik]
    simp [slice, drop_drop]
  have htype : (slice buf off n).getD 4 0 = (buf.drop off).getD 4 0 := by
    have hlt : 4 < n := by omega
    simp [slice, getD_eq_getElem?_getD, hlt]
  simp only [LogHeader.ofBytes, htype]
  congr 1 <;> exact readField_congr (hslice _ _ (by omega))

/-! ## Items and their serialized sections -/

/-- The part of a linked item that the serializer reads. -/
structure LinkTarget where
  id : CloudId
  location : CloudPointer
deriving DecidableEq, Repr

/-- A log item as the writer of a record sees it.  A null link is {lean}`none`. -/
structure LogItem where
  type : LogType
  id : CloudId
  inum : BitVec 64
  data : Bytes
  links : List (Option LinkTarget)
deriving DecidableEq, Repr

/-- The identifier a link is written as, zero for a null link. -/
def linkId : Option LinkTarget → CloudId
  | some ref => ref.id
  | none => 0

/-- The location written for a link, nothing for a null link. -/
def linkLocation : Option LinkTarget → Bytes
  | some ref => ref.location.toBytes
  | none => []

/-- `bluesky_serialize_cloudlog`, section `authenticated`: the link identifiers. -/
def LogItem.linkIds (item : LogItem) : Bytes :=
  (item.links.map fun link => (linkId link).toBytes).flatten

/-- `bluesky_serialize_cloudlog`, section `writable`: the locations of the links that
are not null. -/
def LogItem.linkLocations (item : LogItem) : Bytes :=
  (item.links.map linkLocation).flatten

/-- The three data sections together. -/
def LogItem.payload (item : LogItem) : Bytes :=
  item.data ++ (item.linkIds ++ item.linkLocations)

/-- The header that `log_thread` fills in for an item at a file offset. -/
def LogItem.header (item : LogItem) (offset : Nat) : LogHeader where
  magic := headerMagic
  type := item.type.octet
  offset := BitVec.ofNat 32 offset
  size1 := BitVec.ofNat 32 item.data.length
  size2 := BitVec.ofNat 32 item.linkIds.length
  size3 := BitVec.ofNat 32 item.linkLocations.length
  inum := item.inum
  id := item.id

/-- The bytes the checksum of a record covers: header, sections, footer magic. -/
def LogItem.covered (item : LogItem) (offset : Nat) : Bytes :=
  (item.header offset).toBytes ++ (item.payload ++ leBytes 4 footerMagic.toNat)

/-- The checksum `log_thread` accumulates, piece by piece. -/
def LogItem.crc (item : LogItem) (offset : Nat) : BitVec 32 :=
  let crc := crc32cSeed
  let crc := crc32c crc (item.header offset).toBytes logHeaderSize
  let crc := crc32c crc item.data item.data.length
  let crc := crc32c crc item.linkIds item.linkIds.length
  let crc := crc32c crc item.linkLocations item.linkLocations.length
  crc32c crc (leBytes 4 footerMagic.toNat) 4

/-- The bytes that `log_thread` writes for an item: header, three sections, and a
footer of magic and finalized checksum. -/
def LogItem.record (item : LogItem) (offset : Nat) : Bytes :=
  item.covered offset ++ leBytes 4 (crc32cFinalize (item.crc offset)).toNat

/-- The size `log_thread` computes for an item. -/
def LogItem.size (item : LogItem) : Nat :=
  logHeaderSize + logFooterSize +
    (item.data.length + item.linkIds.length + item.linkLocations.length)

theorem LogItem.length_payload (item : LogItem) :
    item.payload.length = item.data.length + item.linkIds.length + item.linkLocations.length := by
  simp [LogItem.payload, Nat.add_assoc]

theorem LogItem.length_covered (item : LogItem) (offset : Nat) :
    (item.covered offset).length = item.size - 4 := by
  simp [LogItem.covered, LogItem.size, LogItem.length_payload, logHeaderSize, logFooterSize]
  omega

theorem LogItem.size_pos (item : LogItem) : logHeaderSize + logFooterSize ≤ item.size := by
  simp [LogItem.size]

@[simp]
theorem LogItem.length_record (item : LogItem) (offset : Nat) :
    (item.record offset).length = item.size := by
  have hpos := item.size_pos
  simp only [logHeaderSize, logFooterSize] at hpos
  simp only [LogItem.record, length_append, item.length_covered, length_leBytes]
  omega

/-- The sizes of the sections fit the 32-bit fields of the header. -/
structure LogItem.Fits (item : LogItem) : Prop where
  data_lt : item.data.length < 2 ^ 32
  linkIds_lt : item.linkIds.length < 2 ^ 32
  linkLocations_lt : item.linkLocations.length < 2 ^ 32

/-- When every section fits its field, the checksum is that of the covered bytes
in one piece. -/
theorem LogItem.crc_eq {item : LogItem} (h : item.Fits) (offset : Nat) :
    item.crc offset = CrcLib.run crc32cEntry crc32cSeed (item.covered offset) := by
  have whole : ∀ (crc : BitVec 32) (b : Bytes), b.length < 2 ^ 32 →
      crc32c crc b b.length = CrcLib.run crc32cEntry crc b := by
    intro crc b hb
    rw [crc32c, Nat.mod_eq_of_lt hb, take_length]
  have hheader := whole crc32cSeed (item.header offset).toBytes (by simp [logHeaderSize])
  rw [LogHeader.length_toBytes] at hheader
  have hmagic := fun crc => whole crc (leBytes 4 footerMagic.toNat) (by simp)
  simp only [length_leBytes] at hmagic
  simp only [LogItem.crc, hheader, hmagic, whole _ _ h.data_lt, whole _ _ h.linkIds_lt,
    whole _ _ h.linkLocations_lt, LogItem.covered, LogItem.payload, CrcLib.run_append]

theorem LogItem.record_eq (item : LogItem) (offset : Nat) :
    item.record offset =
      item.covered offset ++ leBytes 4 (crc32cFinalize (item.crc offset)).toNat :=
  rfl

-- unification must not try to compare records by computing their checksums
attribute [irreducible] LogItem.record LogItem.crc

/-- A block of zeros. -/
def zeroItem (n : Nat) : LogItem where
  type := .data
  id := 0
  inum := 0
  data := zeros n
  links := []

end BlueSky
