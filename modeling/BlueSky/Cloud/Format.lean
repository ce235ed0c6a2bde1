import BlueSky.CloudLog

/-!
# Items in cloud segments

The bytes of an item as `bluesky_cloudlog_serialize` appends them to a segment: a packed
`cloudlog_header`, the data, the identifiers of the links, and the locations of the links
that are not null.

Main results:

- Theorem {lit}`CloudlogHeader.ofBytes_append`: a header is read back from the bytes it
  was written as, whatever follows it.
- Theorem {lit}`CloudlogHeader.toBytes_ofBytes`: a header is determined by its fields.
- Theorem {lit}`LogItem.cloudRecord_sections`: the sections of an item are found at the
  places that its header gives.
-/

namespace BlueSky

open List ByteLib PackedLib

/-! ## The header -/

/-- `struct cloudlog_header`. -/
structure CloudlogHeader where
  magic : BitVec 32
  cryptAuth : BitVec 256
  cryptIv : BitVec 128
  type : Byte
  id : CloudId
  inum : BitVec 64
  size1 : BitVec 32
  size2 : BitVec 32
  size3 : BitVec 32
deriving DecidableEq, Repr

namespace CloudlogHeader

/-- The widths of the fields. -/
def widths : List Nat := [4, 32, 16, 1, 16, 8, 4, 4, 4]

/-- The fields, in order. -/
def fields (h : CloudlogHeader) : Fields :=
  [(4, h.magic.toNat), (32, h.cryptAuth.toNat), (16, h.cryptIv.toNat), (1, h.type.toNat),
    (16, h.id.toNat), (8, h.inum.toNat), (4, h.size1.toNat), (4, h.size2.toNat),
    (4, h.size3.toNat)]

/-- The packed bytes of a header. -/
def toBytes (h : CloudlogHeader) : Bytes :=
  pack h.fields

/-- The header a buffer starts with. -/
def ofBytes (buf : Bytes) : CloudlogHeader where
  magic := readField 32 4 buf 0
  cryptAuth := readField 256 32 buf 4
  cryptIv := readField 128 16 buf 36
  type := readField 8 1 buf 52
  id := readField 128 16 buf 53
  inum := readField 64 8 buf 69
  size1 := readField 32 4 buf 77
  size2 := readField 32 4 buf 81
  size3 := readField 32 4 buf 85

/-- The size of the item that a header describes. -/
def itemSize (h : CloudlogHeader) : Nat :=
  cloudlogHeaderSize + h.size1.toNat + h.size2.toNat + h.size3.toNat

@[simp]
theorem length_toBytes (h : CloudlogHeader) : h.toBytes.length = cloudlogHeaderSize := by
  rw [toBytes, length_pack]
  rfl

/-- A written header is read back, whatever follows it. -/
theorem ofBytes_append (h : CloudlogHeader) (rest : Bytes) :
    ofBytes (h.toBytes ++ rest) = h := by
  have hfield := fun pre k x post => readField_pack pre k x post rest
  have hmagic := hfield [] 4 h.magic (h.fields.drop 1)
  have hauth := hfield (h.fields.take 1) 32 h.cryptAuth (h.fields.drop 2)
  have hiv := hfield (h.fields.take 2) 16 h.cryptIv (h.fields.drop 3)
  have htype := hfield (h.fields.take 3) 1 h.type (h.fields.drop 4)
  have hid := hfield (h.fields.take 4) 16 h.id (h.fields.drop 5)
  have hinum := hfield (h.fields.take 5) 8 h.inum (h.fields.drop 6)
  have hsize1 := hfield (h.fields.take 6) 4 h.size1 (h.fields.drop 7)
  have hsize2 := hfield (h.fields.take 7) 4 h.size2 (h.fields.drop 8)
  have hsize3 := hfield (h.fields.take 8) 4 h.size3 []
  unfold ofBytes
  cases h with
  | mk magic cryptAuth cryptIv type id inum size1 size2 size3 =>
    exact (mk.injEq ..).mpr ⟨hmagic, hauth, hiv, htype, hid, hinum, hsize1, hsize2, hsize3⟩

/-- The bytes of a header are those it was read from. -/
theorem toBytes_ofBytes {buf : Bytes} (h : cloudlogHeaderSize ≤ buf.length) :
    (ofBytes buf).toBytes = buf.take cloudlogHeaderSize := by
  have hfields : (ofBytes buf).fields = fieldsAt buf 0 widths := by
    have hread := fun k off => toNat_readField k buf off
    have hmagic := hread 4 0
    have hauth := hread 32 4
    have hiv := hread 16 36
    have htype := hread 1 52
    have hid := hread 16 53
    have hinum := hread 8 69
    have hsize1 := hread 4 77
    have hsize2 := hread 4 81
    have hsize3 := hread 4 85
    simp only [Nat.reduceMul] at hmagic hauth hiv htype hid hinum hsize1 hsize2 hsize3
    simp only [fields, ofBytes, fieldsAt, widths, hmagic, hauth, hiv, htype, hid, hinum,
      hsize1, hsize2, hsize3]
  rw [toBytes, hfields, pack_fieldsAt (by simpa [widths, cloudlogHeaderSize] using h)]
  simp [slice, widths, cloudlogHeaderSize]

end CloudlogHeader

/-! ## The record of an item -/

@[simp]
theorem linkId_none : linkId none = 0 :=
  rfl

@[simp]
theorem linkId_some (ref : LinkTarget) : linkId (some ref) = ref.id :=
  rfl

@[simp]
theorem linkLocation_none : linkLocation none = [] :=
  rfl

@[simp]
theorem linkLocation_some (ref : LinkTarget) : linkLocation (some ref) = ref.location.toBytes :=
  rfl

/-- The fields of a header that only encryption sets.  `bluesky_cloudlog_serialize` means to
clear them, but gives the arguments of `memset` in the wrong order, so that they hold
whatever the stack held. -/
structure CryptFields where
  auth : BitVec 256
  iv : BitVec 128
deriving DecidableEq, Repr

/-- The header of an item. -/
def LogItem.cloudHeader (item : LogItem) (magic : BitVec 32) (crypt : CryptFields) :
    CloudlogHeader where
  magic := magic
  cryptAuth := crypt.auth
  cryptIv := crypt.iv
  type := item.type.octet
  id := item.id
  inum := item.inum
  size1 := BitVec.ofNat 32 item.data.length
  size2 := BitVec.ofNat 32 item.linkIds.length
  size3 := BitVec.ofNat 32 item.linkLocations.length

/-- The bytes of an item: header and the three sections of `bluesky_serialize_cloudlog`. -/
def LogItem.cloudRecord (item : LogItem) (magic : BitVec 32) (crypt : CryptFields) : Bytes :=
  (item.cloudHeader magic crypt).toBytes ++ item.payload

/-- The number of bytes of an item. -/
def LogItem.cloudSize (item : LogItem) : Nat :=
  cloudlogHeaderSize + (item.data.length + item.linkIds.length + item.linkLocations.length)

namespace LogItem

variable (item : LogItem) (magic : BitVec 32) (crypt : CryptFields)

@[simp]
theorem length_cloudRecord : (item.cloudRecord magic crypt).length = item.cloudSize := by
  rw [cloudRecord, length_append, CloudlogHeader.length_toBytes, length_payload, cloudSize]

@[simp]
theorem ofBytes_cloudRecord (rest : Bytes) :
    CloudlogHeader.ofBytes (item.cloudRecord magic crypt ++ rest) =
      item.cloudHeader magic crypt := by
  rw [cloudRecord, append_assoc, CloudlogHeader.ofBytes_append]

theorem fits_of_cloudSize_lt {item : LogItem} (h : item.cloudSize < 2 ^ 32) : item.Fits := by
  unfold cloudSize at h
  exact ⟨by omega, by omega, by omega⟩

/-- The sizes in the header of an item are those of its sections. -/
theorem cloudHeader_sizes {item : LogItem} (h : item.Fits) (magic : BitVec 32)
    (crypt : CryptFields) :
    (item.cloudHeader magic crypt).size1.toNat = item.data.length ∧
      (item.cloudHeader magic crypt).size2.toNat = item.linkIds.length ∧
      (item.cloudHeader magic crypt).size3.toNat = item.linkLocations.length := by
  have hfits : ∀ n, n < 2 ^ 32 → (BitVec.ofNat 32 n).toNat = n := by
    intro n hn
    rw [BitVec.toNat_ofNat, Nat.mod_eq_of_lt hn]
  exact ⟨hfits _ h.data_lt, hfits _ h.linkIds_lt, hfits _ h.linkLocations_lt⟩

theorem itemSize_cloudHeader {item : LogItem} (h : item.Fits) (magic : BitVec 32)
    (crypt : CryptFields) : (item.cloudHeader magic crypt).itemSize = item.cloudSize := by
  rcases cloudHeader_sizes h magic crypt with ⟨h1, h2, h3⟩
  rw [CloudlogHeader.itemSize, h1, h2, h3, cloudSize]
  omega

/-- The sections of an item are found at the places that its header gives. -/
theorem cloudRecord_sections (rest : Bytes) :
    slice (item.cloudRecord magic crypt ++ rest) cloudlogHeaderSize item.data.length =
        item.data ∧
      slice (item.cloudRecord magic crypt ++ rest)
        (cloudlogHeaderSize + item.data.length) item.linkIds.length = item.linkIds ∧
      slice (item.cloudRecord magic crypt ++ rest)
        (cloudlogHeaderSize + item.data.length + item.linkIds.length)
        item.linkLocations.length = item.linkLocations := by
  have hdata := slice_middle (item.cloudHeader magic crypt).toBytes item.data
    (item.linkIds ++ (item.linkLocations ++ rest))
  have hids := slice_middle ((item.cloudHeader magic crypt).toBytes ++ item.data) item.linkIds
    (item.linkLocations ++ rest)
  have hlocs := slice_middle
    ((item.cloudHeader magic crypt).toBytes ++ (item.data ++ item.linkIds))
    item.linkLocations rest
  simp only [length_append, CloudlogHeader.length_toBytes, append_assoc,
    ← Nat.add_assoc] at hdata hids hlocs
  simp only [cloudRecord, payload, append_assoc]
  exact ⟨hdata, hids, hlocs⟩

end LogItem

end BlueSky
