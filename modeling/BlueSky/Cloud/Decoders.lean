import BlueSky.Cloud.Crypt

/-!
# The decoders of the cloud item format

Three pieces of code read items of cloud segments: `bluesky_deserialize_cloudlog` and
`bluesky_cleaner_deserialize` in the proxy, and `parse_item` in the cleaner, which also
writes items with `LogItem.serialize`.  A link that is not null has an identifier in the
second section and a location in the third; a null link has only a zero identifier.

Main results:

- Theorem {lit}`decodersAgree_iff`: the three decoders agree on an item exactly if none of
  its links is null.
- Theorem {lit}`serialize_parseItem`: the cleaner writes an item back as it was, but for the
  locations it has replaced.
-/

namespace BlueSky

open List Option ByteLib PackedLib

/-! ## What an item says -/

/-- What a decoder is to find in an item.  A null link has the zero identifier and no
location. -/
structure DecodedItem where
  type : Int
  id : CloudId
  inum : BitVec 64
  links : List (CloudId × Option CloudPointer)
deriving DecidableEq, Repr

/-- A link as a decoder is to find it. -/
def decodedLink (link : Option LinkTarget) : CloudId × Option CloudPointer :=
  (linkId link, link.map LinkTarget.location)

/-- What an item says. -/
def LogItem.decoded (item : LogItem) : DecodedItem where
  type := item.type.code
  id := item.id
  inum := item.inum
  links := item.links.map decodedLink

/-- What the proxy has found when it has deserialized an item of its table. -/
def CloudLog.decoded (t : Locations) (log : CloudLog) : DecodedItem where
  type := log.type
  id := log.id
  inum := log.inum
  links := log.links.map fun link =>
    match link with
    | none => (0, none)
    | some id => (id, (t id).map CloudLog.location)

/-! ## The proxy's decoder of cleaned items -/

/-- `BlueSkyCleanerItem`; its links are `BlueSkyCleanerLink` structures. -/
structure CleanerItem where
  type : Int
  id : CloudId
  inum : BitVec 64
  links : List LinkTarget
deriving DecidableEq, Repr

/-- What the proxy has found in a cleaned item. -/
def CleanerItem.decoded (item : CleanerItem) : DecodedItem where
  type := item.type
  id := item.id
  inum := item.inum
  links := item.links.map fun link => (link.id, some link.location)

/-- The loop over the links: it takes a location for every link. -/
def cleanerLinkLoop : List CloudId → Bytes → Option (List LinkTarget)
  | [], _ => some []
  | id :: ids, data3 =>
    if data3.length < 16 then none
    else do
      let links ← cleanerLinkLoop ids (data3.drop 16)
      some (⟨id, CloudPointer.ofBytes data3⟩ :: links)

/-- `bluesky_cleaner_deserialize`.  A failed assertion has the result {lean}`none`, and
`some none` is the null pointer returned for garbage. -/
def cleanerDeserialize (raw : Bytes) : Option (Option CleanerItem) :=
  if raw.length ≤ 4 then none
  else
    let header := CloudlogHeader.ofBytes raw
    if raw.length < cloudlogHeaderSize ∨ header.magic ≠ cloudlogMagic then some none
    else if raw.length < header.itemSize then none
    else do
      let links ← cleanerLinkLoop
        (parseIds (slice raw (cloudlogHeaderSize + header.size1.toNat) header.size2.toNat))
        (slice raw (cloudlogHeaderSize + header.size1.toNat + header.size2.toNat)
          header.size3.toNat)
      some (some
        { type := typeOfOctet header.type
          id := header.id
          inum := header.inum
          links := links })

/-! ## The cleaner's parser and serializer -/

/-- The cleaner's `LogItem`. -/
structure CleanerLogItem where
  cryptkeys : CryptFields
  encrypted : Bool
  type : Byte
  id : CloudId
  inum : BitVec 64
  data : Bytes
  links : List (CloudId × Option CloudPointer)
deriving DecidableEq, Repr

/-- What the cleaner has found in an item. -/
def CleanerLogItem.decoded (item : CleanerLogItem) : DecodedItem where
  type := typeOfOctet item.type
  id := item.id
  inum := item.inum
  links := item.links.map fun link => (link.1, if link.1 = 0 then none else link.2)

/-- The loop over the links in `parse_item`; unpacking a location that is too short raises
an exception. -/
def parseLinks : List CloudId → Bytes → Option (List (CloudId × Option CloudPointer))
  | [], _ => some []
  | id :: ids, linkLocs =>
    if id = 0 then do
      let links ← parseLinks ids linkLocs
      some ((id, none) :: links)
    else if linkLocs.length < 16 then none
    else do
      let links ← parseLinks ids (linkLocs.drop 16)
      some ((id, some (CloudPointer.ofBytes linkLocs)) :: links)

/-- `parse_item`.  An exception has the result {lean}`none`, and `some none` is the value
`None`.  The type is unpacked as a signed octet, and `chr` takes no negative number. -/
def parseItem (raw : Bytes) : Option (Option CleanerLogItem) :=
  if raw.length < cloudlogHeaderSize then some none
  else
    let header := CloudlogHeader.ofBytes raw
    if header.magic ≠ cloudlogMagic ∧ header.magic ≠ cloudlogMagicEncrypted then some none
    else if raw.length ≠ header.itemSize then some none
    else if 128 ≤ header.type.toNat then none
    else do
      let links ← parseLinks
        (parseIds (slice raw (cloudlogHeaderSize + header.size1.toNat) header.size2.toNat))
        (slice raw (cloudlogHeaderSize + header.size1.toNat + header.size2.toNat)
          header.size3.toNat)
      some (some
        { cryptkeys := ⟨header.cryptAuth, header.cryptIv⟩
          encrypted := header.magic = cloudlogMagicEncrypted
          type := header.type
          id := header.id
          inum := header.inum
          data := slice raw cloudlogHeaderSize header.size1.toNat
          links := links })

/-- The locations that `LogItem.serialize` writes; a link that is not null must have one. -/
def serializeLocs : List (CloudId × Option CloudPointer) → Option Bytes
  | [] => some []
  | (id, loc) :: links =>
    if id = 0 then serializeLocs links
    else do
      let loc ← loc
      let locs ← serializeLocs links
      some (loc.toBytes ++ locs)

/-- `LogItem.serialize`.  Packing a number that does not fit its field raises an
exception. -/
def CleanerLogItem.serialize (item : CleanerLogItem) : Option Bytes := do
  let linkIds := (item.links.map fun link => link.1.toBytes).flatten
  let linkLocs ← serializeLocs item.links
  if 128 ≤ item.type.toNat ∨ 2 ^ 32 ≤ item.data.length ∨ 2 ^ 32 ≤ linkIds.length ∨
      2 ^ 32 ≤ linkLocs.length then none
  else
    let header : CloudlogHeader :=
      { magic := if item.encrypted then cloudlogMagicEncrypted else cloudlogMagic
        cryptAuth := item.cryptkeys.auth
        cryptIv := item.cryptkeys.iv
        type := item.type
        id := item.id
        inum := item.inum
        size1 := BitVec.ofNat 32 item.data.length
        size2 := BitVec.ofNat 32 linkIds.length
        size3 := BitVec.ofNat 32 linkLocs.length }
    some (header.toBytes ++ (item.data ++ (linkIds ++ linkLocs)))

/-! ## Reading links back -/

variable {links : List (Option LinkTarget)}

theorem parseLinks_written (hids : ∀ ref, some ref ∈ links → ref.id ≠ 0) :
    parseLinks (links.map linkId) (links.map linkLocation).flatten =
      some (links.map decodedLink) := by
  induction links with
  | nil => rfl
  | cons link links ih =>
    replace ih := ih fun ref href => hids ref (mem_cons_of_mem _ href)
    rw [map_cons, map_cons, flatten_cons, map_cons]
    cases link with
    | none =>
      rw [linkId_none, linkLocation_none, nil_append, parseLinks, if_pos rfl, ih]
      rfl
    | some ref =>
      rw [linkId_some, linkLocation_some, parseLinks, if_neg (hids ref mem_cons_self),
        if_neg (ref.location.not_length_append_lt _), ref.location.drop_append,
        CloudPointer.ofBytes_append, ih]
      rfl

/-- The cleaner writes the locations of the links that are not null. -/
theorem serializeLocs_decodedLink (hids : ∀ ref, some ref ∈ links → ref.id ≠ 0) :
    serializeLocs (links.map decodedLink) = some (links.map linkLocation).flatten := by
  induction links with
  | nil => rfl
  | cons link links ih =>
    replace ih := ih fun ref href => hids ref (mem_cons_of_mem _ href)
    rw [map_cons, map_cons, flatten_cons]
    cases link with
    | none =>
      rw [decodedLink, serializeLocs]
      exact ih
    | some ref =>
      rw [decodedLink, linkId_some, serializeLocs, if_neg (hids ref mem_cons_self), ih]
      rfl

/-- The proxy's decoder of cleaned items needs a location for every link. -/
theorem length_of_cleanerLinkLoop {ids : List CloudId} {data3 : Bytes}
    {links : List LinkTarget} (h : cleanerLinkLoop ids data3 = some links) :
    16 * ids.length ≤ data3.length := by
  induction ids generalizing data3 links with
  | nil => simp
  | cons id ids ih =>
    unfold cleanerLinkLoop at h
    split_ifs at h with hshort
    rcases bind_eq_some_iff.mp h with ⟨rest, hrest, -⟩
    have hlen := ih hrest
    rw [length_drop] at hlen
    rw [length_cons]
    omega

theorem cleanerLinkLoop_written (hnull : none ∉ links) :
    ∃ found, cleanerLinkLoop (links.map linkId) (links.map linkLocation).flatten = some found ∧
      found.map (fun link => (link.id, some link.location)) = links.map decodedLink := by
  induction links with
  | nil => exact ⟨[], rfl, rfl⟩
  | cons link links ih =>
    rcases ih fun hmem => hnull (mem_cons_of_mem _ hmem) with ⟨found, hfound, hdecoded⟩
    cases link with
    | none => exact absurd mem_cons_self hnull
    | some ref =>
      refine ⟨⟨ref.id, ref.location⟩ :: found, ?_, ?_⟩
      · rw [map_cons, map_cons, flatten_cons, cleanerLinkLoop]
        rw [linkLocation_some, if_neg (ref.location.not_length_append_lt _),
          ref.location.drop_append, hfound, CloudPointer.ofBytes_append]
        rfl
      · rw [map_cons, map_cons, hdecoded]
        rfl

/-- A null link has no location. -/
theorem length_linkLocations_lt (hnull : none ∈ links) :
    (links.map linkLocation).flatten.length < 16 * links.length := by
  have hle : ∀ ls : List (Option LinkTarget),
      (ls.map linkLocation).flatten.length ≤ 16 * ls.length := by
    intro ls
    induction ls with
    | nil => simp
    | cons link ls ih =>
      rw [map_cons, flatten_cons, length_append, length_cons]
      cases link with
      | none => simp only [linkLocation, length_nil]; omega
      | some ref => simp only [linkLocation, CloudPointer.length_toBytes]; omega
  rcases append_of_mem hnull with ⟨before, after, rfl⟩
  have hbefore := hle before
  have hafter := hle after
  simp only [map_append, map_cons, linkLocation, flatten_append,
    flatten_cons, nil_append, length_append, length_cons]
  omega

/-! ## Reading items back -/

theorem LogType.octet_lt (t : LogType) : t.octet.toNat < 128 := by
  cases t <;> decide

/-- The cleaner's view of an item. -/
def LogItem.toCleaner (item : LogItem) (encrypted : Bool) (cryptkeys : CryptFields) :
    CleanerLogItem where
  cryptkeys := cryptkeys
  encrypted := encrypted
  type := item.type.octet
  id := item.id
  inum := item.inum
  data := item.data
  links := item.links.map decodedLink

theorem decoded_toCleaner {item : LogItem} (hids : ∀ ref, some ref ∈ item.links → ref.id ≠ 0)
    (encrypted : Bool) (cryptkeys : CryptFields) :
    (item.toCleaner encrypted cryptkeys).decoded = item.decoded := by
  have hlinks : ∀ link ∈ item.links,
      ((decodedLink link).1, if (decodedLink link).1 = 0 then none else (decodedLink link).2) =
        decodedLink link := by
    intro link hlink
    cases link with
    | none => rfl
    | some ref =>
      have hid : (decodedLink (some ref)).1 ≠ 0 := hids ref hlink
      rw [if_neg hid]
  simp only [CleanerLogItem.decoded, LogItem.toCleaner, typeOfOctet_octet, LogItem.decoded,
    List.map_map]
  congr 1
  exact map_congr_left hlinks

variable {item : LogItem}

/-- The cleaner writes an item as the proxy does. -/
theorem serialize_toCleaner (hfits : item.Fits) (hids : ∀ ref, some ref ∈ item.links → ref.id ≠ 0)
    (encrypted : Bool) (cryptkeys : CryptFields) :
    (item.toCleaner encrypted cryptkeys).serialize =
      some (item.cloudRecord (itemMagic encrypted) cryptkeys) := by
  have hlinkIds : ((item.links.map decodedLink).map fun link => link.1.toBytes).flatten =
      item.linkIds := by
    rw [LogItem.linkIds, List.map_map]
    rfl
  have hlocs : serializeLocs (item.links.map decodedLink) = some item.linkLocations :=
    serializeLocs_decodedLink hids
  have hoctet := item.type.octet_lt
  have hdata := hfits.data_lt
  have hlen2 := hfits.linkIds_lt
  have hlen3 := hfits.linkLocations_lt
  simp only [CleanerLogItem.serialize, LogItem.toCleaner, hlinkIds, hlocs, bind_eq_bind, bind_some]
  rw [if_neg (by omega)]
  rfl

/-- The cleaner finds an item as it was written. -/
theorem parseItem_record (hfits : item.Fits) (hids : ∀ ref, some ref ∈ item.links → ref.id ≠ 0)
    (encrypted : Bool) (cryptkeys : CryptFields) :
    parseItem (item.cloudRecord (itemMagic encrypted) cryptkeys) =
      some (some (item.toCleaner encrypted cryptkeys)) := by
  have hheader := item.ofBytes_cloudRecord (itemMagic encrypted) cryptkeys []
  rcases LogItem.cloudHeader_sizes hfits (itemMagic encrypted) cryptkeys with ⟨h1, h2, h3⟩
  rcases item.cloudRecord_sections (itemMagic encrypted) cryptkeys [] with ⟨hd, hi, hl⟩
  rw [append_nil] at hheader hd hi hl
  have hlen := item.length_cloudRecord (itemMagic encrypted) cryptkeys
  have hsize := LogItem.itemSize_cloudHeader hfits (itemMagic encrypted) cryptkeys
  have hoctet := item.type.octet_lt
  have hmagic : ¬ ((item.cloudHeader (itemMagic encrypted) cryptkeys).magic ≠ cloudlogMagic ∧
      (item.cloudHeader (itemMagic encrypted) cryptkeys).magic ≠ cloudlogMagicEncrypted) := by
    simp only [LogItem.cloudHeader]
    cases encrypted <;> decide
  have hlinks : parseLinks (item.links.map linkId) item.linkLocations =
      some (item.links.map decodedLink) := parseLinks_written hids
  unfold parseItem
  rw [if_neg (by rw [hlen, LogItem.cloudSize]; omega)]
  simp only [hheader]
  rw [if_neg hmagic, if_neg (by rw [hlen, hsize]; simp), if_neg (by
    simp only [LogItem.cloudHeader]
    omega)]
  simp only [h1, h2, h3, hd, hi, hl, parseIds_linkIds, hlinks]
  simp [LogItem.toCleaner, LogItem.cloudHeader, itemMagic_eq_encrypted_iff]

theorem readField_octet (buf : Bytes) (off : Nat) : readField 8 1 buf off = buf.getD off 0 := by
  rw [readField, slice, getD_eq_getElem?_getD, ← head?_drop]
  cases buf.drop off with
  | nil => rfl
  | cons b bs =>
    have hb := b.isLt
    apply BitVec.eq_of_toNat_eq
    simp [leNat]

/-- The header of a cloud item as the proxy's decoder sees it. -/
theorem itemHeader_of_magic {raw : Bytes}
    (h : (CloudlogHeader.ofBytes raw).magic = cloudlogMagic) :
    itemHeader raw = some
      { headerSize := cloudlogHeaderSize
        type := typeOfOctet (CloudlogHeader.ofBytes raw).type
        inum := (CloudlogHeader.ofBytes raw).inum
        size1 := (CloudlogHeader.ofBytes raw).size1.toNat
        size2 := (CloudlogHeader.ofBytes raw).size2.toNat
        size3 := (CloudlogHeader.ofBytes raw).size3.toNat } := by
  have hmagic : readField 32 4 raw 0 = cloudlogMagic := h
  rw [itemHeader, hmagic, if_neg (by decide), if_pos rfl, ← readField_octet]
  rfl

theorem itemHeader_cloudRecord (hfits : item.Fits) (crypt : CryptFields) :
    itemHeader (item.cloudRecord cloudlogMagic crypt) = some
      { headerSize := cloudlogHeaderSize
        type := item.type.code
        inum := item.inum
        size1 := item.data.length
        size2 := item.linkIds.length
        size3 := item.linkLocations.length } := by
  have hheader := item.ofBytes_cloudRecord cloudlogMagic crypt []
  rw [append_nil] at hheader
  rcases LogItem.cloudHeader_sizes hfits cloudlogMagic crypt with ⟨h1, h2, h3⟩
  rw [itemHeader_of_magic (by rw [hheader]; rfl), hheader, h1, h2, h3]
  simp only [LogItem.cloudHeader, typeOfOctet_octet]

/-- Links to one item name one place. -/
def OnePlace (links : List (Option LinkTarget)) : Prop :=
  ∀ a b, some a ∈ links → some b ∈ links → a.id = b.id → a.location = b.location

/-- The proxy finds an item as it was written. -/
theorem deserializeCloudlog_cloudRecord (hfits : item.Fits)
    (hids : ∀ ref, some ref ∈ item.links → ref.id ≠ 0) (hplaces : OnePlace item.links)
    (crypt : CryptFields) (t : Locations) (log : CloudLog) (hlog : log.id = item.id) :
    ∃ t' log', deserializeCloudlog t log (item.cloudRecord cloudlogMagic crypt) =
        some (t', log') ∧ log'.decoded t' = item.decoded := by
  have hhd := itemHeader_cloudRecord hfits crypt
  have hlen := item.length_cloudRecord cloudlogMagic crypt
  rcases item.cloudRecord_sections cloudlogMagic crypt [] with ⟨-, hi, hl⟩
  rw [append_nil] at hi hl
  unfold LogItem.cloudSize cloudlogHeaderSize at hlen
  rcases linkLoop_written item.links hids (Function.update t log.id (some
    { log with
      type := item.type.code, inum := item.inum, data := none,
      dataSize := item.data.length })) with ⟨t', hloop, hfound⟩
  rcases linkLoop_frame hloop (Function.update_self log.id _ t) with ⟨log', hlog', hsame⟩
  refine ⟨t', { log' with links := item.links.map (Option.map LinkTarget.id) }, ?_, ?_⟩
  · rw [deserializeCloudlog, if_neg (by omega)]
    simp only [hhd]
    rw [if_neg (by rw [cloudlogHeaderSize]; omega), if_neg (by rw [cloudlogHeaderSize]; omega),
      hi, hl, parseIds_linkIds]
    change (linkLoop _ (item.links.map linkId) (item.links.map linkLocation).flatten).bind _ = _
    rw [hloop, bind_some]
    simp only [hlog']
    rfl
  · unfold CloudLog.SameButCloud at hsame
    rw [hsame]
    simp only [CloudLog.decoded, LogItem.decoded, hlog, List.map_map]
    congr 1
    apply map_congr_left
    intro link hlink
    cases link with
    | none => rfl
    | some ref =>
      have hagree : ∀ other, some other ∈ item.links → other.id = ref.id →
          other.location = ref.location := fun other hother hid =>
        hplaces other ref hother hlink hid
      rcases hfound ref.id ref.location hagree (Or.inr ⟨ref, hlink, rfl⟩) with
        ⟨found, hfound, hlocation⟩
      simp [decodedLink, hfound, hlocation]

/-- What the proxy's decoder of cleaned items makes of a record. -/
theorem cleanerDeserialize_cloudRecord (hfits : item.Fits) (crypt : CryptFields) :
    cleanerDeserialize (item.cloudRecord cloudlogMagic crypt) =
      (cleanerLinkLoop (item.links.map linkId) item.linkLocations).map fun links => some
        { type := item.type.code, id := item.id, inum := item.inum, links := links } := by
  have hheader := item.ofBytes_cloudRecord cloudlogMagic crypt []
  rcases LogItem.cloudHeader_sizes hfits cloudlogMagic crypt with ⟨h1, h2, h3⟩
  rcases item.cloudRecord_sections cloudlogMagic crypt [] with ⟨-, hi, hl⟩
  rw [append_nil] at hheader hi hl
  have hlen := item.length_cloudRecord cloudlogMagic crypt
  have hsize := LogItem.itemSize_cloudHeader hfits cloudlogMagic crypt
  have hmagic : (item.cloudHeader cloudlogMagic crypt).magic = cloudlogMagic := rfl
  unfold cleanerDeserialize
  rw [if_neg (by rw [hlen, LogItem.cloudSize, cloudlogHeaderSize]; omega)]
  simp only [hheader]
  rw [if_neg (by rw [hlen, LogItem.cloudSize, hmagic]; simp), if_neg (by rw [hlen, hsize]; simp)]
  simp only [h1, h2, h3, hi, hl, parseIds_linkIds]
  simp only [LogItem.cloudHeader, typeOfOctet_octet]
  cases cleanerLinkLoop (item.links.map linkId) item.linkLocations <;> rfl

/-! ## Agreement -/

/-- All decoders find the same in an item: the two of the proxy in the bytes {lit}`raw`, and
that of the cleaner in the bytes {lit}`stored`. -/
def DecodersAgree (raw stored : Bytes) (found : DecodedItem) : Prop :=
  (∀ (t : Locations) (log : CloudLog), log.id = found.id →
    ∃ t' log', deserializeCloudlog t log raw = some (t', log') ∧ log'.decoded t' = found) ∧
  (∃ item, cleanerDeserialize raw = some (some item) ∧ item.decoded = found) ∧
  ∃ item, parseItem stored = some (some item) ∧ item.decoded = found

/-- Agreement on a record as the proxy sees it, and on the record as it is stored, with the
data possibly encrypted. -/
theorem decodersAgree_record_iff {item : LogItem} (hfits : item.Fits)
    (hids : ∀ ref, some ref ∈ item.links → ref.id ≠ 0) (hplaces : OnePlace item.links)
    {data : Bytes} (hdata : data.length = item.data.length) (encrypted : Bool)
    (crypt crypt' : CryptFields) :
    DecodersAgree (item.cloudRecord cloudlogMagic crypt)
        ((item.withData data).cloudRecord (itemMagic encrypted) crypt') item.decoded ↔
      none ∉ item.links := by
  constructor
  · rintro ⟨-, ⟨found, hfound, -⟩, -⟩ hnull
    rw [cleanerDeserialize_cloudRecord hfits, map_eq_some_iff] at hfound
    rcases hfound with ⟨links, hlinks, -⟩
    have hlong := length_of_cleanerLinkLoop hlinks
    have hshort := length_linkLocations_lt hnull
    rw [length_map, LogItem.linkLocations] at hlong
    omega
  · intro hnull
    refine ⟨fun t log hlog =>
      deserializeCloudlog_cloudRecord hfits hids hplaces crypt t log hlog, ?_, ?_⟩
    · rcases cleanerLinkLoop_written hnull with ⟨links, hlinks, hdecoded⟩
      refine ⟨⟨item.type.code, item.id, item.inum, links⟩, ?_, ?_⟩
      · rw [cleanerDeserialize_cloudRecord hfits, LogItem.linkLocations, hlinks]
        rfl
      · simp only [CleanerItem.decoded, LogItem.decoded, hdecoded]
    · exact ⟨_, parseItem_record (hfits.withData hdata) hids encrypted crypt',
        @decoded_toCleaner (item.withData data) hids encrypted crypt'⟩

/-- The decoders agree on an item exactly if none of its links is null.  This holds for items
that the proxy appends to a segment, and for items that the cleaner writes, which the proxy
decodes after it has decrypted them. -/
theorem decodersAgree_iff (item : LogItem) (hfits : item.Fits)
    (hids : ∀ ref, some ref ∈ item.links → ref.id ≠ 0) (hplaces : OnePlace item.links) :
    (∀ crypt, DecodersAgree (item.cloudRecord cloudlogMagic crypt)
        (item.cloudRecord cloudlogMagic crypt) item.decoded ↔ none ∉ item.links) ∧
    ∀ encrypted cryptkeys, ∃ stored,
      (item.toCleaner encrypted cryptkeys).serialize = some stored ∧
      ∀ (c : Crypt) (allowUnauth : Bool) (raw : Bytes),
        c.cryptBlockDecrypt stored allowUnauth = some (raw, true) →
        (DecodersAgree raw stored item.decoded ↔ none ∉ item.links) := by
  refine ⟨fun crypt =>
    decodersAgree_record_iff hfits hids hplaces rfl false crypt crypt, ?_⟩
  intro encrypted cryptkeys
  refine ⟨_, serialize_toCleaner hfits hids encrypted cryptkeys, ?_⟩
  intro c allowUnauth raw haccept
  rcases Crypt.record_of_accepts hfits haccept with ⟨data, crypt', hdata, rfl⟩
  exact @decodersAgree_record_iff (item.withData data) (hfits.withData hdata) hids hplaces
    item.data hdata.symm encrypted crypt' cryptkeys

/-- An inode with one block. -/
def linkedInode : LogItem where
  type := .inode
  id := 7
  inum := 2
  data := [0x68, 0x69]
  links := [some ⟨9, ⟨0, 1, 0, 120⟩⟩]

theorem linkedInode_fits : linkedInode.Fits :=
  ⟨by decide, by decide, by decide⟩

theorem linkedInode_id_ne (ref : LinkTarget) (h : some ref ∈ linkedInode.links) :
    ref.id ≠ 0 := by
  simp only [linkedInode, mem_singleton, some.injEq] at h
  subst h
  decide

theorem decodersAgree_iff_linked :
    none ∉ linkedInode.links ∧ DecodersAgree (linkedInode.cloudRecord cloudlogMagic ⟨0, 0⟩)
      (linkedInode.cloudRecord cloudlogMagic ⟨0, 0⟩) linkedInode.decoded := by
  have hnull : none ∉ linkedInode.links := by decide
  have hplaces : OnePlace linkedInode.links := by
    intro a b ha hb _
    simp only [linkedInode, mem_singleton, some.injEq] at ha hb
    rw [ha, hb]
  exact ⟨hnull, ((decodersAgree_iff linkedInode linkedInode_fits linkedInode_id_ne
    hplaces).1 ⟨0, 0⟩).mpr hnull⟩

/-- An inode whose first block is a hole. -/
def holeyInode : LogItem where
  type := .inode
  id := 7
  inum := 2
  data := [0x68, 0x69]
  links := [none, some ⟨9, ⟨0, 1, 0, 120⟩⟩]

/-- An item with a null link makes `bluesky_cleaner_deserialize` fail its assertion, while the
other decoders read it. -/
theorem null_link_aborts :
    cleanerDeserialize (holeyInode.cloudRecord cloudlogMagic ⟨0, 0⟩) = none ∧
      (deserializeCloudlog (fun _ => none) (cloudlogNew 7)
        (holeyInode.cloudRecord cloudlogMagic ⟨0, 0⟩)).map (fun r => r.2.decoded r.1) =
          some holeyInode.decoded ∧
      (parseItem (holeyInode.cloudRecord cloudlogMagic ⟨0, 0⟩)).map
        (Option.map CleanerLogItem.decoded) = some (some holeyInode.decoded) := by
  decide +kernel

/-! ## Rewriting items -/

/-- Links with other locations, as `rewrite_inode` makes them when it has copied the items
they point to. -/
def relocateLinks (move : Nat → CloudPointer → CloudPointer)
    (links : List (CloudId × Option CloudPointer)) : List (CloudId × Option CloudPointer) :=
  links.mapIdx fun i link => (link.1, link.2.map (move i))

/-- The links of an item after its targets have moved. -/
def movedLinks (move : Nat → CloudPointer → CloudPointer) (links : List (Option LinkTarget)) :
    List (Option LinkTarget) :=
  links.mapIdx fun i link => link.map fun ref => { ref with location := move i ref.location }

theorem relocateLinks_decodedLink (move : Nat → CloudPointer → CloudPointer)
    (links : List (Option LinkTarget)) :
    relocateLinks move (links.map decodedLink) = (movedLinks move links).map decodedLink := by
  induction links generalizing move with
  | nil => rfl
  | cons link links ih =>
    have hrest := ih fun i => move (i + 1)
    unfold relocateLinks movedLinks at hrest ⊢
    rw [map_cons, mapIdx_cons, mapIdx_cons, map_cons, hrest]
    cases link <;> rfl

theorem linkIds_movedLinks (move : Nat → CloudPointer → CloudPointer)
    (links : List (Option LinkTarget)) :
    (movedLinks move links).map linkId = links.map linkId := by
  induction links generalizing move with
  | nil => rfl
  | cons link links ih =>
    have hrest := ih fun i => move (i + 1)
    unfold movedLinks at hrest ⊢
    rw [mapIdx_cons, map_cons, map_cons, hrest]
    cases link <;> rfl

theorem length_locations_movedLinks (move : Nat → CloudPointer → CloudPointer)
    (links : List (Option LinkTarget)) :
    ((movedLinks move links).map linkLocation).flatten.length =
      (links.map linkLocation).flatten.length := by
  induction links generalizing move with
  | nil => rfl
  | cons link links ih =>
    have hrest := ih fun i => move (i + 1)
    unfold movedLinks at hrest ⊢
    rw [mapIdx_cons, map_cons, map_cons, flatten_cons, flatten_cons,
      length_append, length_append, hrest]
    cases link with
    | none => rfl
    | some ref => simp

/-- Targets that have not moved leave the links as they are. -/
theorem movedLinks_same {move : Nat → CloudPointer → CloudPointer}
    (h : ∀ i location, move i location = location) (links : List (Option LinkTarget)) :
    movedLinks move links = links := by
  induction links generalizing move with
  | nil => rfl
  | cons link links ih =>
    have hrest := ih fun i => h (i + 1)
    unfold movedLinks at hrest ⊢
    rw [mapIdx_cons, hrest]
    cases link with
    | none => rfl
    | some ref => simp [h]

/-- An item after its targets have moved. -/
def LogItem.moved (item : LogItem) (move : Nat → CloudPointer → CloudPointer) : LogItem :=
  { item with links := movedLinks move item.links }

section Moved

variable (item : LogItem) (move : Nat → CloudPointer → CloudPointer)

theorem LogItem.linkIds_moved : (item.moved move).linkIds = item.linkIds := by
  have hids := congrArg (List.map CloudId.toBytes) (linkIds_movedLinks move item.links)
  rw [List.map_map, List.map_map] at hids
  exact congrArg List.flatten hids

theorem LogItem.length_linkLocations_moved :
    (item.moved move).linkLocations.length = item.linkLocations.length :=
  length_locations_movedLinks move item.links

theorem LogItem.Fits.moved {item : LogItem} (h : item.Fits) : (item.moved move).Fits where
  data_lt := h.data_lt
  linkIds_lt := by
    rw [item.linkIds_moved]
    exact h.linkIds_lt
  linkLocations_lt := by
    rw [item.length_linkLocations_moved]
    exact h.linkLocations_lt

theorem id_ne_of_moved {item : LogItem} (hids : ∀ ref, some ref ∈ item.links → ref.id ≠ 0)
    {ref : LinkTarget} (h : some ref ∈ (item.moved move).links) : ref.id ≠ 0 := by
  rcases mem_mapIdx.mp h with ⟨i, hi, hmoved⟩
  rcases map_eq_some_iff.mp hmoved with ⟨old, hold, rfl⟩
  exact hids old (hold ▸ getElem_mem hi)

theorem LogItem.cloudHeader_moved (magic : BitVec 32) (crypt : CryptFields) :
    (item.moved move).cloudHeader magic crypt = item.cloudHeader magic crypt := by
  unfold cloudHeader
  rw [item.linkIds_moved, item.length_linkLocations_moved]
  rfl

/-- The records of an item before and after its targets have moved differ at most in the
last section. -/
theorem LogItem.take_cloudRecord_moved (magic : BitVec 32) (crypt : CryptFields) :
    ((item.moved move).cloudRecord magic crypt).take
        (item.cloudSize - item.linkLocations.length) =
      (item.cloudRecord magic crypt).take (item.cloudSize - item.linkLocations.length) := by
  have hsections : ∀ x : LogItem, x.cloudRecord magic crypt =
      ((x.cloudHeader magic crypt).toBytes ++ (x.data ++ x.linkIds)) ++ x.linkLocations := by
    intro x
    simp [cloudRecord, payload]
  have hlen : item.cloudSize - item.linkLocations.length =
      ((item.cloudHeader magic crypt).toBytes ++ (item.data ++ item.linkIds)).length := by
    simp only [cloudSize, length_append, CloudlogHeader.length_toBytes]
    omega
  rw [hsections, hsections, item.cloudHeader_moved, item.linkIds_moved, hlen, take_left]
  exact take_left

end Moved

/-- The cleaner parses an item as the proxy has stored it and writes it back, with other
locations for some links: the result has the same length, differs at most in the last
section, and has the same verdict of authentication.  Without other locations it is the
item itself. -/
theorem serialize_parseItem (c : Crypt) (item : LogItem) (hfits : item.Fits)
    (hids : ∀ ref, some ref ∈ item.links → ref.id ≠ 0) (iv : BitVec 128) (crypt : CryptFields)
    (move : Nat → CloudPointer → CloudPointer) :
    ∃ stored parsed out,
      c.cryptBlockEncrypt iv (item.cloudRecord cloudlogMagic crypt) = some stored ∧
      parseItem stored = some (some parsed) ∧
      { parsed with links := relocateLinks move parsed.links }.serialize = some out ∧
      out.length = stored.length ∧
      out.take (stored.length - (CloudlogHeader.ofBytes stored).size3.toNat) =
        stored.take (stored.length - (CloudlogHeader.ofBytes stored).size3.toNat) ∧
      (∀ allowUnauth, (c.cryptBlockDecrypt out allowUnauth).map Prod.snd =
        (c.cryptBlockDecrypt stored allowUnauth).map Prod.snd) ∧
      ((∀ i location, move i location = location) → out = stored) := by
  rcases c.cryptBlockEncrypt_record hfits iv crypt with
    ⟨encrypted, data, crypt', hdata, hstored⟩
  have hfits' := hfits.withData hdata
  have hids' : ∀ ref, some ref ∈ (item.withData data).links → ref.id ≠ 0 := hids
  generalize item.withData data = item' at hfits' hids' hstored
  have hheader := item'.ofBytes_cloudRecord (itemMagic encrypted) crypt' []
  rw [append_nil] at hheader
  have hsize3 := (LogItem.cloudHeader_sizes hfits' (itemMagic encrypted) crypt').2.2
  have hout : { item'.toCleaner encrypted crypt' with
      links := relocateLinks move (item'.toCleaner encrypted crypt').links } =
        (item'.moved move).toCleaner encrypted crypt' := by
    simp only [LogItem.toCleaner, relocateLinks_decodedLink]
    rfl
  have hsize : (item'.moved move).cloudSize = item'.cloudSize := by
    unfold LogItem.cloudSize
    rw [item'.linkIds_moved, item'.length_linkLocations_moved]
    rfl
  refine ⟨_, _, (item'.moved move).cloudRecord (itemMagic encrypted) crypt', hstored,
    parseItem_record hfits' hids' encrypted crypt', ?_, ?_, ?_, ?_, ?_⟩
  · rw [hout]
    exact serialize_toCleaner (hfits'.moved move) (fun ref => id_ne_of_moved move hids')
      encrypted crypt'
  · rw [LogItem.length_cloudRecord, LogItem.length_cloudRecord, hsize]
  · rw [hheader, hsize3, LogItem.length_cloudRecord]
    exact item'.take_cloudRecord_moved move (itemMagic encrypted) crypt'
  · intro allowUnauth
    rw [LogItem.cloudRecord, LogItem.cloudRecord, item'.cloudHeader_moved]
    have hpayload : ∀ x : LogItem, x.payload = (x.data ++ x.linkIds) ++ x.linkLocations := by
      intro x
      simp [LogItem.payload]
    have hlen : item'.payload.length - item'.linkLocations.length =
        (item'.data ++ item'.linkIds).length := by
      rw [hpayload, length_append, Nat.add_sub_cancel]
    apply c.cryptBlockDecrypt_verdict (LogItem.hasSections hfits' _ _)
    · rw [LogItem.length_payload, LogItem.length_payload, item'.linkIds_moved,
        item'.length_linkLocations_moved]
      rfl
    · rw [hsize3, hlen, hpayload item', hpayload (item'.moved move), item'.linkIds_moved, take_left]
      exact take_left
  · intro hsame
    rw [LogItem.moved, movedLinks_same hsame]

theorem serialize_parseItem_linked :
    ∃ stored parsed out,
      toyCrypt.cryptBlockEncrypt 1 (linkedInode.cloudRecord cloudlogMagic ⟨0, 0⟩) = some stored ∧
      parseItem stored = some (some parsed) ∧
      { parsed with
        links := relocateLinks (fun _ _ => ⟨1, 5, 0, 120⟩) parsed.links }.serialize = some out ∧
      out.length = stored.length := by
  rcases serialize_parseItem toyCrypt linkedInode linkedInode_fits linkedInode_id_ne 1 ⟨0, 0⟩
    (fun _ _ => ⟨1, 5, 0, 120⟩) with ⟨stored, parsed, out, hstored, hparsed, hout, hlen, -⟩
  exact ⟨stored, parsed, out, hstored, hparsed, hout, hlen⟩

end BlueSky
