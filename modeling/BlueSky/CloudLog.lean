import BlueSky.Journal.Scan
import BlueSky.Lib.Chunks

/-!
# Log items in memory

`BlueSkyCloudLog` objects, the table that finds them by identifier, and how the
contents of an item are read back: `bluesky_log_map_object` locates the bytes in
a journal file or a cloud segment, `bluesky_deserialize_cloudlog` parses them, and
`bluesky_cloudlog_fetch` combines the two.  A failed assertion or a null pointer
dereference ends the program and has the result {lean}`none`.

Main results:

- Theorem {lit}`linkLoop_frame`: parsing an item leaves everything about the other
  items alone but their places in the cloud.
- Theorem {lit}`deserializeCloudlog_cases`: what a successful parse can have done.
- Theorem {lit}`cloudlogFetch_shorter`: a fetch that has to parse its item leaves
  less data than there are bytes at the recorded location.
-/

namespace BlueSky

open Function List Option ByteLib

/-! ## Items and their table -/

/-- `struct BlueSkyCloudLog`.  A link is the identifier of the item it points to. -/
structure CloudLog where
  type : Int
  locationFlags : LocationFlags
  pendingWrite : LocationFlags
  id : CloudId
  inum : BitVec 64
  dataSize : Nat
  location : CloudPointer
  logSeq : Nat
  logOffset : Nat
  logSize : Nat
  links : List (Option CloudId)
  data : Option Bytes
deriving DecidableEq, Repr

/-- The hash table `fs->locations`. -/
abbrev Locations := CloudId → Option CloudLog

/-- `bluesky_cloudlog_new`. -/
def cloudlogNew (id : CloudId) : CloudLog where
  type := LogType.unknown.code
  locationFlags := {}
  pendingWrite := {}
  id := id
  inum := 0
  dataSize := 0
  location := ⟨0, 0, 0, 0⟩
  logSeq := 0
  logOffset := 0
  logSize := 0
  links := []
  data := none

/-- `bluesky_cloudlog_get`: the item with an identifier, created if need be.  The null
identifier has no item. -/
def cloudlogGet (t : Locations) (id : CloudId) : Option (Locations × CloudLog) :=
  if id = 0 then none
  else
    match t id with
    | some item => some (t, item)
    | none => some (update t id (some (cloudlogNew id)), cloudlogNew id)

/-! ## Mapping the bytes of an item -/

/-- The size `bluesky_cachefile_lookup` gives to a file when it first sees it. -/
def cacheFileSize : Nat := 5 * 2 ^ 20

/-- Files that items can be mapped from: journal files by number, and cloud segments
by directory and number as the cache holds them. -/
structure CacheFiles where
  journal : Nat → Option Bytes
  cloud : BitVec 32 → BitVec 32 → Option Bytes

/-- The cache files of a process that finds the given journal directory: each file is
cut or extended to a fixed size when it is first looked up. -/
def cacheFiles (dir : JournalDir) (cloud : BitVec 32 → BitVec 32 → Option Bytes) :
    CacheFiles where
  journal := fun seq => (dir.file seq).map (ChunkLib.fill 0 cacheFileSize)
  cloud := cloud

/-- `bluesky_cachefile_map_raw`. -/
def cachefileMapRaw (buf : Bytes) (offset size : Nat) : Option Bytes :=
  if buf.length < offset + size then none else some (slice buf offset size)

/-- `sizeof(struct cloudlog_header)`. -/
def cloudlogHeaderSize : Nat := 89

/-- The part of a cache file that holds an item: all of it, or its data only. -/
def itemRange (headerSize offset size dataSize : Nat) (mapData : Bool) : Nat × Nat :=
  if mapData then (offset + headerSize, dataSize) else (offset, size)

/-- The journal file of an item, if the item is in the journal and the file exists. -/
def journalFile (files : CacheFiles) (item : CloudLog) : Option Bytes :=
  if item.locationFlags.journal || item.pendingWrite.journal then
    files.journal item.logSeq
  else none

/-- `bluesky_log_map_object`.  Falling back to the cloud clears the journal flag. -/
def logMapObject (files : CacheFiles) (item : CloudLog) (mapData : Bool) :
    Option (CloudLog × Bytes) :=
  match journalFile files item with
  | some buf =>
    let range := itemRange logHeaderSize item.logOffset item.logSize item.dataSize mapData
    (cachefileMapRaw buf range.1 range.2).map fun bytes => (item, bytes)
  | none =>
    if item.locationFlags.cloud then do
      let item :=
        { item with locationFlags := { item.locationFlags with journal := false } }
      let buf ← files.cloud item.location.directory item.location.sequence
      let range := itemRange cloudlogHeaderSize item.location.offset.toNat
        item.location.size.toNat item.dataSize mapData
      (cachefileMapRaw buf range.1 range.2).map fun bytes => (item, bytes)
    else none

/-! ## Parsing an item -/

/-- The fields that the two header formats have in common. -/
structure ItemHeader where
  headerSize : Nat
  type : Int
  inum : BitVec 64
  size1 : Nat
  size2 : Nat
  size3 : Nat
deriving DecidableEq, Repr

/-- `CLOUDLOG_MAGIC`, "AgI-" read as a little-endian word. -/
def cloudlogMagic : BitVec 32 := 0x2d496741#32

/-- The header of an item, whose format the magic number tells. -/
def itemHeader (raw : Bytes) : Option ItemHeader :=
  if readField 32 4 raw 0 = headerMagic then
    let h := LogHeader.ofBytes raw
    some
      { headerSize := logHeaderSize
        type := typeOfOctet h.type
        inum := h.inum
        size1 := h.size1.toNat
        size2 := h.size2.toNat
        size3 := h.size3.toNat }
  else if readField 32 4 raw 0 = cloudlogMagic then
    some
      { headerSize := cloudlogHeaderSize
        type := typeOfOctet (raw.getD 52 0)
        inum := readField 64 8 raw 69
        size1 := (readField 32 4 raw 77).toNat
        size2 := (readField 32 4 raw 81).toNat
        size3 := (readField 32 4 raw 85).toNat }
  else none

/-- The identifiers in a link section, `len2 / sizeof(BlueSkyCloudID)` of them. -/
def parseIds (data2 : Bytes) : List CloudId :=
  (List.range (data2.length / 16)).map fun i => readField 128 16 data2 (16 * i)

/-- The pointer a buffer starts with. -/
def CloudPointer.ofBytes (buf : Bytes) : CloudPointer where
  directory := readField 32 4 buf 0
  sequence := readField 32 4 buf 4
  offset := readField 32 4 buf 8
  size := readField 32 4 buf 12

/-- The loop over the links of a parsed item: each linked item is entered in the table
with the next location of the third section. -/
def linkLoop (t : Locations) : List CloudId → Bytes → Option (Locations × List (Option CloudId))
  | [], _ => some (t, [])
  | id :: ids, data3 =>
    match cloudlogGet t id with
    | none => do
        let (t, links) ← linkLoop t ids data3
        some (t, none :: links)
    | some (t, ref) =>
      if data3.length < 16 then none
      else do
        let ref :=
          { ref with
            location := CloudPointer.ofBytes data3
            locationFlags := { ref.locationFlags with cloud := true } }
        let (t, links) ← linkLoop (update t id (some ref)) ids (data3.drop 16)
        some (t, some id :: links)

/-- `bluesky_deserialize_cloudlog` of an item of the table. -/
def deserializeCloudlog (t : Locations) (item : CloudLog) (raw : Bytes) :
    Option (Locations × CloudLog) :=
  if raw.length ≤ 4 then none
  else
    match itemHeader raw with
    | none => some (t, item)
    | some h =>
      if raw.length < h.headerSize then none
      else if raw.length < h.headerSize + h.size1 + h.size2 + h.size3 then none
      else do
        let item :=
          { item with type := h.type, inum := h.inum, data := none, dataSize := h.size1 }
        let (t, links) ← linkLoop (update t item.id (some item))
          (parseIds (slice raw (h.headerSize + h.size1) h.size2))
          (slice raw (h.headerSize + h.size1 + h.size2) h.size3)
        -- the loop may have met the item itself
        let item ← t item.id
        some (t, { item with links := links })

/-- The first half of `bluesky_cloudlog_fetch`: parse an item that was never read. -/
def fetchMetadata (files : CacheFiles) (t : Locations) (item : CloudLog) :
    Option (Locations × CloudLog) :=
  if item.type = LogType.unknown.code then do
    let (item, raw) ← logMapObject files item false
    deserializeCloudlog t item raw
  else some (t, item)

/-- `bluesky_cloudlog_fetch` of an item of the table. -/
def cloudlogFetch (files : CacheFiles) (t : Locations) (id : CloudId) : Option Locations := do
  let item ← t id
  if item.data ≠ none then some t
  else do
    let (t, item) ← fetchMetadata files t item
    let (item, data) ← logMapObject files item true
    some (update t id (some { item with data := some data }))

/-! ## What parsing leaves alone -/

/-- An item that differs from another at most in its place in the cloud. -/
def CloudLog.SameButCloud (a b : CloudLog) : Prop :=
  b = { a with
    location := b.location
    locationFlags := { a.locationFlags with cloud := b.locationFlags.cloud } }

theorem CloudLog.SameButCloud.refl (a : CloudLog) : a.SameButCloud a :=
  rfl

variable {t t' : Locations}

theorem cloudlogGet_frame {id : CloudId} {ref : CloudLog} (h : cloudlogGet t id = some (t', ref)) :
    t' id = some ref ∧ ∀ (k : CloudId) (item : CloudLog), t k = some item → t' k = some item := by
  unfold cloudlogGet at h
  split_ifs at h with hid
  cases hget : t id with
  | some item =>
    simp only [hget, some.injEq, Prod.mk.injEq] at h
    rcases h with ⟨rfl, rfl⟩
    exact ⟨hget, fun _ _ hk => hk⟩
  | none =>
    simp only [hget, some.injEq, Prod.mk.injEq] at h
    rcases h with ⟨rfl, rfl⟩
    refine ⟨by simp, ?_⟩
    intro k item hk
    have hne : k ≠ id := by
      rintro rfl
      simp [hget] at hk
    simpa [update_of_ne hne] using hk

variable {item : CloudLog}

/-- The loop over the links keeps everything about the items of the table but their
places in the cloud. -/
theorem linkLoop_frame {ids : List CloudId} {data3 : Bytes} {links : List (Option CloudId)}
    (h : linkLoop t ids data3 = some (t', links)) {k : CloudId} (hk : t k = some item) :
    ∃ item', t' k = some item' ∧ item.SameButCloud item' := by
  induction ids generalizing t data3 links item with
  | nil =>
    simp only [linkLoop, some.injEq, Prod.mk.injEq] at h
    rcases h with ⟨rfl, -⟩
    exact ⟨item, hk, CloudLog.SameButCloud.refl item⟩
  | cons id ids ih =>
    unfold linkLoop at h
    cases hget : cloudlogGet t id with
    | none =>
      simp only [hget, bind_eq_bind, bind_eq_some_iff] at h
      rcases h with ⟨⟨t₁, links₁⟩, hrest, heq⟩
      simp only [some.injEq, Prod.mk.injEq] at heq
      rcases heq with ⟨rfl, -⟩
      exact ih hrest hk
    | some found =>
      rcases found with ⟨t₁, ref⟩
      rcases cloudlogGet_frame hget with ⟨href, hframe⟩
      simp only [hget] at h
      split_ifs at h with hshort
      simp only [bind_eq_bind, bind_eq_some_iff] at h
      rcases h with ⟨⟨t₂, links₂⟩, hrest, heq⟩
      simp only [some.injEq, Prod.mk.injEq] at heq
      rcases heq with ⟨rfl, -⟩
      by_cases hki : k = id
      · -- the item itself is linked: only its place in the cloud is set
        subst hki
        have hitem : ref = item := by
          have := hframe k item hk
          rw [href] at this
          exact some.inj this
        subst hitem
        rcases ih hrest (update_self k _ t₁) with ⟨item', hitem', hsame⟩
        refine ⟨item', hitem', ?_⟩
        unfold CloudLog.SameButCloud at hsame ⊢
        rw [hsame]
      · exact ih hrest (by rw [update_of_ne hki]; exact hframe k item hk)

/-- Everything a successful parse of an item can have done. -/
theorem deserializeCloudlog_cases {item' : CloudLog} {raw : Bytes}
    (h : deserializeCloudlog t item raw = some (t', item')) :
    4 < raw.length ∧
      ((itemHeader raw = none ∧ t' = t ∧ item' = item) ∨
        ∃ hd links, itemHeader raw = some hd ∧
          hd.headerSize + hd.size1 + hd.size2 + hd.size3 ≤ raw.length ∧
          CloudLog.SameButCloud
            { item with
              type := hd.type, inum := hd.inum, data := none, dataSize := hd.size1,
              links := links } item') := by
  unfold deserializeCloudlog at h
  split_ifs at h with hshort
  refine ⟨Nat.lt_of_not_le hshort, ?_⟩
  cases hhd : itemHeader raw with
  | none =>
    simp only [hhd, some.injEq, Prod.mk.injEq] at h
    exact Or.inl ⟨rfl, h.1.symm, h.2.symm⟩
  | some hd =>
    simp only [hhd] at h
    split_ifs at h with hlen hfit
    simp only [bind_eq_bind, bind_eq_some_iff] at h
    rcases h with ⟨⟨t₁, links⟩, hloop, item₁, hitem₁, heq⟩
    simp only [some.injEq, Prod.mk.injEq] at heq
    rcases heq with ⟨rfl, rfl⟩
    rcases linkLoop_frame hloop (update_self _ _ _) with ⟨item₂, hitem₂, hsame⟩
    have heq : item₁ = item₂ := some.inj (hitem₁.symm.trans hitem₂)
    subst heq
    refine Or.inr ⟨hd, links, rfl, Nat.le_of_not_lt hfit, ?_⟩
    unfold CloudLog.SameButCloud at hsame ⊢
    rw [hsame]

/-! ## Parsing what was written -/

theorem readField_id (id : CloudId) (rest : Bytes) :
    readField 128 16 (id.toBytes ++ rest) 0 = id := by
  have h := readField_append 16 [] id rest
  rw [nil_append] at h
  exact h

/-- A link section is parsed one identifier at a time. -/
theorem parseIds_cons (id : CloudId) (rest : Bytes) :
    parseIds (id.toBytes ++ rest) = id :: parseIds rest := by
  have hlen : (id.toBytes ++ rest).length / 16 = rest.length / 16 + 1 := by
    rw [length_append, CloudId.length_toBytes]
    omega
  rw [parseIds, hlen, range_succ_eq_map, map_cons, List.map_map, parseIds]
  refine congrArg₂ List.cons ?_ ?_
  · rw [Nat.mul_zero]
    exact readField_id id rest
  · apply map_congr_left
    intro i _
    apply readField_congr
    have hskip := slice_append_right id.toBytes rest (16 * i) 16
    rw [CloudId.length_toBytes] at hskip
    rw [← hskip]
    congr 1
    simp only [Nat.succ_eq_add_one]
    omega

theorem parseIds_linkIds (item : LogItem) :
    parseIds item.linkIds = item.links.map linkId := by
  unfold LogItem.linkIds
  induction item.links with
  | nil => rfl
  | cons link links ih =>
    rw [map_cons, flatten_cons, map_cons, ← ih]
    exact parseIds_cons (linkId link) _

theorem CloudPointer.not_length_append_lt (p : CloudPointer) (rest : Bytes) :
    ¬ (p.toBytes ++ rest).length < 16 := by
  rw [length_append, CloudPointer.length_toBytes]
  omega

theorem CloudPointer.drop_append (p : CloudPointer) (rest : Bytes) :
    (p.toBytes ++ rest).drop 16 = rest := by
  rw [← CloudPointer.length_toBytes p, drop_left]

theorem CloudPointer.ofBytes_append (p : CloudPointer) (rest : Bytes) :
    CloudPointer.ofBytes (p.toBytes ++ rest) = p := by
  have hsequence := readField_append 4 (leBytes 4 p.directory.toNat) p.sequence
    (leBytes 4 p.offset.toNat ++ (leBytes 4 p.size.toNat ++ rest))
  have hoffset := readField_append 4 (leBytes 4 p.directory.toNat ++ leBytes 4 p.sequence.toNat)
    p.offset (leBytes 4 p.size.toNat ++ rest)
  have hsize := readField_append 4 (leBytes 4 p.directory.toNat ++ leBytes 4 p.sequence.toNat ++
    leBytes 4 p.offset.toNat) p.size rest
  have hdirectory := readField_append 4 [] p.directory
    (leBytes 4 p.sequence.toNat ++ (leBytes 4 p.offset.toNat ++ (leBytes 4 p.size.toNat ++ rest)))
  simp only [nil_append, length_nil, length_append, length_leBytes,
    append_assoc] at hdirectory hsequence hoffset hsize
  simp only [CloudPointer.ofBytes, CloudPointer.toBytes, append_assoc, hdirectory,
    hsequence, hoffset, hsize]

/-- The loop over the links finds a location for each link that is not null.  It enters
this location for the linked item, and leaves the locations of other items alone. -/
theorem linkLoop_written (links : List (Option LinkTarget))
    (hnull : ∀ ref, some ref ∈ links → ref.id ≠ 0) (t : Locations) :
    ∃ t', linkLoop t (links.map linkId) (links.map linkLocation).flatten =
        some (t', links.map (Option.map LinkTarget.id)) ∧
      ∀ k loc, (∀ ref, some ref ∈ links → ref.id = k → ref.location = loc) →
        ((∃ item, t k = some item ∧ item.location = loc) ∨ ∃ ref, some ref ∈ links ∧ ref.id = k) →
        ∃ item, t' k = some item ∧ item.location = loc := by
  induction links generalizing t with
  | nil =>
    refine ⟨t, rfl, ?_⟩
    rintro k loc - (hk | ⟨ref, href, -⟩)
    · exact hk
    · cases href
  | cons link links ih =>
    replace ih := ih fun ref href => hnull ref (mem_cons_of_mem _ href)
    rw [map_cons, map_cons, flatten_cons, map_cons]
    cases link with
    | none =>
      rcases ih t with ⟨t', hrest, hplaces⟩
      refine ⟨t', ?_, ?_⟩
      · have hget : cloudlogGet t (linkId none) = none := if_pos rfl
        simp only [linkLoop, hget, linkLocation, nil_append, hrest]
        rfl
      · intro k loc hagree hk
        refine hplaces k loc (fun ref href => hagree ref (mem_cons_of_mem _ href)) ?_
        simpa using hk
    | some ref =>
      have hid : ref.id ≠ 0 := hnull ref mem_cons_self
      obtain ⟨t₁, item, hget⟩ : ∃ t₁ item, cloudlogGet t ref.id = some (t₁, item) := by
        unfold cloudlogGet
        rw [if_neg hid]
        cases t ref.id with
        | some item => exact ⟨_, _, rfl⟩
        | none => exact ⟨_, _, rfl⟩
      rcases ih (update t₁ ref.id (some
        { item with
          location := ref.location
          locationFlags := { item.locationFlags with cloud := true } }))
        with ⟨t', hrest, hplaces⟩
      refine ⟨t', ?_, ?_⟩
      · rw [linkLoop]
        simp only [linkId, hget, linkLocation, if_neg (ref.location.not_length_append_lt _),
          ref.location.drop_append, CloudPointer.ofBytes_append, hrest]
        rfl
      · intro k loc hagree hk
        refine hplaces k loc (fun ref href => hagree ref (mem_cons_of_mem _ href)) ?_
        by_cases hkid : k = ref.id
        · subst hkid
          refine Or.inl ⟨_, update_self _ _ _, ?_⟩
          exact hagree ref mem_cons_self rfl
        · rcases hk with ⟨old, hold, hloc⟩ | ⟨other, hother, hkother⟩
          · refine Or.inl ⟨old, ?_, hloc⟩
            rw [update_of_ne hkid]
            exact (cloudlogGet_frame hget).2 k old hold
          · rcases mem_cons.mp hother with hsame | hother
            · cases hsame
              exact absurd hkother.symm hkid
            · exact Or.inr ⟨other, hother, hkother⟩

/-! ## Mapping an item in the journal -/

variable {files : CacheFiles} {buf : Bytes}

theorem logMapObject_journal (hfile : journalFile files item = some buf) (mapData : Bool) :
    logMapObject files item mapData =
      let range := itemRange logHeaderSize item.logOffset item.logSize item.dataSize mapData
      (cachefileMapRaw buf range.1 range.2).map fun bytes => (item, bytes) := by
  simp only [logMapObject, hfile]

/-- Both header formats leave less room for the data than the bytes parsed. -/
theorem itemHeader_headerSize_pos {raw : Bytes} {hd : ItemHeader}
    (h : itemHeader raw = some hd) : 0 < hd.headerSize := by
  unfold itemHeader at h
  split_ifs at h
  · rw [← some.inj h]
    exact Nat.zero_lt_succ _
  · rw [← some.inj h]
    exact Nat.zero_lt_succ _

theorem journalFile_sameButCloud {a b : CloudLog} (h : a.SameButCloud b) :
    journalFile files b = journalFile files a := by
  rw [h]
  rfl

theorem cachefileMapRaw_eq_some {bytes : Bytes} {offset size : Nat}
    (h : cachefileMapRaw buf offset size = some bytes) :
    bytes = slice buf offset size ∧ bytes.length = size := by
  unfold cachefileMapRaw at h
  split_ifs at h with hlen
  have heq := some.inj h
  rw [← heq, length_slice_of_le (by omega)]
  exact ⟨rfl, rfl⟩

/-- Mapping an item that is in the journal. -/
theorem logMapObject_eq_some {item' : CloudLog} {bytes : Bytes} {mapData : Bool}
    (hfile : journalFile files item = some buf)
    (h : logMapObject files item mapData = some (item', bytes)) :
    item' = item ∧ bytes.length = if mapData then item.dataSize else item.logSize := by
  rw [logMapObject_journal hfile] at h
  simp only [map_eq_some_iff, Prod.mk.injEq] at h
  rcases h with ⟨bytes', hmap, rfl, rfl⟩
  have hlen := (cachefileMapRaw_eq_some hmap).2
  cases mapData with
  | true => exact ⟨rfl, hlen⟩
  | false => exact ⟨rfl, hlen⟩

/-- A fetch that parses the bytes at the recorded location leaves less data than there
are bytes. -/
theorem cloudlogFetch_shorter {id : CloudId} (hitem : t id = some item)
    (htype : item.type = LogType.unknown.code) (hsize : item.dataSize = 0)
    (hdata : item.data = none) (hfile : journalFile files item = some buf)
    (h : cloudlogFetch files t id = some t') :
    ∃ item' d, t' id = some item' ∧ item'.data = some d ∧ d.length < item.logSize := by
  unfold cloudlogFetch at h
  simp only [hitem, bind_eq_bind, bind_some, hdata, ne_eq, not_true_eq_false,
    if_false, fetchMetadata, if_pos htype, bind_eq_some_iff] at h
  rcases h with ⟨⟨t₁, item₁⟩, ⟨⟨item₀, raw⟩, hraw, hparse⟩, ⟨item₂, d⟩, hmap, heq⟩
  rcases logMapObject_eq_some hfile hraw with ⟨hsame₀, hlen⟩
  subst hsame₀
  replace hparse : deserializeCloudlog t item₀ raw = some (t₁, item₁) := hparse
  refine ⟨{ item₂ with data := some d }, d, ?_, rfl, ?_⟩
  · rw [← some.inj heq, update_self]
  · rcases deserializeCloudlog_cases hparse with ⟨hlong, hcases⟩
    have hraw' : raw.length = item₀.logSize := by simpa using hlen
    rcases hcases with ⟨-, -, hgarbage⟩ | ⟨hd, links, hhd, hfit, hparsed⟩
    · -- nothing was parsed, and nothing is mapped
      subst hgarbage
      have hmapped := (logMapObject_eq_some hfile hmap).2
      simp only [if_true] at hmapped
      omega
    · have hfile₁ : journalFile files item₁ = some buf := by
        rw [journalFile_sameButCloud hparsed]
        exact hfile
      have hmapped := (logMapObject_eq_some hfile₁ hmap).2
      have hsize₁ : item₁.dataSize = hd.size1 := by rw [hparsed]
      have hpos := itemHeader_headerSize_pos hhd
      simp only [if_true] at hmapped
      omega

end BlueSky
