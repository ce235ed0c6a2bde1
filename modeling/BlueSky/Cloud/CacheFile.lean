import BlueSky.Cloud.SegmentCrypt
import BlueSky.Lib.Transition

/-!
# Segments in the cache

A segment of the cloud log is cached in a local file, which is filled by fetches of the whole
segment or of a range of it.  `cloudlog_partial_fetch_complete` decrypts what the store has
returned and writes the items it finds to the file; `bluesky_log_map_object` maps an item if
the file has an item at just its place.

Main results:

- Theorem {lit}`mergeItems_eq`: the items of a fetch are written one after the other.
- Theorem {lit}`mapRange_authentic`: as long as the store returns only authentic items that do
  not overlap, only authentic items are mapped.
-/

namespace BlueSky

open List Option ByteLib TransitionLib

/-! ## The cache file -/

/-- The part of `BlueSkyCacheFile` that fetches work on, with the contents of the file.  The
file has been opened for writing, and writes to it succeed. -/
structure CacheFile where
  logDir : Nat
  items : Rangeset
  bytes : Bytes
deriving DecidableEq, Repr

/-- `BLUESKY_CLOUD_DIR_CLEANER`. -/
def cloudDirCleaner : Nat := 1

/-- Whether unauthenticated maps and checkpoints are accepted in a file. -/
def CacheFile.allowUnauth (file : CacheFile) : Bool :=
  file.logDir = cloudDirCleaner

/-- A file that is looked up for the first time. -/
def CacheFile.new (logDir : Nat) : CacheFile where
  logDir := logDir
  items := []
  bytes := zeros cacheFileSize

/-- `robust_pwrite`: a write behind the end extends the file. -/
def robustPwrite (file : Bytes) (offset : Nat) (buf : Bytes) : Bytes :=
  ChunkLib.splice (file ++ zeros (offset + buf.length - file.length)) offset buf

/-- The body of the loop over the items of a fetch. -/
def CacheFile.merge (file : CacheFile) (start : Nat) (data : Bytes) (item : RangesetItem) :
    CacheFile :=
  let (items, inserted) := rangesetInsert file.items (start + item.start) item.length
  if inserted then
    { file with
      items := items
      bytes := robustPwrite file.bytes (start + item.start) (slice data item.start item.length) }
  else file

/-- The loop over the items of a fetch. -/
def mergeItems (start : Nat) (data : Bytes) (items : Rangeset) :
    Nat → Nat → CacheFile → CacheFile
  | 0, _, file => file
  | fuel + 1, itemOffset, file =>
    match rangesetLookupNext items itemOffset with
    | none => file
    | some item => mergeItems start data items fuel (item.start + 1) (file.merge start data item)

/-- A fetch that has succeeded: where it starts in the segment, and what the store has
returned. -/
structure Fetch where
  start : Nat
  data : Bytes

/-- `cloudlog_partial_fetch_complete`. -/
def Crypt.partialFetchComplete (c : Crypt) (file : CacheFile) (fetch : Fetch) :
    Option CacheFile := do
  let (data, pass) ← c.cloudlogDecrypt file.allowUnauth fetch.data
  some (mergeItems fetch.start data pass.items (pass.items.length + 1) 0 file)

/-- What `bluesky_log_map_object` makes of an item in the cloud. -/
inductive Mapped where
  /-- The item has not been fetched; a fetch is started, and the lookup repeated. -/
  | fetch
  /-- Another item covers the place: nothing is mapped. -/
  | invalid
  /-- The bytes mapped, unless they are not all in the file. -/
  | bytes (raw : Option Bytes)
deriving DecidableEq, Repr

/-- The part of `bluesky_log_map_object` that maps an item of a cloud segment. -/
def CacheFile.mapRange (file : CacheFile) (offset size dataSize : Nat) (mapData : Bool) :
    Mapped :=
  match rangesetLookup file.items offset with
  | none => .fetch
  | some range =>
    if range.start ≠ offset ∨ range.length ≠ size then .invalid
    else
      let part := itemRange cloudlogHeaderSize offset size dataSize mapData
      .bytes (cachefileMapRaw file.bytes part.1 part.2)

/-! ## Writing to the file -/

section Write

variable {file buf : Bytes} {offset : Nat}

theorem slice_robustPwrite_self : slice (robustPwrite file offset buf) offset buf.length = buf := by
  have hlen : ((file ++ zeros (offset + buf.length - file.length)).take offset).length =
      offset := by
    rw [length_take, length_append, length_zeros]
    omega
  have hmiddle := slice_middle ((file ++ zeros (offset + buf.length - file.length)).take offset) buf
    ((file ++ zeros (offset + buf.length - file.length)).drop (offset + buf.length))
  rw [hlen] at hmiddle
  exact hmiddle

theorem length_robustPwrite :
    (robustPwrite file offset buf).length = max file.length (offset + buf.length) := by
  rw [robustPwrite, ChunkLib.length_splice, length_append, length_zeros]
  · omega
  · rw [length_append, length_zeros]
    omega

/-- A write leaves other ranges of the file alone. -/
theorem slice_robustPwrite_of_apart {a n : Nat} (hin : a + n ≤ file.length)
    (h : Apart offset buf.length a n) :
    slice (robustPwrite file offset buf) a n = slice file a n := by
  have hext : ∀ k, slice (file ++ zeros k) a n = slice file a n := fun k =>
    slice_append_left _ hin
  rw [← hext (offset + buf.length - file.length), robustPwrite]
  generalize hlong : file ++ zeros (offset + buf.length - file.length) = long
  have hlength : long.length = max file.length (offset + buf.length) := by
    rw [← hlong, length_append, length_zeros]
    omega
  have htake : (long.take offset).length = offset := by
    rw [length_take]
    omega
  unfold ChunkLib.splice
  rcases h with hbefore | hafter
  · -- the range lies behind what is written
    have hskip := slice_append_right (long.take offset ++ buf) (long.drop (offset + buf.length))
      (a - (offset + buf.length)) n
    have hpos : (long.take offset ++ buf).length + (a - (offset + buf.length)) = a := by
      rw [length_append, htake]
      omega
    rw [hpos, append_assoc] at hskip
    rw [hskip]
    unfold slice
    rw [drop_drop, Nat.add_sub_cancel' hbefore]
  · rw [slice_append_left _ (by omega)]
    conv_rhs => rw [← take_append_drop offset long]
    rw [slice_append_left _ (by omega)]

end Write

/-! ## The items of a fetch -/

variable {data : Bytes}

/-- The items of a fetch are written one after the other. -/
theorem mergeItems_eq {start : Nat} {items visited : Rangeset} {fuel itemOffset : Nat}
    {file : CacheFile} (h : rangesetIterate items fuel itemOffset = some visited) :
    mergeItems start data items fuel itemOffset file =
      visited.foldl (fun file item => file.merge start data item) file := by
  induction fuel generalizing itemOffset visited file with
  | zero => cases h
  | succ fuel ih =>
    rw [rangesetIterate] at h
    rw [mergeItems]
    cases hnext : rangesetLookupNext items itemOffset with
    | none =>
      rw [hnext] at h
      cases h
      rfl
    | some item =>
      rw [hnext] at h
      rcases map_eq_some_iff.mp h with ⟨rest, hrest, rfl⟩
      exact ih hrest

variable {c : Crypt}

/-- A fetch decrypts what the store has returned and writes its items. -/
theorem Crypt.partialFetchComplete_eq {file file' : CacheFile} {fetch : Fetch}
    (h : c.partialFetchComplete file fetch = some file') :
    ∃ data pass, c.cloudlogDecrypt file.allowUnauth fetch.data = some (data, pass) ∧
      pass.items = (walkItems fetch.data).map walkRange ∧
      file' = pass.items.foldl (fun file item => file.merge fetch.start data item) file := by
  unfold partialFetchComplete at h
  simp only [bind_eq_bind, bind_eq_some_iff] at h
  rcases h with ⟨⟨data, pass⟩, hpass, heq⟩
  have hitems : pass.items = (walkItems fetch.data).map walkRange := by
    simpa [walkItems] using (decryptLoop_spec (by simp) hpass).1
  refine ⟨data, pass, hpass, hitems, ?_⟩
  have hpairs := (@segmentWalk_bounds fetch.data.length 0 fetch.data).2
  have hbounds := (@segmentWalk_bounds fetch.data.length 0 fetch.data).1
  have hsorted : pass.items.Pairwise fun a b => a.start < b.start := by
    rw [hitems, pairwise_map]
    refine hpairs.imp_of_mem ?_
    intro v w hv _ hvw
    have hpos := (hbounds v hv).2.2
    unfold cloudlogHeaderSize at hpos
    simp only [walkRange]
    omega
  rw [← some.inj heq]
  exact mergeItems_eq (rangesetIterate_all (Nat.lt_succ_self _) hsorted)

/-! ## Authentic items -/

/-- The items that are to be served: their code verifies, or they are maps or checkpoints of
the cleaner. -/
def Crypt.Accepted (c : Crypt) (allowUnauth : Bool) (block : Bytes) : Prop :=
  c.Verifies block ∨ (allowUnauth = true ∧ maybeUnauth (CloudlogHeader.ofBytes block).type = true)

instance (c : Crypt) (allowUnauth : Bool) (block : Bytes) :
    Decidable (c.Accepted allowUnauth block) :=
  inferInstanceAs (Decidable (_ ∨ _))

/-- The bytes of a decrypted item that is to be served. -/
def Crypt.Authentic (c : Crypt) (allowUnauth : Bool) (bytes : Bytes) : Prop :=
  ∃ block, c.Accepted allowUnauth block ∧ bytes = c.decrypted block

/-- The verdict on a block says whether it is to be served. -/
theorem Crypt.verdict_iff (hon : c.disableCrypto = false) {block left : Bytes}
    {allowUnauth ok : Bool} (h : c.cryptBlockDecrypt block allowUnauth = some (left, ok)) :
    ok = true ↔ c.Accepted allowUnauth block :=
  (cryptBlockDecrypt_cases hon h).2.1

/-- Every range of a cache file holds an authentic item. -/
structure Crypt.CacheOk (c : Crypt) (file : CacheFile) : Prop where
  inside : ∀ r ∈ file.items, r.start + r.length ≤ file.bytes.length
  authentic : ∀ r ∈ file.items, c.Authentic file.allowUnauth (slice file.bytes r.start r.length)

/-- An item may be written to a file: it overlaps none of the ranges there, or is the same as
what is there. -/
def CacheFile.Free (file : CacheFile) (start : Nat) (bytes : Bytes) : Prop :=
  ∀ r ∈ file.items, Apart start bytes.length r.start r.length ∨
    (r = ⟨start, bytes.length⟩ ∧ slice file.bytes r.start r.length = bytes)

/-- What the store returns is authentic and overlaps nothing that was fetched before. -/
def Crypt.FetchOk (c : Crypt) (file : CacheFile) (fetch : Fetch) : Prop :=
  ∀ w ∈ walkItems fetch.data, c.Accepted file.allowUnauth w.2 ∧
    file.Free (fetch.start + w.1) (c.decrypted w.2)

section Merge

variable {c : Crypt} {file : CacheFile} {start : Nat} {data : Bytes} {item : RangesetItem}

theorem CacheFile.merge_eq (file : CacheFile) (start : Nat) (data : Bytes)
    (item : RangesetItem) :
    file.merge start data item =
      { file with
        items := (rangesetInsert file.items (start + item.start) item.length).1
        bytes := robustPwrite file.bytes (start + item.start)
          (slice data item.start item.length) } :=
  rfl

/-- Writing an item that is free keeps what the ranges of the file hold. -/
theorem CacheFile.slice_merge
    (hfree : file.Free (start + item.start) (slice data item.start item.length))
    {r : RangesetItem} (hr : r ∈ file.items) (hin : r.start + r.length ≤ file.bytes.length) :
    slice (file.merge start data item).bytes r.start r.length =
      slice file.bytes r.start r.length := by
  rw [merge_eq]
  rcases hfree r hr with hapart | ⟨hsame, hbytes⟩
  · exact slice_robustPwrite_of_apart hin hapart
  · rw [hbytes]
    subst hsame
    exact slice_robustPwrite_self

theorem Crypt.CacheOk.merge (h : c.CacheOk file)
    (hlen : (slice data item.start item.length).length = item.length)
    (hauth : c.Authentic file.allowUnauth (slice data item.start item.length))
    (hfree : file.Free (start + item.start) (slice data item.start item.length)) :
    c.CacheOk (file.merge start data item) where
  inside := by
    intro r hr
    have hlength := @length_robustPwrite file.bytes (slice data item.start item.length)
      (start + item.start)
    rw [CacheFile.merge_eq] at hr ⊢
    simp only [hlength]
    rcases mem_rangesetInsert.mp hr with rfl | hr
    · simp only
      omega
    · have := h.inside r hr
      omega
  authentic := by
    intro r hr
    rw [CacheFile.merge_eq] at hr
    rcases mem_rangesetInsert.mp hr with rfl | hr
    · have hself := @slice_robustPwrite_self file.bytes (slice data item.start item.length)
        (start + item.start)
      rw [hlen] at hself
      rw [CacheFile.merge_eq]
      simp only [hself]
      exact hauth
    · rw [CacheFile.slice_merge hfree hr (h.inside r hr)]
      exact h.authentic r hr

/-- An item stays free when an item apart from it is written. -/
theorem CacheFile.Free.merge {start' : Nat} {bytes : Bytes} (h : file.Free start' bytes)
    (hin : ∀ r ∈ file.items, r.start + r.length ≤ file.bytes.length)
    (hfree : file.Free (start + item.start) (slice data item.start item.length))
    (hapart : Apart start' bytes.length (start + item.start) item.length) :
    (file.merge start data item).Free start' bytes := by
  intro r hr
  rw [merge_eq] at hr
  rcases mem_rangesetInsert.mp hr with rfl | hr
  · exact Or.inl hapart
  · rcases h r hr with hr' | ⟨hsame, hbytes⟩
    · exact Or.inl hr'
    · refine Or.inr ⟨hsame, ?_⟩
      rw [slice_merge hfree hr (hin r hr), hbytes]

/-- Writing items that are authentic, free and apart from one another keeps the file as it
should be. -/
theorem Crypt.CacheOk.mergeAll {ws : List (Nat × Bytes)} (h : c.CacheOk file)
    (hws : ∀ w ∈ ws, c.Accepted file.allowUnauth w.2 ∧
      slice data w.1 w.2.length = c.decrypted w.2 ∧ (c.decrypted w.2).length = w.2.length ∧
      file.Free (start + w.1) (c.decrypted w.2))
    (hpairs : ws.Pairwise fun v w => v.1 + v.2.length ≤ w.1) :
    c.CacheOk ((ws.map walkRange).foldl (fun file item => file.merge start data item) file) ∧
      ((ws.map walkRange).foldl (fun file item => file.merge start data item) file).logDir =
        file.logDir := by
  induction ws generalizing file with
  | nil => exact ⟨h, rfl⟩
  | cons w ws ih =>
    rcases hws w mem_cons_self with ⟨haccepted, hslice, hlen, hfree⟩
    rcases pairwise_cons.mp hpairs with ⟨hfirst, hrest⟩
    have hslice' : slice data (walkRange w).start (walkRange w).length = c.decrypted w.2 :=
      hslice
    have hok : c.CacheOk (file.merge start data (walkRange w)) := by
      apply h.merge
      · rw [hslice', hlen]
        rfl
      · rw [hslice']
        exact ⟨w.2, haccepted, rfl⟩
      · rw [hslice']
        exact hfree
    rw [map_cons, foldl_cons]
    refine ih hok ?_ hrest
    intro v hv
    rcases hws v (mem_cons_of_mem _ hv) with ⟨haccepted', hslice'', hlen', hfree'⟩
    refine ⟨haccepted', hslice'', hlen', hfree'.merge h.inside ?_ ?_⟩
    · rw [hslice']
      exact hfree
    · refine Or.inr ?_
      have := hfirst v hv
      simp only [walkRange]
      omega

end Merge

/-- What a decryption pass leaves at the place of an item that is to be served. -/
theorem Crypt.slice_of_accepted (hon : c.disableCrypto = false) {allowUnauth : Bool}
    {segment : Bytes} {pass : DecryptPass}
    (h : c.cloudlogDecrypt allowUnauth segment = some (data, pass)) {w : Nat × Bytes}
    (hw : w ∈ walkItems segment) (haccepted : c.Accepted allowUnauth w.2) :
    slice data w.1 w.2.length = c.decrypted w.2 ∧ (c.decrypted w.2).length = w.2.length := by
  rcases (decryptLoop_spec (by simp) h).2 w hw with ⟨left, ok, hleft, hslice⟩
  have hok := (verdict_iff hon hleft).mpr haccepted
  subst hok
  rw [← (cryptBlockDecrypt_cases hon hleft).2.2 rfl]
  have hle := ((@segmentWalk_bounds segment.length 0 segment).1 w hw).2.2
  exact ⟨hslice, length_of_cryptBlockDecrypt hle hleft⟩

/-- Fetches of authentic items that overlap nothing keep the file as it should be. -/
theorem Crypt.cacheOk_fetch (hon : c.disableCrypto = false) {file file' : CacheFile} {fetch : Fetch}
    (h : c.CacheOk file) (hfetch : c.FetchOk file fetch)
    (hstep : c.partialFetchComplete file fetch = some file') :
    c.CacheOk file' ∧ file'.logDir = file.logDir := by
  rcases partialFetchComplete_eq hstep with ⟨data, pass, hpass, hitems, rfl⟩
  rw [hitems]
  refine h.mergeAll ?_ (segmentWalk_bounds).2
  intro w hw
  rcases hfetch w hw with ⟨haccepted, hfree⟩
  rcases slice_of_accepted hon hpass hw haccepted with ⟨hslice, hlen⟩
  exact ⟨haccepted, hslice, hlen, hfree⟩

/-- As long as the store returns only authentic items that do not overlap, every range that
a decryption pass finds, every range of the cache file and every item that is mapped is an
authentic item; the data of an item is mapped from inside it if its size fits. -/
theorem mapRange_authentic {c : Crypt} (hon : c.disableCrypto = false) {logDir : Nat}
    {file : CacheFile}
    (hfile : Reachable c.partialFetchComplete c.FetchOk (CacheFile.new logDir) file) :
    (∀ fetch data pass, c.FetchOk file fetch →
      c.cloudlogDecrypt file.allowUnauth fetch.data = some (data, pass) → ∀ r ∈ pass.items,
        c.Authentic (logDir = cloudDirCleaner) (slice data r.start r.length)) ∧
    (∀ r ∈ file.items, c.Authentic (logDir = cloudDirCleaner) (slice file.bytes r.start r.length)) ∧
    ∀ offset size dataSize mapData raw,
      (mapData = true → cloudlogHeaderSize + dataSize ≤ size) →
      file.mapRange offset size dataSize mapData = .bytes raw →
      ∃ bytes, c.Authentic (logDir = cloudDirCleaner) bytes ∧
        raw = some (if mapData then slice bytes cloudlogHeaderSize dataSize else bytes) := by
  have hinv : c.CacheOk file ∧ file.logDir = logDir := by
    refine hfile.invariant (I := fun f => c.CacheOk f ∧ f.logDir = logDir) ?_ ?_
    · exact ⟨⟨by simp [CacheFile.new], by simp [CacheFile.new]⟩, rfl⟩
    · rintro s fetch s' ⟨hok, hdir⟩ hfetch hstep
      rcases Crypt.cacheOk_fetch hon hok hfetch hstep with ⟨hok', hdir'⟩
      exact ⟨hok', hdir'.trans hdir⟩
  rcases hinv with ⟨hok, rfl⟩
  refine ⟨?_, hok.authentic, ?_⟩
  · intro fetch data pass hfetch hpass r hr
    have hitems := (Crypt.decryptLoop_spec (by simp) hpass).1
    rw [hitems, nil_append] at hr
    rcases List.mem_map.mp hr with ⟨w, hw, rfl⟩
    have haccepted := (hfetch w hw).1
    exact ⟨w.2, haccepted, (Crypt.slice_of_accepted hon hpass hw haccepted).1⟩
  · intro offset size dataSize mapData raw hsize hmap
    unfold CacheFile.mapRange at hmap
    cases hlookup : rangesetLookup file.items offset with
    | none => simp [hlookup] at hmap
    | some range =>
      simp only [hlookup] at hmap
      split_ifs at hmap with hplace
      rw [not_or, not_not, not_not] at hplace
      rcases hplace with ⟨rfl, rfl⟩
      have hmem := (rangesetLookup_mem hlookup).1
      have hin := hok.inside range hmem
      refine ⟨_, hok.authentic range hmem, ?_⟩
      rw [← Mapped.bytes.inj hmap]
      cases mapData with
      | false => simp [itemRange, cachefileMapRaw, Nat.not_lt.mpr hin]
      | true =>
        have hfit := hsize rfl
        have hlong : ¬ file.bytes.length < range.start + cloudlogHeaderSize + dataSize := by
          omega
        simp only [itemRange, if_true, cachefileMapRaw, if_neg hlong, some.injEq]
        exact (slice_slice hfit).symm

/-- A fetch in which a decryption pass finds one item makes that item available, whether
there was a warning or not. -/
theorem Crypt.fetch_one (c : Crypt) {fetched : Bytes} {warnings : List Nat}
    (hpass : c.cloudlogDecrypt false fetched =
      some (data, ⟨[⟨0, data.length⟩], warnings⟩)) (hpos : 0 < data.length) :
    ∃ file, c.partialFetchComplete (CacheFile.new 0) ⟨0, fetched⟩ = some file ∧
      ∀ dataSize, file.mapRange 0 data.length dataSize false = .bytes (some data) := by
  have hself := @slice_robustPwrite_self (zeros cacheFileSize) data 0
  have hlen := @length_robustPwrite (zeros cacheFileSize) data 0
  have hallow : (CacheFile.new 0).allowUnauth = false := rfl
  refine ⟨⟨0, [⟨0, data.length⟩], robustPwrite (zeros cacheFileSize) 0 data⟩, ?_, ?_⟩
  · simp only [partialFetchComplete, hallow, hpass, bind_eq_bind, bind_some]
    simp [mergeItems, rangesetLookupNext, RangesetItem.startsBy, CacheFile.merge_eq,
      CacheFile.new, rangesetInsert]
  · intro dataSize
    have hlookup : rangesetLookup [⟨0, data.length⟩] 0 = some ⟨0, data.length⟩ := by
      simp [rangesetLookup, RangesetItem.startsBy, hpos]
    have hin : ¬ (robustPwrite (zeros cacheFileSize) 0 data).length < 0 + data.length := by
      omega
    have hraw : cachefileMapRaw (robustPwrite (zeros cacheFileSize) 0 data) 0 data.length =
        some data := by
      rw [cachefileMapRaw, if_neg hin, hself]
    simp only [CacheFile.mapRange, hlookup]
    rw [if_neg (by simp)]
    exact congrArg Mapped.bytes hraw

theorem mapRange_authentic_stored :
    ∃ file, toyCrypt.partialFetchComplete (CacheFile.new 0) ⟨0, storedBlock⟩ = some file ∧
      ∃ bytes, toyCrypt.Authentic false bytes ∧
        file.mapRange 0 123 2 false = .bytes (some bytes) := by
  have hwalk : walkItems storedBlock = [(0, storedBlock)] := by decide +kernel
  have hpass : toyCrypt.cloudlogDecrypt false storedBlock =
      some (toyCrypt.decrypted storedBlock,
        ⟨[⟨0, (toyCrypt.decrypted storedBlock).length⟩], []⟩) := by
    decide +kernel
  have hlen : (toyCrypt.decrypted storedBlock).length = 123 := by decide +kernel
  rcases toyCrypt.fetch_one hpass (by rw [hlen]; decide) with ⟨file, hfile, hmap⟩
  have hok : toyCrypt.FetchOk (CacheFile.new 0) ⟨0, storedBlock⟩ := by
    intro w hw
    rw [hwalk, mem_singleton] at hw
    subst hw
    refine ⟨by decide +kernel, ?_⟩
    intro r hr
    cases hr
  have hreach : Reachable toyCrypt.partialFetchComplete toyCrypt.FetchOk (CacheFile.new 0) file :=
    .next _ .start hok hfile
  rw [hlen] at hmap
  rcases (mapRange_authentic rfl hreach).2.2 0 123 2 false _ (by simp) (hmap 2) with
    ⟨bytes, hbytes, hraw⟩
  exact ⟨file, hfile, bytes, hbytes, (hmap 2).trans (congrArg Mapped.bytes hraw)⟩

/-- The stored inode with other data. -/
def forgedBlock : Bytes :=
  storedBlock.set 89 0

/-- An item whose code does not verify is warned about, written to the cache, and mapped. -/
theorem forged_item_mapped :
    ¬ toyCrypt.Accepted false forgedBlock ∧ walkItems forgedBlock = [(0, forgedBlock)] ∧
      toyCrypt.cloudlogDecrypt false forgedBlock = some (forgedBlock, ⟨[⟨0, 123⟩], [0]⟩) ∧
      ∃ file, toyCrypt.partialFetchComplete (CacheFile.new 0) ⟨0, forgedBlock⟩ = some file ∧
        file.mapRange 0 123 2 false = .bytes (some forgedBlock) := by
  have hlen : forgedBlock.length = 123 := by decide +kernel
  have hpass : toyCrypt.cloudlogDecrypt false forgedBlock =
      some (forgedBlock, ⟨[⟨0, forgedBlock.length⟩], [0]⟩) := by
    decide +kernel
  rcases toyCrypt.fetch_one hpass (by rw [hlen]; decide) with ⟨file, hfile, hmap⟩
  rw [hlen] at hpass hmap
  exact ⟨by decide +kernel, by decide +kernel, hpass, file, hfile, hmap 2⟩

end BlueSky
