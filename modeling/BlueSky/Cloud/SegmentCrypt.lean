import BlueSky.Cloud.Crypt
import BlueSky.Cloud.Log
import BlueSky.Rangeset

/-!
# Encrypting a segment

`bluesky_cloudlog_encrypt` and `bluesky_cloudlog_decrypt` walk through a segment item by
item, using the sizes in the headers that they rewrite.  The second pass also collects the
ranges of the items; it does so for items that fail authentication too, and only warns
about them.

Main results:

- Theorem {lit}`Crypt.decryptLoop_spec`: what a decryption pass does to arbitrary bytes.
- Theorem {lit}`decrypt_encrypt_segment`: a decryption pass undoes an encryption pass on the
  items of a segment, and finds the ranges that were recorded for them.
-/

namespace BlueSky

open List Option ByteLib PackedLib

/-! ## The two passes -/

/-- The loop of `bluesky_cloudlog_encrypt`.  Each item gets the initialization vector drawn
for its offset. -/
def Crypt.encryptLoop (c : Crypt) (iv : Nat → BitVec 128) : Nat → Nat → Bytes → Option Bytes
  | 0, _, data => some data
  | fuel + 1, offset, data =>
    if data.length < cloudlogHeaderSize then some data
    else
      let size := (CloudlogHeader.ofBytes data).itemSize
      if data.length < size then some data
      else do
        let block ← c.cryptBlockEncrypt (iv offset) (data.take size)
        let rest ← encryptLoop c iv fuel (offset + size) (data.drop size)
        some (block ++ rest)

/-- `bluesky_cloudlog_encrypt`. -/
def Crypt.cloudlogEncrypt (c : Crypt) (iv : Nat → BitVec 128) (segment : Bytes) :
    Option Bytes :=
  c.encryptLoop iv segment.length 0 segment

/-- What a decryption pass has collected: the ranges of the items, and the offsets at which it
has warned about unauthenticated data. -/
structure DecryptPass where
  items : Rangeset
  warnings : List Nat
deriving DecidableEq, Repr

/-- The loop of `bluesky_cloudlog_decrypt`. -/
def Crypt.decryptLoop (c : Crypt) (allowUnauth : Bool) :
    Nat → Nat → Bytes → DecryptPass → Option (Bytes × DecryptPass)
  | 0, _, data, pass => some (data, pass)
  | fuel + 1, offset, data, pass =>
    if data.length < cloudlogHeaderSize then some (data, pass)
    else
      let size := (CloudlogHeader.ofBytes data).itemSize
      if data.length < size then some (data, pass)
      else do
        let (block, ok) ← c.cryptBlockDecrypt (data.take size) allowUnauth
        let pass :=
          if ok then { pass with items := (rangesetInsert pass.items offset size).1 }
          else
            { items := (rangesetInsert pass.items offset size).1
              warnings := pass.warnings ++ [offset] }
        let (rest, pass) ← decryptLoop c allowUnauth fuel (offset + size) (data.drop size) pass
        some (block ++ rest, pass)

/-- `bluesky_cloudlog_decrypt`. -/
def Crypt.cloudlogDecrypt (c : Crypt) (allowUnauth : Bool) (segment : Bytes) :
    Option (Bytes × DecryptPass) :=
  c.decryptLoop allowUnauth segment.length 0 segment ⟨[], []⟩

/-! ## One item -/

variable {block : Bytes}

theorem CloudlogHeader.ofBytes_append_right (rest : Bytes) (h : cloudlogHeaderSize ≤ block.length) :
    ofBytes (block ++ rest) = ofBytes block := by
  have hblock := block_eq h
  generalize ofBytes block = header at hblock ⊢
  rw [hblock, append_assoc, ofBytes_append]

/-- A block that has the length its header gives. -/
def IsItem (block : Bytes) : Prop :=
  block.length = (CloudlogHeader.ofBytes block).itemSize

theorem IsItem.headerSize_le (h : IsItem block) : cloudlogHeaderSize ≤ block.length := by
  rw [h, CloudlogHeader.itemSize]
  omega

theorem isItem_append {header : CloudlogHeader} {body : Bytes} (h : HasSections header body) :
    IsItem (header.toBytes ++ body) := by
  unfold HasSections at h
  rw [IsItem, CloudlogHeader.ofBytes_append, length_append,
    CloudlogHeader.length_toBytes, CloudlogHeader.itemSize]
  omega

/-- The passes take an item off the front of the data. -/
theorem IsItem.front (h : IsItem block) (rest : Bytes) :
    ¬ (block ++ rest).length < cloudlogHeaderSize ∧
      (CloudlogHeader.ofBytes (block ++ rest)).itemSize = block.length ∧
      ¬ (block ++ rest).length < block.length ∧
      (block ++ rest).take block.length = block ∧ (block ++ rest).drop block.length = rest := by
  have hle := h.headerSize_le
  refine ⟨?_, ?_, ?_, take_left, drop_left⟩
  · rw [length_append]
    omega
  · rw [CloudlogHeader.ofBytes_append_right rest hle]
    exact h.symm
  · rw [length_append]
    omega

theorem Crypt.encryptLoop_item (c : Crypt) (iv : Nat → BitVec 128) (fuel offset : Nat)
    (h : IsItem block) (rest : Bytes) :
    c.encryptLoop iv (fuel + 1) offset (block ++ rest) =
      (c.cryptBlockEncrypt (iv offset) block).bind fun stored =>
        (c.encryptLoop iv fuel (offset + block.length) rest).map (stored ++ ·) := by
  rcases h.front rest with ⟨hheader, hsize, hfit, htake, hdrop⟩
  rw [encryptLoop, if_neg hheader]
  simp only [hsize]
  rw [if_neg hfit, htake, hdrop]
  simp only [bind_eq_bind]
  congr 1
  funext stored
  cases c.encryptLoop iv fuel (offset + block.length) rest <;> rfl

theorem Crypt.decryptLoop_item (c : Crypt) (allowUnauth : Bool) (fuel offset : Nat)
    (h : IsItem block) (rest : Bytes) (pass : DecryptPass) {left : Bytes}
    (hleft : c.cryptBlockDecrypt block allowUnauth = some (left, true)) :
    c.decryptLoop allowUnauth (fuel + 1) offset (block ++ rest) pass =
      (c.decryptLoop allowUnauth fuel (offset + block.length) rest
        { pass with items := (rangesetInsert pass.items offset block.length).1 }).map
          fun r => (left ++ r.1, r.2) := by
  rcases h.front rest with ⟨hheader, hsize, hfit, htake, hdrop⟩
  rw [decryptLoop, if_neg hheader]
  simp only [hsize]
  rw [if_neg hfit, htake, hdrop, hleft]
  simp only [bind_eq_bind, bind_some, if_true]
  cases c.decryptLoop allowUnauth fuel (offset + block.length) rest
    { pass with items := (rangesetInsert pass.items offset block.length).1 } <;> rfl

variable {c : Crypt}

/-- Decrypting a stored item restores its data. -/
theorem Crypt.decrypted_stored (hinv : c.Inverts) (iv : BitVec 128) {header : CloudlogHeader}
    {body : Bytes} (h : HasSections header body) (hmagic : header.magic = cloudlogMagic)
    (auth : BitVec 256) :
    c.decrypted ({ storedHeader iv header with cryptAuth := auth }.toBytes ++
        c.storedBody iv header body) =
      ({ header with cryptAuth := auth, cryptIv := 0 } : CloudlogHeader).toBytes ++ body := by
  have hne : cloudlogMagic ≠ cloudlogMagicEncrypted := by decide
  unfold HasSections at h
  unfold decrypted isEncrypted storedHeader storedBody
  simp only [CloudlogHeader.ofBytes_append, drop_header]
  split_ifs with hneeds henc henc
  · have hlength : (c.ctrEncrypt c.encryptionKey iv (body.take header.size1.toNat)).length =
        header.size1.toNat := by
      rw [c.length_ctrEncrypt, length_take]
      omega
    rw [take_append_of_le_length hlength.ge, drop_append_of_le_length hlength.ge,
      take_of_length_le hlength.le, drop_of_length_le hlength.le,
      hinv, nil_append, take_append_drop, hmagic]
  · simp at henc
  · simp [hne] at henc
  · rw [hmagic]

/-- Encrypting an item and decrypting it again restores all of it but the two fields of the
header that encryption sets. -/
theorem Crypt.decrypt_encrypt (hon : c.disableCrypto = false) (hinv : c.Inverts) (iv : BitVec 128)
    {header : CloudlogHeader} {body : Bytes} (h : HasSections header body)
    (hmagic : header.magic = cloudlogMagic) :
    ∃ stored auth, c.cryptBlockEncrypt iv (header.toBytes ++ body) = some stored ∧
      IsItem stored ∧ stored.length = (header.toBytes ++ body).length ∧
      ∀ allowUnauth, c.cryptBlockDecrypt stored allowUnauth =
        some (({ header with cryptAuth := auth, cryptIv := 0 } : CloudlogHeader).toBytes ++ body,
          true) := by
  have hlen := c.length_storedBody iv h
  have hsections := c.hasSections_stored iv (c.storedAuth iv header body) h
  refine ⟨_, c.storedAuth iv header body, cryptBlockEncrypt_eq hon iv h hmagic,
    isItem_append hsections, by simp [hlen], ?_⟩
  intro allowUnauth
  have hstored : (storedHeader iv header).magic = cloudlogMagic ∨
      (storedHeader iv header).magic = cloudlogMagicEncrypted := by
    unfold storedHeader
    split_ifs
    · exact Or.inr rfl
    · exact Or.inl rfl
  rw [cryptBlockDecrypt_eq hon hsections hstored (Or.inl (c.verifies_stored iv h)),
    decrypted_stored hinv iv h hmagic]

/-! ## Arbitrary bytes -/

/-- The items that a pass comes to: the offset and the bytes of each. -/
def segmentWalk : Nat → Nat → Bytes → List (Nat × Bytes)
  | 0, _, _ => []
  | fuel + 1, offset, data =>
    if data.length < cloudlogHeaderSize then []
    else
      let size := (CloudlogHeader.ofBytes data).itemSize
      if data.length < size then []
      else (offset, data.take size) :: segmentWalk fuel (offset + size) (data.drop size)

/-- The items of a segment. -/
def walkItems (segment : Bytes) : List (Nat × Bytes) :=
  segmentWalk segment.length 0 segment

/-- The range of an item that a pass comes to. -/
def walkRange (w : Nat × Bytes) : RangesetItem :=
  ⟨w.1, w.2.length⟩

/-- The items lie one behind the other. -/
theorem segmentWalk_bounds {fuel offset : Nat} {data : Bytes} :
    (∀ w ∈ segmentWalk fuel offset data, offset ≤ w.1 ∧ w.1 + w.2.length ≤ offset + data.length ∧
      cloudlogHeaderSize ≤ w.2.length) ∧
    (segmentWalk fuel offset data).Pairwise fun v w => v.1 + v.2.length ≤ w.1 := by
  induction fuel generalizing offset data with
  | zero => exact ⟨by simp [segmentWalk], by simp [segmentWalk]⟩
  | succ fuel ih =>
    unfold segmentWalk
    dsimp only
    split_ifs with hheader hfit
    · simp
    · simp
    · rcases @ih (offset + (CloudlogHeader.ofBytes data).itemSize)
        (data.drop (CloudlogHeader.ofBytes data).itemSize) with ⟨hbounds, hpairs⟩
      have hle : cloudlogHeaderSize ≤ (CloudlogHeader.ofBytes data).itemSize := by
        rw [CloudlogHeader.itemSize]
        omega
      have hlen : (data.take (CloudlogHeader.ofBytes data).itemSize).length =
          (CloudlogHeader.ofBytes data).itemSize := by
        rw [length_take]
        omega
      refine ⟨?_, pairwise_cons.mpr ⟨?_, hpairs⟩⟩
      · intro w hw
        rcases mem_cons.mp hw with rfl | hw
        · rw [hlen]
          omega
        · have hrest := hbounds w hw
          rw [length_drop] at hrest
          omega
      · intro w hw
        rw [hlen]
        exact (hbounds w hw).1

/-- Decryption keeps the length of an item. -/
theorem Crypt.length_of_cryptBlockDecrypt {left : Bytes} {allowUnauth ok : Bool}
    (hle : cloudlogHeaderSize ≤ block.length)
    (h : c.cryptBlockDecrypt block allowUnauth = some (left, ok)) : left.length = block.length := by
  unfold cryptBlockDecrypt at h
  simp only at h
  by_cases hmagic : (CloudlogHeader.ofBytes block).magic ≠ cloudlogMagic ∧
      (CloudlogHeader.ofBytes block).magic ≠ cloudlogMagicEncrypted
  · rw [if_pos hmagic] at h
    cases h
  rw [if_neg hmagic] at h
  by_cases hoff : c.disableCrypto = true
  · rw [if_pos hoff] at h
    split_ifs at h
    simp only [some.injEq, Prod.mk.injEq] at h
    rw [← h.1]
  · rw [if_neg hoff] at h
    simp only [bind_eq_bind, bind_eq_some_iff] at h
    rcases h with ⟨span, -, h⟩
    split_ifs at h with hbad henc
    · simp only [some.injEq, Prod.mk.injEq] at h
      rw [← h.1]
    · rcases bind_eq_some_iff.mp h with ⟨body, hbody, hleft⟩
      unfold onData at hbody
      split_ifs at hbody with hfit
      simp only [some.injEq, Prod.mk.injEq] at hbody hleft
      rw [← hleft.1, ← hbody, length_append, CloudlogHeader.length_toBytes,
        length_append, c.length_ctrDecrypt, length_take, length_drop]
      simp only [length_drop] at hfit ⊢
      omega
    · simp only [some.injEq, Prod.mk.injEq] at h
      rw [← h.1]

/-- What a decryption pass does: it decrypts each item in place and adds its range, whatever
the verdict. -/
theorem Crypt.decryptLoop_spec {allowUnauth : Bool} {fuel offset : Nat} {data out : Bytes}
    {pass pass' : DecryptPass} (hpass : ∀ r ∈ pass.items, r.start < offset)
    (h : c.decryptLoop allowUnauth fuel offset data pass = some (out, pass')) :
    pass'.items = pass.items ++ (segmentWalk fuel offset data).map walkRange ∧
      ∀ w ∈ segmentWalk fuel offset data, ∃ left ok,
        c.cryptBlockDecrypt w.2 allowUnauth = some (left, ok) ∧
          slice out (w.1 - offset) w.2.length = left := by
  induction fuel generalizing offset data out pass with
  | zero =>
    simp only [decryptLoop, some.injEq, Prod.mk.injEq] at h
    rw [← h.2]
    simp [segmentWalk]
  | succ fuel ih =>
    unfold decryptLoop at h
    unfold segmentWalk
    by_cases hheader : data.length < cloudlogHeaderSize
    · rw [if_pos hheader] at h ⊢
      simp only [some.injEq, Prod.mk.injEq] at h
      rw [← h.2]
      simp
    rw [if_neg hheader] at h ⊢
    have hle : cloudlogHeaderSize ≤ (CloudlogHeader.ofBytes data).itemSize := by
      rw [CloudlogHeader.itemSize]
      omega
    simp only at h ⊢
    generalize (CloudlogHeader.ofBytes data).itemSize = size at h hle ⊢
    by_cases hfit : data.length < size
    · rw [if_pos hfit] at h ⊢
      simp only [some.injEq, Prod.mk.injEq] at h
      rw [← h.2]
      simp
    rw [if_neg hfit] at h ⊢
    have hlen : (data.take size).length = size := by
      rw [length_take]
      omega
    simp only [bind_eq_bind, bind_eq_some_iff] at h
    rcases h with ⟨⟨left, ok⟩, hleft, ⟨rest, pass₂⟩, hrest, heq⟩
    simp only [some.injEq, Prod.mk.injEq] at heq
    rcases heq with ⟨rfl, rfl⟩
    have hleftlen : left.length = size := by
      rw [length_of_cryptBlockDecrypt (by omega) hleft, hlen]
    have hinsert := rangesetInsert_last size hpass
    -- the two branches differ only in the warning
    have hitems : (if ok then { pass with items := (rangesetInsert pass.items offset size).1 }
        else
          { items := (rangesetInsert pass.items offset size).1
            warnings := pass.warnings ++ [offset] } : DecryptPass).items =
          pass.items ++ [⟨offset, size⟩] := by
      cases ok
      · simpa using hinsert
      · simpa using hinsert
    rcases ih (by
      intro r hr
      rw [hitems] at hr
      have hpos : 0 < cloudlogHeaderSize := by decide
      rcases mem_append.mp hr with hr | hr
      · have := hpass r hr
        omega
      · rw [mem_singleton.mp hr]
        simp only
        omega) hrest with ⟨hranges, hblocks⟩
    refine ⟨?_, ?_⟩
    · rw [hranges, hitems, map_cons, walkRange, hlen, append_assoc]
      rfl
    · intro w hw
      rcases mem_cons.mp hw with rfl | hw
      · refine ⟨left, ok, hleft, ?_⟩
        simp only [Nat.sub_self, hlen]
        rw [slice_append_left rest (by omega), ← hleftlen, slice_zero_length]
      · rcases hblocks w hw with ⟨left', ok', hleft', hslice⟩
        refine ⟨left', ok', hleft', ?_⟩
        have hbound := (segmentWalk_bounds.1 w hw).1
        have hoff : w.1 - offset = left.length + (w.1 - (offset + size)) := by omega
        rw [hoff, slice_append_right, hslice]

/-! ## Segments -/

/-- An item of a segment, with what the stack held when its header was filled in. -/
abbrev SegmentItem := LogItem × CryptFields

/-- The bytes of a segment. -/
def segmentBytes (items : List SegmentItem) : Bytes :=
  (items.map fun e => e.1.cloudRecord cloudlogMagic e.2).flatten

/-- The offset and size that `bluesky_cloudlog_serialize` records for each item, in 32 bits,
when it appends the items to data of a given length. -/
def recordedRanges : Nat → List SegmentItem → List (BitVec 32 × BitVec 32)
  | _, [] => []
  | offset, e :: es =>
    (BitVec.ofNat 32 offset, BitVec.ofNat 32 e.1.cloudSize) ::
      recordedRanges (offset + e.1.cloudSize) es

/-- The ranges of the items. -/
def itemRanges : Nat → List SegmentItem → Rangeset
  | _, [] => []
  | offset, e :: es => ⟨offset, e.1.cloudSize⟩ :: itemRanges (offset + e.1.cloudSize) es

/-- A segment is closed as soon as it is larger than `CLOUDLOG_SEGMENT_SIZE`, so that every
item is appended to less. -/
def Appended (limit : Nat) : Nat → List SegmentItem → Prop
  | _, [] => True
  | offset, e :: es => offset ≤ limit ∧ Appended limit (offset + e.1.cloudSize) es

theorem recordedRanges_eq {limit offset : Nat} {items : List SegmentItem}
    (hlimit : limit < 2 ^ 32) (happ : Appended limit offset items)
    (hsize : ∀ e ∈ items, e.1.cloudSize < 2 ^ 32) :
    (recordedRanges offset items).map (fun r => (⟨r.1.toNat, r.2.toNat⟩ : RangesetItem)) =
      itemRanges offset items := by
  induction items generalizing offset with
  | nil => rfl
  | cons e es ih =>
    have hfirst := hsize e mem_cons_self
    rw [recordedRanges, map_cons, itemRanges,
      ih happ.2 fun e he => hsize e (mem_cons_of_mem _ he), BitVec.toNat_ofNat,
      BitVec.toNat_ofNat, Nat.mod_eq_of_lt (happ.1.trans_lt hlimit), Nat.mod_eq_of_lt hfirst]

theorem length_le_segmentBytes (items : List SegmentItem) :
    items.length ≤ (segmentBytes items).length := by
  induction items with
  | nil => simp
  | cons e es ih =>
    have hbytes : segmentBytes (e :: es) = e.1.cloudRecord cloudlogMagic e.2 ++ segmentBytes es :=
      rfl
    rw [hbytes, length_append, LogItem.length_cloudRecord, LogItem.cloudSize,
      cloudlogHeaderSize, length_cons]
    omega

/-- The passes over a segment whose items fit their headers, from some offset on. -/
theorem Crypt.loops_segment (hon : c.disableCrypto = false) (hinv : c.Inverts)
    (iv : Nat → BitVec 128) (allowUnauth : Bool) {items : List SegmentItem}
    (hsize : ∀ e ∈ items, e.1.Fits) (fuel offset : Nat) (pass : DecryptPass)
    (hfuel : items.length ≤ fuel) (hpass : ∀ r ∈ pass.items, r.start < offset) :
    ∃ stored items', c.encryptLoop iv fuel offset (segmentBytes items) = some stored ∧
      stored.length = (segmentBytes items).length ∧
      items'.map Prod.fst = items.map Prod.fst ∧
      c.decryptLoop allowUnauth fuel offset stored pass =
        some (segmentBytes items',
          { pass with items := pass.items ++ itemRanges offset items }) := by
  induction items generalizing fuel offset pass with
  | nil =>
    refine ⟨[], [], ?_, rfl, rfl, ?_⟩
    · cases fuel <;> rfl
    · cases fuel <;> simp [decryptLoop, segmentBytes, itemRanges, cloudlogHeaderSize]
  | cons e es ih =>
    rcases e with ⟨item, crypt⟩
    have hfits : item.Fits := hsize (item, crypt) mem_cons_self
    have hsections := LogItem.hasSections hfits cloudlogMagic crypt
    have hisItem : IsItem (item.cloudRecord cloudlogMagic crypt) := isItem_append hsections
    obtain ⟨fuel, rfl⟩ : ∃ k, fuel = k + 1 := by
      cases fuel with
      | zero => simp at hfuel
      | succ k => exact ⟨k, rfl⟩
    rcases decrypt_encrypt hon hinv (iv offset) hsections rfl with
      ⟨stored, auth, hstored, hitem, hlen, hdecrypt⟩
    have hrecord : (item.cloudHeader cloudlogMagic crypt).toBytes ++ item.payload =
        item.cloudRecord cloudlogMagic crypt := rfl
    rw [hrecord] at hstored hlen
    rw [LogItem.length_cloudRecord] at hlen
    have hinsert := rangesetInsert_last item.cloudSize hpass
    rcases ih (fun e he => hsize e (mem_cons_of_mem _ he)) fuel (offset + item.cloudSize)
      { pass with items := (rangesetInsert pass.items offset item.cloudSize).1 }
      (by simpa using hfuel) (by
        intro r hr
        have hpos : 0 < item.cloudSize := by
          rw [LogItem.cloudSize, cloudlogHeaderSize]
          omega
        rcases mem_rangesetInsert.mp hr with rfl | hr
        · simpa using hpos
        · exact (hpass r hr).trans_le (Nat.le_add_right _ _))
      with ⟨rest, items', henc, hrest, hitems, hdec⟩
    have hbytes : segmentBytes ((item, crypt) :: es) =
        item.cloudRecord cloudlogMagic crypt ++ segmentBytes es := rfl
    refine ⟨stored ++ rest, (item, ⟨auth, 0⟩) :: items', ?_, ?_, ?_, ?_⟩
    · rw [hbytes, c.encryptLoop_item iv fuel offset hisItem, hstored, LogItem.length_cloudRecord,
        bind_some, henc, map_some]
    · simp [hbytes, hlen, hrest]
    · simp [hitems]
    · rw [c.decryptLoop_item allowUnauth fuel offset hitem rest pass (hdecrypt allowUnauth),
        hlen, hdec, map_some, hinsert]
      simp only [itemRanges, append_assoc, singleton_append]
      rfl

/-- A decryption pass undoes an encryption pass on the items of a segment: no item is warned
about, everything but the two fields of each header that encryption sets is restored, and
the ranges found are those recorded when the items were appended. -/
theorem decrypt_encrypt_segment {c : Crypt} (hon : c.disableCrypto = false) (hinv : c.Inverts)
    (iv : Nat → BitVec 128) (allowUnauth : Bool) (items : List SegmentItem)
    (hsize : ∀ e ∈ items, e.1.cloudSize < 2 ^ 32)
    (happ : Appended cloudlogSegmentSize 0 items) :
    ∃ stored items' ranges, c.cloudlogEncrypt iv (segmentBytes items) = some stored ∧
      c.cloudlogDecrypt allowUnauth stored = some (segmentBytes items', ⟨ranges, []⟩) ∧
      items'.map Prod.fst = items.map Prod.fst ∧
      ranges = (recordedRanges 0 items).map fun r => ⟨r.1.toNat, r.2.toNat⟩ := by
  have hfuel := length_le_segmentBytes items
  rcases Crypt.loops_segment hon hinv iv allowUnauth
    (fun e he => LogItem.fits_of_cloudSize_lt (hsize e he)) (segmentBytes items).length 0 ⟨[], []⟩
    hfuel (by simp) with ⟨stored, items', henc, hlen, hitems, hdec⟩
  refine ⟨stored, items', itemRanges 0 items, henc, ?_, hitems, ?_⟩
  · rw [Crypt.cloudlogDecrypt, hlen, hdec]
    rfl
  · exact (recordedRanges_eq (by decide) happ hsize).symm

/-- A segment with a block and the inode that it belongs to. -/
def smallSegment : List SegmentItem :=
  [({ type := .data, id := 9, inum := 2, data := [0x61, 0x62, 0x63], links := [] }, ⟨5, 6⟩),
    ({ type := .inode, id := 7, inum := 2, data := [0x68, 0x69]
       links := [none, some ⟨9, ⟨0, 1, 0, 92⟩⟩] }, ⟨7, 8⟩)]

theorem decrypt_encrypt_segment_small :
    ∃ stored items' ranges, toyCrypt.cloudlogEncrypt (fun _ => 1) (segmentBytes smallSegment) =
        some stored ∧
      toyCrypt.cloudlogDecrypt false stored = some (segmentBytes items', ⟨ranges, []⟩) ∧
      items'.map Prod.fst = smallSegment.map Prod.fst ∧
      ranges = (recordedRanges 0 smallSegment).map fun r => ⟨r.1.toNat, r.2.toNat⟩ := by
  refine decrypt_encrypt_segment rfl toyCrypt_inverts (fun _ => 1) false smallSegment ?_ ?_
  · decide +kernel
  · exact ⟨by decide, by decide +kernel, trivial⟩

section Huge

/-- A header of zero bytes. -/
def zeroHeader : CloudlogHeader := ⟨0, 0, 0, 0, 0, 0, 0, 0, 0⟩

/-- The header of an item whose size is not representable. -/
def hugeHeader : CloudlogHeader := ⟨cloudlogMagic, 0, 0, LogType.data.octet, 0, 0, 0, 0, 0⟩

theorem encryptLoop_zeros (c : Crypt) (hon : c.disableCrypto = false) (iv : Nat → BitVec 128)
    (fuel offset : Nat) {n : Nat} (hn : cloudlogHeaderSize ≤ n) :
    c.encryptLoop iv (fuel + 1) offset (zeros n) = none := by
  have hzeros : zeros n = zeroHeader.toBytes ++ zeros (n - cloudlogHeaderSize) := by
    have hheader : zeroHeader.toBytes = zeros cloudlogHeaderSize := by decide +kernel
    rw [hheader, zeros, zeros, zeros, replicate_append_replicate, Nat.add_sub_cancel' hn]
  have hitem : IsItem zeroHeader.toBytes := by
    have happ := @isItem_append zeroHeader [] rfl
    rwa [append_nil] at happ
  have hnone : c.cryptBlockEncrypt (iv offset) zeroHeader.toBytes = none := by
    have hread := CloudlogHeader.ofBytes_append zeroHeader []
    rw [append_nil] at hread
    unfold Crypt.cryptBlockEncrypt
    simp only [hon, hread]
    rfl
  rw [hzeros, c.encryptLoop_item iv fuel offset hitem, hnone, bind_none]

/-- An item of four gigabytes is not seen as one item: its size is zero in the header, and
what follows the header is taken for the next item, without a magic number. -/
theorem huge_item_aborts :
    ∃ item : LogItem, item.type = .data ∧ item.data.length = 2 ^ 32 ∧
      toyCrypt.cloudlogEncrypt (fun _ => 1) (segmentBytes [(item, ⟨0, 0⟩)]) = none := by
  obtain ⟨n, hn⟩ : ∃ n, n = 2 ^ 32 := ⟨_, rfl⟩
  refine ⟨zeroItem n, rfl, by rw [← hn]; exact length_zeros n, ?_⟩
  have hheader : (zeroItem n).cloudHeader cloudlogMagic ⟨0, 0⟩ = hugeHeader := by
    have hsize : BitVec.ofNat 32 n = 0 := by
      rw [hn]
      rfl
    simp only [LogItem.cloudHeader, zeroItem, length_zeros, hsize]
    rfl
  have hbytes : segmentBytes [(zeroItem n, ⟨0, 0⟩)] = hugeHeader.toBytes ++ zeros n := by
    rw [← hheader]
    simp [segmentBytes, LogItem.cloudRecord, LogItem.payload, LogItem.linkIds,
      LogItem.linkLocations, zeroItem]
  have hitem : IsItem hugeHeader.toBytes := by
    have happ := @isItem_append hugeHeader [] rfl
    rwa [append_nil] at happ
  have hlen : (hugeHeader.toBytes ++ zeros n).length = (n + 87) + 1 + 1 := by
    rw [length_append, CloudlogHeader.length_toBytes, length_zeros, cloudlogHeaderSize]
    omega
  rw [Crypt.cloudlogEncrypt, hbytes, hlen, toyCrypt.encryptLoop_item _ _ _ hitem,
    encryptLoop_zeros toyCrypt rfl _ _ _ (by rw [hn]; decide)]
  cases toyCrypt.cryptBlockEncrypt 1 hugeHeader.toBytes <;> rfl

end Huge

end BlueSky
