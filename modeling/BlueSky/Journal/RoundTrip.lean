import BlueSky.Journal.Writer
import BlueSky.Journal.Scan

/-!
# Writing and scanning the journal

What the replay loops find in the files that `log_thread` wrote, when a crash
keeps all closed segments and any part of the open one, the rest of which reads
as zeros.

Main results:

- Theorem {lit}`validateJournalItem_torn_iff`: at the place of a record, a torn
  file validates exactly when it still holds the record.
- Theorem {lit}`journalItems_torn`: the scan of one file finds the records that
  it still holds.
- Theorem {lit}`replayItems_crashImage`: the scan of the whole journal directory.
-/

namespace BlueSky

open List ByteLib

/-! ## Reading a whole record -/

namespace LogItem

/-- The pieces of a record in the order in which they are written. -/
theorem record_sections (item : LogItem) (off : Nat) :
    item.record off = (item.header off).toBytes ++ (item.data ++ (item.linkIds ++
      (item.linkLocations ++ (leBytes 4 footerMagic.toNat ++
        leBytes 4 (crc32cFinalize (item.crc off)).toNat)))) := by
  rw [record_eq]
  simp only [covered, payload, append_assoc]

variable {item : LogItem}

theorem fits_of_size_lt (h : item.size < 2 ^ 32) : item.Fits := by
  simp only [size] at h
  exact ⟨by omega, by omega, by omega⟩

/-- When a record fits 32 bits, the sizes in its header add up without wrapping. -/
theorem header_bodySize (h : item.size < 2 ^ 32) (off : Nat) :
    (item.header off).bodySize =
      item.data.length + item.linkIds.length + item.linkLocations.length := by
  simp only [size] at h
  simp only [LogHeader.bodySize, header, BitVec.toNat_add, BitVec.toNat_ofNat]
  omega

theorem header_sizes (h : item.Fits) (off : Nat) :
    (item.header off).size1.toNat = item.data.length ∧
      (item.header off).size2.toNat = item.linkIds.length ∧
      (item.header off).size3.toNat = item.linkLocations.length := by
  simp only [header, BitVec.toNat_ofNat, Nat.mod_eq_of_lt h.data_lt,
    Nat.mod_eq_of_lt h.linkIds_lt, Nat.mod_eq_of_lt h.linkLocations_lt, and_self]

end LogItem

/-- A buffer holds the record of an item at the given offset. -/
def HoldsRecord (buf : Bytes) (off : Nat) (item : LogItem) : Prop :=
  slice buf off item.size = item.record off

instance (buf : Bytes) (off : Nat) (item : LogItem) : Decidable (HoldsRecord buf off item) :=
  inferInstanceAs (Decidable (_ = _))

namespace HoldsRecord

variable {buf : Bytes} {off : Nat} {item : LogItem}

theorem length_le (h : HoldsRecord buf off item) : off + item.size ≤ buf.length := by
  have hlen : (slice buf off item.size).length = item.size := by
    rw [h, LogItem.length_record]
  have hpos := item.size_pos
  simp only [logHeaderSize] at hpos
  rw [length_slice] at hlen
  omega

theorem header_eq (h : HoldsRecord buf off item) :
    LogHeader.ofBytes (buf.drop off) = item.header off := by
  have hsize : logHeaderSize ≤ item.size := by
    have hpos := item.size_pos
    omega
  rw [← LogHeader.ofBytes_slice buf off item.size hsize, h, item.record_sections,
    LogHeader.ofBytes_append]

/-- The bytes at a position inside the record are those written there. -/
theorem slice_part (h : HoldsRecord buf off item) {a b c : Bytes}
    (hrec : item.record off = a ++ (b ++ c)) : slice buf (off + a.length) b.length = b := by
  have hlen : a.length + b.length ≤ item.size := by
    have := congrArg List.length hrec
    simp only [LogItem.length_record, length_append] at this
    omega
  rw [← slice_slice hlen, h, hrec, slice_middle]

theorem slice_data (h : HoldsRecord buf off item) :
    slice buf (off + logHeaderSize) item.data.length = item.data := by
  simpa using h.slice_part (item.record_sections off)

theorem slice_linkIds (h : HoldsRecord buf off item) :
    slice buf (off + logHeaderSize + item.data.length) item.linkIds.length =
      item.linkIds := by
  have hrec := item.record_sections off
  rw [← append_assoc] at hrec
  simpa [Nat.add_assoc] using h.slice_part hrec

theorem slice_linkLocations (h : HoldsRecord buf off item) :
    slice buf (off + logHeaderSize + item.data.length + item.linkIds.length)
      item.linkLocations.length = item.linkLocations := by
  have hrec := item.record_sections off
  rw [← append_assoc, ← append_assoc] at hrec
  simpa [Nat.add_assoc] using h.slice_part hrec

theorem slice_footerMagic (h : HoldsRecord buf off item) :
    slice buf (off + logHeaderSize + (item.data.length + item.linkIds.length +
      item.linkLocations.length)) 4 = leBytes 4 footerMagic.toNat := by
  have hrec := item.record_sections off
  rw [← append_assoc, ← append_assoc, ← append_assoc] at hrec
  simpa [Nat.add_assoc] using h.slice_part hrec

/-- A record that is there, and fits 32 bits, is cut up into what was written. -/
theorem scannedItem_eq (h : HoldsRecord buf off item) (hsize : item.size < 2 ^ 32) :
    scannedItem buf off =
      { offset := off
        type := item.type.code
        inum := item.inum
        id := item.id
        data1 := item.data
        data2 := item.linkIds
        data3 := item.linkLocations } := by
  obtain ⟨h1, h2, h3⟩ := LogItem.header_sizes (LogItem.fits_of_size_lt hsize) off
  simp only [scannedItem, h.header_eq, h1, h2, h3, h.slice_data, h.slice_linkIds,
    h.slice_linkLocations]
  simp only [LogItem.header, typeOfOctet_octet]

/-- A record that is there, and fits 32 bits, is accepted. -/
theorem validate (h : HoldsRecord buf off item) (hsize : item.size < 2 ^ 32)
    (hoff : off < 2 ^ 32) : validateJournalItem buf off = true := by
  have hbody := LogItem.header_bodySize hsize off
  have htotal : logHeaderSize + logFooterSize + (item.header off).bodySize = item.size := by
    rw [hbody, LogItem.size]
  have hlen := h.length_le
  rw [validateJournalItem_iff]
  simp only [h.header_eq]
  refine ⟨rfl, ?_, by omega, ?_, ?_⟩
  · simp only [LogItem.header, BitVec.toNat_ofNat]
    exact Nat.mod_eq_of_lt hoff
  · rw [hbody, readField, h.slice_footerMagic]
    decide
  · -- the checksum runs over the whole record and ends in the residue
    rw [htotal, crc32c, Nat.mod_eq_of_lt hsize]
    change CrcLib.run crc32cEntry crc32cSeed (slice buf off item.size) = crc32cValidator
    rw [h, LogItem.record_eq, crc32c_trailer_iff, LogItem.crc_eq (LogItem.fits_of_size_lt hsize)]

end HoldsRecord

/-! ## Torn files -/

section Torn

variable {bytes : Bytes} {cut k off : Nat} {item : LogItem}

/-- Where a torn file validates, the cut lies behind the header of the record. -/
theorem header_survives_of_validate
    (hvalid : validateJournalItem (bytes.take cut ++ zeros k) off = true) :
    off + logHeaderSize < cut := by
  by_contra hcut
  obtain ⟨-, -, -, hfooter, -⟩ := (validateJournalItem_iff _ _).mp hvalid
  rw [readField, leNat_eq_zero (slice_cut_zeros (by omega))] at hfooter
  exact absurd hfooter (by decide)

/-- A footer magic whose last octet is lost in a tear is not a footer magic. -/
theorem footer_survives {pos : Nat}
    (h : readField 32 4 (bytes.take cut ++ zeros k) pos = footerMagic) : pos + 4 ≤ cut := by
  by_contra hcut
  have hsplit := slice_add (bytes.take cut ++ zeros k) pos 3 1
  have hzero : leNat (slice (bytes.take cut ++ zeros k) (pos + 3) 1) = 0 :=
    leNat_eq_zero (slice_cut_zeros (by omega))
  have hlow : leNat (slice (bytes.take cut ++ zeros k) pos 3) < 256 ^ 3 := by
    refine lt_of_lt_of_le (leNat_lt _) (Nat.pow_le_pow_right (by decide) ?_)
    rw [length_slice]
    omega
  have hval := congrArg BitVec.toNat h
  rw [readField, show (4 : Nat) = 3 + 1 from rfl, hsplit, leNat_append, hzero] at hval
  simp only [BitVec.toNat_ofNat, footerMagic] at hval
  omega

/-- Where a torn file validates, the header read is the one that was written. -/
theorem HoldsRecord.header_torn (h : HoldsRecord bytes off item)
    (hcut : off + logHeaderSize ≤ cut) :
    LogHeader.ofBytes ((bytes.take cut ++ zeros k).drop off) = item.header off := by
  have hlen := h.length_le
  have hpos := item.size_pos
  rw [← LogHeader.ofBytes_slice _ off logHeaderSize le_rfl,
    slice_cut_of_le hcut (by omega), LogHeader.ofBytes_slice _ _ _ le_rfl, h.header_eq]

/-- The checksum decides the last four bytes of a record. -/
theorem holdsRecord_of_crc {buf : Bytes} (hsize : item.size < 2 ^ 32)
    (hlen : off + item.size ≤ buf.length)
    (hcovered : slice buf off (item.size - 4) = item.covered off)
    (hcrc : crc32c crc32cSeed (buf.drop off) item.size = crc32cValidator) :
    HoldsRecord buf off item := by
  have hpos := item.size_pos
  simp only [logHeaderSize, logFooterSize] at hpos
  have htail : (slice buf (off + (item.size - 4)) 4).length = 4 :=
    length_slice_of_le (by omega)
  have hsplit : slice buf off item.size =
      item.covered off ++ slice buf (off + (item.size - 4)) 4 := by
    rw [← hcovered, ← slice_add, Nat.sub_add_cancel (by omega)]
  -- the trailing bytes are those of some word
  generalize slice buf (off + (item.size - 4)) 4 = tail at htail hsplit
  have hlt : leNat tail < 2 ^ 32 := by
    have := leNat_lt tail
    rw [htail] at this
    omega
  have hword : tail = leBytes 4 (BitVec.ofNat 32 (leNat tail)).toNat := by
    have hback := leBytes_leNat tail
    rw [htail] at hback
    rw [BitVec.toNat_ofNat, Nat.mod_eq_of_lt hlt, hback]
  rw [crc32c, Nat.mod_eq_of_lt hsize] at hcrc
  change CrcLib.run crc32cEntry crc32cSeed (slice buf off item.size) = _ at hcrc
  rw [hsplit, hword, crc32c_trailer_iff] at hcrc
  rw [HoldsRecord, hsplit, hword, hcrc, LogItem.record_eq,
    LogItem.crc_eq (LogItem.fits_of_size_lt hsize)]

/-- At the place of a record, a torn file validates exactly when it still holds the
record. -/
theorem validateJournalItem_torn_iff (h : HoldsRecord bytes off item)
    (hsize : item.size < 2 ^ 32) (hoff : off < 2 ^ 32) :
    validateJournalItem (bytes.take cut ++ zeros k) off = true ↔
      HoldsRecord (bytes.take cut ++ zeros k) off item := by
  refine ⟨fun hvalid => ?_, fun hrec => hrec.validate hsize hoff⟩
  have hheader := h.header_torn (k := k) (header_survives_of_validate hvalid).le
  obtain ⟨-, -, hlen, hfooter, hcrc⟩ := (validateJournalItem_iff _ _).mp hvalid
  rw [hheader, LogItem.header_bodySize hsize off] at hlen hfooter hcrc
  have hcut := footer_survives hfooter
  have hwritten := h.length_le
  have hsizeEq : logHeaderSize + logFooterSize + (item.data.length + item.linkIds.length +
      item.linkLocations.length) = item.size := rfl
  rw [hsizeEq] at hcrc
  simp only [logHeaderSize, logFooterSize] at hlen hcut hsizeEq
  refine holdsRecord_of_crc hsize (by omega) ?_ hcrc
  -- everything up to the checksum lies before the cut
  rw [slice_cut_of_le (by omega) (by omega), ← Nat.add_zero off,
    ← @slice_slice _ _ item.size _ _ (by omega), Nat.add_zero, h, LogItem.record_eq]
  have hcovered := item.length_covered off
  rw [slice_append_left _ (by omega), ← hcovered, slice_zero_length]

/-- Past the cut, or past the end of what was written, there is no record. -/
theorem validateJournalItem_torn_false (h : cut ≤ off ∨ bytes.length ≤ off) :
    validateJournalItem (bytes.take cut ++ zeros k) off = false := by
  apply validateJournalItem_false_of_zeros
  have htake : bytes.take cut = bytes.take (min cut bytes.length) := by
    rw [← take_take, take_length]
  rw [htake]
  exact slice_cut_zeros (by omega)

end Torn

/-! ## One file -/

/-- The record of an entry as the scan should report it. -/
def LogEntry.scanned (e : LogEntry) : ScannedItem where
  offset := e.offset
  type := e.item.type.code
  inum := e.item.inum
  id := e.item.id
  data1 := e.item.data
  data2 := e.item.linkIds
  data3 := e.item.linkLocations

variable {seq : Nat} {es : List LogEntry} {bs : Bytes}

/-- Entries of a laid-out region start at or after the region. -/
theorem Laid.offset_le {off : Nat} (h : Laid seq off es bs) : ∀ e ∈ es, off ≤ e.offset := by
  induction h with
  | nil off => simp
  | @cons off item es bs _ ih =>
    intro e he
    rcases mem_cons.mp he with rfl | he
    · exact le_rfl
    · have := ih e he
      omega

/-- A laid-out region of a byte stream holds the record of its first entry. -/
theorem Laid.holdsRecord {off : Nat} {item : LogItem} {bytes : Bytes}
    (hdrop : bytes.drop off = item.record off ++ bs) (_ : Laid seq (off + item.size) es bs) :
    HoldsRecord bytes off item ∧ bytes.drop (off + item.size) = bs := by
  have hlen : (item.record off).length = item.size := LogItem.length_record item off
  constructor
  · rw [HoldsRecord, slice, hdrop, ← hlen, take_left]
  · rw [← drop_drop, hdrop, ← hlen, drop_left]

variable {cut k : Nat}

/-- The scan of a torn file from the start of a laid-out region finds the records of
the region that the file still holds. -/
theorem scanJournal_laid {bytes : Bytes} {off : Nat} (h : Laid seq off es bs)
    (hdrop : bytes.drop off = bs) (hsize : ∀ e ∈ es, e.item.size < 2 ^ 32)
    (hoff : ∀ e ∈ es, e.offset < 2 ^ 32) (fuel : Nat)
    (hfuel : (bytes.take cut ++ zeros k).length ≤ fuel + off) :
    scanJournal (bytes.take cut ++ zeros k) fuel off =
      (es.filter fun e => HoldsRecord (bytes.take cut ++ zeros k) e.offset e.item).map
        LogEntry.scanned := by
  induction h generalizing fuel with
  | nil off =>
    rw [drop_eq_nil_iff] at hdrop
    rw [scanJournal_of_invalid (validateJournalItem_torn_false (Or.inr hdrop))]
    rfl
  | @cons off item es bs rest ih =>
    obtain ⟨hrec, hnext⟩ := Laid.holdsRecord hdrop rest
    have hfirst : item.size < 2 ^ 32 := hsize _ mem_cons_self
    have hvalid := @validateJournalItem_torn_iff _ cut k _ _ hrec hfirst (hoff _ mem_cons_self)
    by_cases hheld : HoldsRecord (bytes.take cut ++ zeros k) off item
    · -- the record is reported, and the loop goes on behind it
      have hlen := hheld.length_le
      have hpos := item.size_pos
      simp only [logHeaderSize] at hpos
      obtain ⟨fuel, rfl⟩ : ∃ n, fuel = n + 1 := ⟨fuel - 1, by omega⟩
      have hstep : off + logHeaderSize + (item.header off).bodySize + logFooterSize =
          off + item.size := by
        rw [LogItem.header_bodySize hfirst off, LogItem.size]
        omega
      rw [scanJournal, if_pos (hvalid.mpr hheld)]
      simp only [hheld.header_eq, hstep, hheld.scannedItem_eq hfirst]
      rw [ih hnext (fun e he => hsize e (mem_cons_of_mem _ he))
        (fun e he => hoff e (mem_cons_of_mem _ he)) fuel (by omega)]
      simp [hheld, LogEntry.scanned]
    · -- the tear lies before the end of this record, hence before all later ones
      have hinvalid : validateJournalItem (bytes.take cut ++ zeros k) off = false := by
        rw [← Bool.not_eq_true, hvalid]
        exact hheld
      have hcut : cut < off + item.size := by
        by_contra hge
        apply hheld
        rw [HoldsRecord, slice_cut_of_le (by omega) hrec.length_le, hrec]
      have hlost : ∀ e ∈ es,
          ¬ HoldsRecord (bytes.take cut ++ zeros k) e.offset e.item := by
        intro e he hheld'
        have htrue := hheld'.validate (hsize e (mem_cons_of_mem _ he))
          (hoff e (mem_cons_of_mem _ he))
        have hle := rest.offset_le e he
        rw [validateJournalItem_torn_false (Or.inl (by omega))] at htrue
        exact absurd htrue (by decide)
      have hnone : es.filter
          (fun e => HoldsRecord (bytes.take cut ++ zeros k) e.offset e.item) = [] := by
        rw [filter_eq_nil_iff]
        intro e he
        simpa using hlost e he
      rw [scanJournal_of_invalid hinvalid]
      simp [hheld, hnone]

/-- The scan of one file of the journal finds the records that it still holds. -/
theorem journalItems_torn {seg : Segment} (h : seg.WellFormed)
    (hsize : ∀ e ∈ seg.entries, e.item.size < 2 ^ 32) (cut k : Nat) :
    journalItems (seg.bytes.take cut ++ zeros k) 0 =
      (seg.entries.filter fun e =>
        HoldsRecord (seg.bytes.take cut ++ zeros k) e.offset e.item).map
          LogEntry.scanned := by
  apply scanJournal_laid h.laid rfl hsize
  · intro e he
    exact lt_trans (h.offset_lt e he) (by decide)
  · exact le_rfl

/-! ## The journal directory -/

/-- The file of a closed segment: `log_open` extends it to the segment size. -/
def Segment.file (seg : Segment) : Bytes :=
  seg.bytes ++ zeros (logSegmentSize - seg.bytes.length)

/-- The journal directory after a crash.  Closed segments were committed before the
next one was opened; of the open segment a number of bytes survive, and zeros
follow them. -/
def Log.crashImage (log : Log) (cut k : Nat) : JournalDir :=
  log.closed.map (fun seg => (seg.seq, seg.file)) ++
    [(log.current.seq, log.current.bytes.take cut ++ zeros k)]

/-- A record is completely contained in the surviving bytes. -/
def LogEntry.containedIn (dir : JournalDir) (e : LogEntry) : Bool :=
  match dir.file e.seq with
  | none => false
  | some buf => HoldsRecord buf e.offset e.item

/-- Write the items, crash, scan the files: what is found are the records still
contained, in write order, at their recorded places and with their contents; and
an oversized segment holds one record. -/
def RoundTrips (seq : Nat) (items : List LogItem) (cut k : Nat) : Prop :=
  let log := logThread seq items
  let dir := log.crashImage cut k
  log.entries.map LogEntry.item = items ∧
    replayItems dir seq 0 =
      (log.entries.filter fun e => e.containedIn dir).map (fun e => (e.seq, e.scanned)) ∧
    ∀ seg ∈ log.segments, logSegmentSize < seg.bytes.length → seg.entries.length = 1

variable {dir : JournalDir}

/-- Files with consecutive numbers are found by their numbers. -/
theorem JournalDir.file_consecutive {start : Nat}
    (h : dir.map Prod.fst = List.range' start dir.length) (i : Nat) :
    dir.file (start + i) = dir[i]?.map Prod.snd := by
  induction dir generalizing start i with
  | nil => rfl
  | cons f dir ih =>
    simp only [map_cons, length_cons, range'_succ, List.cons.injEq] at h
    obtain ⟨hhead, htail⟩ := h
    cases i with
    | zero =>
      have heq : (start == f.1) = true := by simp [hhead]
      simp [JournalDir.file, List.lookup, heq]
    | succ i =>
      have hne : (start + (i + 1) == f.1) = false := by
        rw [hhead]
        simp
      have hrec := ih htail i
      simp only [JournalDir.file] at hrec
      rw [show start + 1 + i = start + (i + 1) by omega] at hrec
      simp [JournalDir.file, List.lookup, hne, hrec]

/-- The loop over consecutively numbered files concatenates what it finds in each. -/
theorem scanFiles_consecutive {start : Nat} (h : dir.map Prod.fst = List.range' start dir.length)
    (fuel i : Nat) (hfuel : dir.length < fuel + i) :
    scanFiles dir fuel (start + i) 0 =
      ((dir.drop i).map fun f =>
        (journalItems f.2 0).map fun item => (f.1, item)).flatten := by
  induction fuel generalizing i with
  | zero =>
    rw [drop_eq_nil_of_le (by omega)]
    rfl
  | succ fuel ih =>
    rw [scanFiles, JournalDir.file_consecutive h i]
    by_cases hi : i < dir.length
    · have hnum : dir[i].1 = start + i := by
        have hget := congrArg (fun l : List Nat => l[i]?) h
        simp only [getElem?_map, getElem?_range' hi, getElem?_eq_getElem hi] at hget
        simpa using hget
      rw [getElem?_eq_getElem hi, drop_eq_getElem_cons hi,
        show start + i + 1 = start + (i + 1) by omega]
      simp only [Option.map_some, map_cons, flatten_cons, ih (i + 1) (by omega), hnum]
    · rw [getElem?_eq_none (by omega), drop_eq_nil_of_le (by omega)]
      rfl

theorem JournalDir.file_of_mem {start : Nat} {buf : Bytes}
    (h : dir.map Prod.fst = List.range' start dir.length) (hmem : (seq, buf) ∈ dir) :
    dir.file seq = some buf := by
  obtain ⟨i, hi, hget⟩ := mem_iff_getElem.mp hmem
  have hnum := congrArg (fun l : List Nat => l[i]?) h
  simp only [getElem?_map, getElem?_range' hi, getElem?_eq_getElem hi, hget] at hnum
  have hseq : seq = start + i := by simpa using hnum
  rw [hseq, JournalDir.file_consecutive h i, getElem?_eq_getElem hi, hget]
  rfl

theorem Log.WellFormed.crashImage_seqs {start : Nat} {log : Log} (h : log.WellFormed start)
    (cut k : Nat) :
    (log.crashImage cut k).map Prod.fst = List.range' start (log.crashImage cut k).length := by
  have hseqs := h.seqs
  simp only [Log.segments, map_append, map_cons, map_nil, length_append, length_singleton] at hseqs
  simpa [Log.crashImage, Function.comp_def] using hseqs

/-- The part of the scan that falls into one segment. -/
theorem Segment.WellFormed.scan {seg : Segment} (h : seg.WellFormed)
    (hsize : ∀ e ∈ seg.entries, e.item.size < 2 ^ 32)
    (hfile : dir.file seg.seq = some (seg.bytes.take cut ++ zeros k)) :
    (journalItems (seg.bytes.take cut ++ zeros k) 0).map (fun item => (seg.seq, item)) =
      (seg.entries.filter fun e => e.containedIn dir).map (fun e => (e.seq, e.scanned)) := by
  have hfilter : (seg.entries.filter fun e => e.containedIn dir) =
      seg.entries.filter fun e =>
        HoldsRecord (seg.bytes.take cut ++ zeros k) e.offset e.item := by
    apply filter_congr
    intro e he
    simp only [LogEntry.containedIn, h.laid.seq_eq e he, hfile]
  rw [journalItems_torn h hsize, hfilter, map_map]
  apply map_congr_left
  intro e he
  simp [h.laid.seq_eq e (mem_of_mem_filter he)]

theorem Segment.file_eq (seg : Segment) :
    seg.file = seg.bytes.take seg.bytes.length ++ zeros (logSegmentSize - seg.bytes.length) := by
  rw [take_length, Segment.file]

/-- The scan of the journal directory finds the records still contained. -/
theorem Log.WellFormed.scan {start : Nat} {log : Log} (h : log.WellFormed start)
    (hsize : ∀ e ∈ log.entries, e.item.size < 2 ^ 32) (cut k : Nat) :
    replayItems (log.crashImage cut k) start 0 =
      (log.entries.filter fun e => e.containedIn (log.crashImage cut k)).map
        (fun e => (e.seq, e.scanned)) := by
  have hseqs := h.crashImage_seqs cut k
  have hsizes : ∀ seg ∈ log.segments, ∀ e ∈ seg.entries, e.item.size < 2 ^ 32 := by
    intro seg hseg e he
    exact hsize e (mem_flatten.mpr ⟨_, mem_map_of_mem hseg, he⟩)
  have hscan : scanFiles (log.crashImage cut k) ((log.crashImage cut k).length + 1) start 0 =
      _ := scanFiles_consecutive hseqs _ 0 (by omega)
  rw [replayItems, hscan, drop_zero, Log.entries, filter_flatten,
    map_flatten, map_map, map_map, Log.segments, Log.crashImage,
    map_append, map_append, map_map, ← Log.crashImage]
  congr 2
  · apply map_congr_left
    intro seg hseg
    have hmem : seg ∈ log.segments := mem_append_left _ hseg
    have hfile : (log.crashImage cut k).file seg.seq = some seg.file :=
      JournalDir.file_of_mem hseqs (mem_append_left _ (mem_map_of_mem hseg))
    rw [seg.file_eq] at hfile
    simpa [seg.file_eq] using (h.segments seg hmem).scan (hsizes seg hmem) hfile
  · have hmem : log.current ∈ log.segments := by simp [Log.segments]
    have hfile : (log.crashImage cut k).file log.current.seq =
        some (log.current.bytes.take cut ++ zeros k) :=
      JournalDir.file_of_mem hseqs (by simp [Log.crashImage])
    simpa using (h.segments _ hmem).scan (hsizes _ hmem) hfile

/-- Whatever survives of the open segment, the scan of the journal finds exactly the
records still contained, provided every record is shorter than 2^32 bytes. -/
theorem replayItems_crashImage (seq : Nat) (items : List LogItem) (cut k : Nat)
    (hsize : ∀ item ∈ items, item.size < 2 ^ 32) : RoundTrips seq items cut k := by
  have hitems := logThread_items seq items
  refine ⟨hitems, ?_, logThread_single_of_oversized seq items⟩
  apply (logThread_wellFormed seq items).scan
  intro e he
  apply hsize
  rw [← hitems]
  exact mem_map_of_mem he

/-- A data block and the inode that links it, the second torn inside its footer. -/
theorem replayItems_crashImage_torn_inode :
    RoundTrips 3
      [{ type := .data, id := 7, inum := 2, data := [1, 2, 3], links := [] },
        { type := .inode, id := 8, inum := 2, data := [9],
          links := [none, some { id := 7, location := ⟨0, 0, 0, 0⟩ }] }] 150 40 :=
  replayItems_crashImage 3 _ 150 40 (by decide)

/-! ## Records of 2^32 bytes and more

The writer adds the section lengths as `size_t`; the validator adds the header
fields as `uint32_t` and hands the sum to a checksum function whose length is an
`unsigned int`. -/

-- the length stays a variable, so that nothing computes with a list of that length
variable {n : Nat}

theorem zeroItem_fits (hn : n = 2 ^ 32 - 10) : (zeroItem n).Fits where
  data_lt := by
    rw [zeroItem, length_zeros, hn]
    decide
  linkIds_lt := by simp [LogItem.linkIds, zeroItem]
  linkLocations_lt := by simp [LogItem.linkLocations, zeroItem]

theorem zeroItem_header (hn : n = 2 ^ 32 - 10) : (zeroItem n).header 0 =
    { magic := headerMagic, type := LogType.data.octet, offset := 0,
      size1 := 0xfffffff6#32, size2 := 0, size3 := 0, inum := 0, id := 0 } := by
  have hsize : BitVec.ofNat 32 n = 0xfffffff6#32 := by
    rw [hn]
    decide
  simp [LogItem.header, zeroItem, LogItem.linkIds, LogItem.linkLocations, hsize]

/-- A record that was written whole, and of which the validator looks at 43 bytes. -/
theorem validateJournalItem_zeroItem (hn : n = 2 ^ 32 - 10) {buf : Bytes}
    (h : HoldsRecord buf 0 (zeroItem n)) : validateJournalItem buf 0 = false := by
  rw [Bool.eq_false_iff]
  intro hvalid
  obtain ⟨-, -, -, -, hcrc⟩ := (validateJournalItem_iff _ _).mp hvalid
  have hbody : ((zeroItem n).header 0).bodySize = 2 ^ 32 - 10 := by
    rw [zeroItem_header hn]
    decide
  have hlength : (logHeaderSize + logFooterSize + (2 ^ 32 - 10)) % 2 ^ 32 = 43 := by decide
  have hseen : slice buf 0 43 = ((zeroItem n).header 0).toBytes.take 43 := by
    have hpos := (zeroItem n).size_pos
    simp only [logHeaderSize, logFooterSize] at hpos
    rw [← Nat.add_zero 0, ← @slice_slice buf 0 (zeroItem n).size 0 43 (by omega), h,
      (zeroItem n).record_sections, slice_append_left _ (by simp [logHeaderSize])]
    rfl
  rw [h.header_eq, hbody, crc32c, hlength, drop_zero] at hcrc
  change CrcLib.run crc32cEntry crc32cSeed (slice buf 0 43) = _ at hcrc
  rw [hseen, zeroItem_header hn] at hcrc
  revert hcrc
  decide +kernel

/-- The journal after a single item. -/
theorem logThread_singleton (seq : Nat) (item : LogItem) :
    logThread seq [item] =
      { closed := []
        current :=
          { seq := seq
            bytes := item.record 0
            entries := [{ seq := seq, offset := 0, item := item }] } } := by
  rcases logWrite_cases (Log.start seq) item with ⟨-, heq⟩ | ⟨hrot, -⟩
  · rw [logThread, foldl_cons, foldl_nil, heq]
    simp only [Log.start, Segment.append]
    rw [nil_append, nil_append, length_nil]
  · exact absurd hrot (by simp [Log.start, needsRotation])

/-- The scan loses a record that survives whole but is not accepted. -/
theorem not_roundTrips_of_rejected {item : LogItem}
    (hheld : HoldsRecord ((item.record 0).take cut ++ zeros k) 0 item)
    (hinvalid : validateJournalItem ((item.record 0).take cut ++ zeros k) 0 = false) :
    ¬ RoundTrips seq [item] cut k := by
  rintro ⟨-, hscan, -⟩
  have hnone := scanJournal_of_invalid hinvalid
  rw [logThread_singleton] at hscan
  generalize hbuf : (item.record 0).take cut ++ zeros k = buf at hheld hnone
  have hdir : Log.crashImage
      { closed := []
        current :=
          { seq := seq
            bytes := item.record 0
            entries := [{ seq := seq, offset := 0, item := item }] } } cut k =
      [(seq, buf)] := by
    rw [← hbuf]
    simp only [Log.crashImage, map_nil, nil_append]
  rw [hdir] at hscan
  have hlen := congrArg List.length hscan
  have hlast : List.lookup (seq + 1) [(seq, buf)] = none := by
    have hne : (seq + 1 == seq) = false := by simp
    simp [List.lookup, hne]
  simp [replayItems, scanFiles, JournalDir.file, journalItems, hnone, Log.entries,
    Log.segments, LogEntry.containedIn, hheld, hlast] at hlen

theorem holdsRecord_whole (item : LogItem) :
    HoldsRecord ((item.record 0).take item.size ++ zeros 0) 0 item := by
  have htake : (item.record 0).take item.size = item.record 0 :=
    take_of_length_le (by rw [LogItem.length_record])
  rw [htake, HoldsRecord, slice_append_left _ (by rw [LogItem.length_record]; omega),
    ← LogItem.length_record item 0, slice_zero_length]

/-- The fields of the header can hold sections that the scan cannot. -/
theorem exists_fits_not_roundTrips :
    ¬ ∀ (seq : Nat) (items : List LogItem) (cut k : Nat),
      (∀ item ∈ items, item.Fits) → RoundTrips seq items cut k := by
  intro hall
  have hfits : ∀ item ∈ [zeroItem (2 ^ 32 - 10)], item.Fits := by
    intro item hitem
    rw [mem_singleton.mp hitem]
    exact zeroItem_fits rfl
  have hheld := holdsRecord_whole (zeroItem (2 ^ 32 - 10))
  exact not_roundTrips_of_rejected hheld (validateJournalItem_zeroItem rfl hheld)
    (hall 0 _ _ 0 hfits)

end BlueSky
