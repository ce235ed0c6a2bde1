import BlueSky.Format

/-!
# Scanning journal files

The validation of a single record and the two loops of the replay code: over the
records of one file, and over the files of the journal directory in order of
their sequence numbers.

Main results:

- Theorem {lit}`validateJournalItem_iff`: what a record must satisfy to be
  accepted.
- Theorem {lit}`validateJournalItem_false_of_zeros`: zero bytes are no record.
-/

namespace BlueSky

open ByteLib

/-- The sum of the three size fields.  The C expression adds `uint32_t` values, so
it wraps before it is widened to `size_t`. -/
def LogHeader.bodySize (h : LogHeader) : Nat :=
  (h.size1 + h.size2 + h.size3).toNat

/-- `validate_journal_item`. -/
def validateJournalItem (buf : Bytes) (offset : Nat) : Bool :=
  if buf.length < offset + logHeaderSize + logFooterSize then false
  else
    let header := LogHeader.ofBytes (buf.drop offset)
    if header.magic ≠ headerMagic then false
    else if header.offset.toNat ≠ offset then false
    else
      let size := header.bodySize
      let footerOffset := offset + logHeaderSize + size
      if buf.length < footerOffset + logFooterSize then false
      else if readField 32 4 buf footerOffset ≠ footerMagic then false
      else
        let crc := crc32c crc32cSeed (buf.drop offset) (logHeaderSize + logFooterSize + size)
        crc = crc32cValidator

/-- A record as the replay loop sees it. -/
structure ScannedItem where
  offset : Nat
  type : Int
  inum : BitVec 64
  id : CloudId
  data1 : Bytes
  data2 : Bytes
  data3 : Bytes
deriving DecidableEq, Repr

/-- The record at an offset, cut up as its header says. -/
def scannedItem (buf : Bytes) (offset : Nat) : ScannedItem :=
  let header := LogHeader.ofBytes (buf.drop offset)
  let data := offset + logHeaderSize
  { offset := offset
    type := typeOfOctet header.type
    inum := header.inum
    id := header.id
    data1 := slice buf data header.size1.toNat
    data2 := slice buf (data + header.size1.toNat) header.size2.toNat
    data3 := slice buf (data + header.size1.toNat + header.size2.toNat)
      header.size3.toNat }

/-- The loop `while (validate_journal_item(buf, len, offset))`, shared by
`bluesky_replay_scan_journal` and `bluesky_replay_scan_journal2`.  An accepted
record moves the offset on, so a fuel of the length of the file never runs out. -/
def scanJournal (buf : Bytes) : Nat → Nat → List ScannedItem
  | 0, _ => []
  | fuel + 1, offset =>
    if validateJournalItem buf offset then
      let size := (LogHeader.ofBytes (buf.drop offset)).bodySize
      scannedItem buf offset ::
        scanJournal buf fuel (offset + logHeaderSize + size + logFooterSize)
    else []

/-- The records of one file from an offset on. -/
def journalItems (buf : Bytes) (offset : Nat) : List ScannedItem :=
  scanJournal buf buf.length offset

/-- Files of the journal directory with their numbers. -/
abbrev JournalDir := List (Nat × Bytes)

/-- The contents of `journal-N`, if the file exists. -/
def JournalDir.file (dir : JournalDir) (seq : Nat) : Option Bytes :=
  dir.lookup seq

/-- The forward loop of `bluesky_replay`: read the files from a starting point on
until one is missing. -/
def scanFiles (dir : JournalDir) : Nat → Nat → Nat → List (Nat × ScannedItem)
  | 0, _, _ => []
  | fuel + 1, seq, offset =>
    match dir.file seq with
    | none => []
    | some buf =>
      (journalItems buf offset).map (fun item => (seq, item)) ++ scanFiles dir fuel (seq + 1) 0

/-- All records found from a starting point on.  The loop stops at the first
missing file, hence after at most as many files as there are. -/
def replayItems (dir : JournalDir) (seq offset : Nat) : List (Nat × ScannedItem) :=
  scanFiles dir (dir.length + 1) seq offset

/-! ## Conditions for acceptance -/

theorem validateJournalItem_iff (buf : Bytes) (offset : Nat) :
    validateJournalItem buf offset = true ↔
      let header := LogHeader.ofBytes (buf.drop offset)
      let footerOffset := offset + logHeaderSize + header.bodySize
      header.magic = headerMagic ∧ header.offset.toNat = offset ∧
        footerOffset + logFooterSize ≤ buf.length ∧
        readField 32 4 buf footerOffset = footerMagic ∧
        crc32c crc32cSeed (buf.drop offset)
          (logHeaderSize + logFooterSize + header.bodySize) = crc32cValidator := by
  simp only [validateJournalItem]
  constructor
  · intro h
    split_ifs at h with h1 h2 h3 h4 h5
    exact ⟨not_not.mp h2, not_not.mp h3, Nat.le_of_not_lt h4, not_not.mp h5, of_decide_eq_true h⟩
  · rintro ⟨hmagic, hoffset, hlen, hfooter, hcrc⟩
    have hshort : ¬ buf.length < offset + logHeaderSize + logFooterSize := by omega
    have hlong := Nat.not_lt.mpr hlen
    simp [hshort, hmagic, hoffset, hlong, hfooter, hcrc]

/-- Where a file holds only zeros there is no record. -/
theorem validateJournalItem_false_of_zeros {buf : Bytes} {offset : Nat}
    (h : ∀ b ∈ slice buf offset 4, b = 0) : validateJournalItem buf offset = false := by
  rw [Bool.eq_false_iff]
  intro hvalid
  have hmagic := ((validateJournalItem_iff buf offset).mp hvalid).1
  have hzero : (LogHeader.ofBytes (buf.drop offset)).magic = 0#32 := by
    have hslice : slice (buf.drop offset) 0 4 = slice buf offset 4 := by
      simp [slice]
    simp only [LogHeader.ofBytes, readField, hslice, leNat_eq_zero h]
  rw [hzero] at hmagic
  exact absurd hmagic (by decide)

/-- The loop stops where validation fails. -/
theorem scanJournal_of_invalid {buf : Bytes} {offset : Nat}
    (h : validateJournalItem buf offset = false) (fuel : Nat) :
    scanJournal buf fuel offset = [] := by
  cases fuel with
  | zero => rfl
  | succ fuel => simp [scanJournal, h]

end BlueSky
