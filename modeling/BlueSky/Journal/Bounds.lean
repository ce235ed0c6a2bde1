import BlueSky.Journal.RoundTrip
import BlueSky.Lib.Loop

/-!
# What the journal scans read

The two loops over a journal file read the sections of every record that
`validate_journal_item` accepts.  The sizes of the sections are added in 32 bits where a record is
validated, and where the loops step to the next one; the sections are read with their own sizes.

Main results:

- Theorem {lit}`recordBounds_iff`: when the sections of a record lie inside it.
- Theorem {lit}`journal_scan_bounds`: the loops end, and their accesses are in bounds as long as
  the sizes do not wrap around.
-/

namespace BlueSky

open List ByteLib LoopLib StateTransition

/-! ## The loops -/

/-- Where the record at an offset ends, as far as the loops are concerned. -/
def recordEnd (buf : Bytes) (offset : Nat) : Nat :=
  offset + logHeaderSize + (LogHeader.ofBytes (buf.drop offset)).bodySize + logFooterSize

/-- One round of the loop `while (validate_journal_item(buf, len, offset))`. -/
def scanStep (buf : Bytes) (offset : Nat) : Option Nat :=
  if validateJournalItem buf offset then some (recordEnd buf offset) else none

section Loops

variable {buf : Bytes} {offset : Nat}

theorem mem_scanStep {next : Nat} :
    next ∈ scanStep buf offset ↔
      validateJournalItem buf offset = true ∧ next = recordEnd buf offset := by
  rw [scanStep]
  split_ifs with hvalid
  · rw [Option.mem_some_iff, and_iff_right hvalid, eq_comm]
  · exact iff_of_false (by simp) fun hboth => hvalid hboth.1

/-- A record that is accepted ends inside the buffer. -/
theorem recordEnd_le (h : validateJournalItem buf offset = true) :
    recordEnd buf offset ≤ buf.length :=
  ((validateJournalItem_iff buf offset).mp h).2.2.1

/-- What is left of the buffer decreases with every record. -/
theorem scanStep_decreases {next : Nat} (h : next ∈ scanStep buf offset) :
    buf.length - next < buf.length - offset := by
  rcases mem_scanStep.mp h with ⟨hvalid, rfl⟩
  have hle := recordEnd_le hvalid
  rw [recordEnd, logHeaderSize, logFooterSize] at hle ⊢
  omega

/-- The loop ends on every buffer. -/
theorem scanStep_dom (buf : Bytes) (offset : Nat) : (eval (scanStep buf) offset).Dom :=
  dom_of_measure (fun offset => buf.length - offset) fun _ _ _ h => scanStep_decreases h

end Loops

/-! ## Bounds -/

/-- The sizes of the three sections, added as integers. -/
def LogHeader.sectionsSize (header : LogHeader) : Nat :=
  header.size1.toNat + header.size2.toNat + header.size3.toNat

/-- What the loops read of the record at an offset: where each access begins, and how many bytes
it is.  `bluesky_replay_scan_journal` reads two words of a checkpoint record, `reload_item` the
identifiers of the links, and `bluesky_replay_scan_journal2` copies the first section. -/
def recordAccesses (buf : Bytes) (offset : Nat) : List (Nat × Nat) :=
  let header := LogHeader.ofBytes (buf.drop offset)
  let data := offset + logHeaderSize
  (if typeOfOctet header.type = LogType.journalCheckpoint.code then [(data, 4), (data + 4, 4)]
    else []) ++
  (List.range (header.size2.toNat / 16)).map (fun i => (data + header.size1.toNat + 16 * i, 16)) ++
  [(data, header.size1.toNat)]

/-- The sections of the record at an offset fit between the offset and the end of the buffer, they
lie inside the record, and so does what is read of it. -/
structure RecordBounds (buf : Bytes) (offset : Nat) : Prop where
  fits : offset + logHeaderSize + (LogHeader.ofBytes (buf.drop offset)).sectionsSize +
    logFooterSize ≤ buf.length
  sections : offset + logHeaderSize + (LogHeader.ofBytes (buf.drop offset)).sectionsSize ≤
    recordEnd buf offset
  accesses : ∀ access ∈ recordAccesses buf offset,
    offset ≤ access.1 ∧ access.1 + access.2 ≤ recordEnd buf offset

section Bounds

variable {buf : Bytes} {offset : Nat} {header : LogHeader}

theorem LogHeader.bodySize_eq (header : LogHeader) :
    header.bodySize = header.sectionsSize % 2 ^ 32 := by
  rw [bodySize, sectionsSize, BitVec.toNat_add, BitVec.toNat_add, Nat.mod_add_mod]

/-- Nothing is read behind the sections, but for the words of a checkpoint, which are as long as
the footer. -/
theorem recordAccesses_le {access : Nat × Nat} (h : access ∈ recordAccesses buf offset) :
    offset ≤ access.1 ∧
      (access.1 + access.2 ≤ offset + logHeaderSize + logFooterSize ∨
        access.1 + access.2 ≤
          offset + logHeaderSize + (LogHeader.ofBytes (buf.drop offset)).sectionsSize) := by
  rw [recordAccesses, mem_append, mem_append] at h
  rw [LogHeader.sectionsSize, logHeaderSize, logFooterSize] at *
  rcases h with (hwords | hids) | hdata
  · split_ifs at hwords
    · simp only [mem_cons, not_mem_nil, or_false] at hwords
      rcases hwords with rfl | rfl
      · dsimp only
        omega
      · dsimp only
        omega
    · cases hwords
  · rcases mem_map.mp hids with ⟨i, hi, rfl⟩
    have hlt := mem_range.mp hi
    dsimp only
    omega
  · rw [mem_singleton.mp hdata]
    dsimp only
    omega

/-- The sections of a record that is accepted lie inside it exactly if their sizes do not wrap
around when they are added. -/
theorem recordBounds_iff (h : validateJournalItem buf offset = true) :
    RecordBounds buf offset ↔ (LogHeader.ofBytes (buf.drop offset)).sectionsSize < 2 ^ 32 := by
  have hle := recordEnd_le h
  have hbody := (LogHeader.ofBytes (buf.drop offset)).bodySize_eq
  constructor
  · intro hbounds
    have hsections := hbounds.sections
    rw [recordEnd, hbody, logFooterSize] at hsections
    omega
  · intro hlt
    rw [Nat.mod_eq_of_lt hlt] at hbody
    rw [recordEnd, hbody] at hle
    refine ⟨hle, ?_, ?_⟩
    · rw [recordEnd, hbody]
      exact Nat.le_add_right _ _
    · intro access haccess
      rcases recordAccesses_le haccess with ⟨hstart, hend⟩
      refine ⟨hstart, ?_⟩
      rw [recordEnd, hbody]
      omega

end Bounds

/-- Both loops end on every buffer, wherever they start; and at every record that they come to,
what they read is in bounds exactly if the sizes of the sections add up to less than 2^32. -/
theorem journal_scan_bounds (buf : Bytes) (start : Nat) :
    (eval (scanStep buf) start).Dom ∧
      ∀ offset, StateTransition.Reaches (scanStep buf) start offset →
        validateJournalItem buf offset = true →
        (RecordBounds buf offset ↔ (LogHeader.ofBytes (buf.drop offset)).sectionsSize < 2 ^ 32) :=
  ⟨scanStep_dom buf start, fun _ _ hvalid => recordBounds_iff hvalid⟩

/-- The record of an inode with two bytes of data and a link. -/
def linkedRecord : Bytes :=
  LogItem.record
    { type := .inode, id := 7, inum := 2, data := [0x68, 0x69]
      links := [some ⟨9, ⟨0, 1, 0, 120⟩⟩] } 0

/-- A record with two bytes of data and one link. -/
theorem journal_scan_bounds_linked :
    validateJournalItem linkedRecord 0 = true ∧
      recordAccesses linkedRecord 0 = [(47, 16), (45, 2)] ∧ RecordBounds linkedRecord 0 := by
  have hvalid : validateJournalItem linkedRecord 0 = true := by
    decide +kernel
  exact ⟨hvalid, by decide +kernel,
    ((journal_scan_bounds _ 0).2 0 .refl hvalid).mpr (by decide +kernel)⟩

/-- A record with a header, empty sections and a footer. -/
def bareRecord (header : LogHeader) : Bytes :=
  let covered := header.toBytes ++ leBytes 4 footerMagic.toNat
  covered ++ leBytes 4 (crc32cFinalize (crc32c crc32cSeed covered covered.length)).toNat

/-- A header whose sizes add up to zero in 32 bits. -/
def wrappedHeader : LogHeader :=
  ⟨headerMagic, LogType.data.octet, 0, 0xffffffff, 1, 0, 2, 9⟩

/-- A record of 53 bytes is accepted, and four gigabytes are copied from it. -/
theorem wrapped_record_accepted :
    validateJournalItem (bareRecord wrappedHeader) 0 = true ∧
      (bareRecord wrappedHeader).length = 53 ∧
      (45, 2 ^ 32 - 1) ∈ recordAccesses (bareRecord wrappedHeader) 0 := by
  decide +kernel

end BlueSky
