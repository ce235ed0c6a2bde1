import BlueSky.Format

/-!
# The journal writer

`log_thread` takes items off its queue and appends one record for each to the
open journal segment, rotating to a new segment when a record would reach the
segment size.  The segments are modelled with the bytes written to them and with
the (sequence, offset) pairs that the thread records in the items.

Main results:

- Theorem {lit}`logThread_items`: the entries are the items written, in order.
- Theorem {lit}`logThread_wellFormed`: records lie back to back in every segment,
  at the offsets recorded for them.
- Theorem {lit}`logThread_single_of_oversized`: a segment longer than the segment
  size holds a single record.
-/

namespace BlueSky

open List ByteLib

/-- `LOG_SEGMENT_SIZE`. -/
def logSegmentSize : Nat := 2 ^ 22

/-- An item together with the location `log_thread` recorded for it. -/
structure LogEntry where
  seq : Nat
  offset : Nat
  item : LogItem
deriving DecidableEq, Repr

/-- A journal segment: its number, the bytes written to it, and its entries. -/
structure Segment where
  seq : Nat
  bytes : Bytes
  entries : List LogEntry
deriving DecidableEq, Repr

/-- The journal: closed segments, oldest first, and the open one. -/
structure Log where
  closed : List Segment
  current : Segment
deriving DecidableEq, Repr

/-- All segments in order of their numbers. -/
def Log.segments (log : Log) : List Segment :=
  log.closed ++ [log.current]

/-- All entries in the order in which they were written. -/
def Log.entries (log : Log) : List LogEntry :=
  (log.segments.map Segment.entries).flatten

/-- The journal when the first segment has just been opened. -/
def Log.start (seq : Nat) : Log where
  closed := []
  current := { seq := seq, bytes := [], entries := [] }

/-- Whether `log_thread` opens a new segment before a record of the given size.
Only a record at the start of a segment may exceed the segment size. -/
def needsRotation (offset size : Nat) : Bool :=
  logSegmentSize ≤ offset + size && 0 < offset

/-- `log_open` on an open journal: close the segment and start the next. -/
def logOpen (log : Log) : Log where
  closed := log.closed ++ [log.current]
  current := { seq := log.current.seq + 1, bytes := [], entries := [] }

/-- Append one record to a segment and record its location. -/
def Segment.append (seg : Segment) (item : LogItem) : Segment where
  seq := seg.seq
  bytes := seg.bytes ++ item.record seg.bytes.length
  entries := seg.entries ++
    [{ seq := seg.seq, offset := seg.bytes.length, item := item }]

/-- One iteration of `log_thread`. -/
def logWrite (log : Log) (item : LogItem) : Log :=
  let log := if needsRotation log.current.bytes.length item.size then logOpen log else log
  { log with current := log.current.append item }

/-- The journal after `log_thread` has written the given items. -/
def logThread (seq : Nat) (items : List LogItem) : Log :=
  items.foldl logWrite (Log.start seq)

/-! ## What one iteration does -/

/-- The segment an item goes to: the open one, or a fresh one after rotation. -/
theorem logWrite_cases (log : Log) (item : LogItem) :
    (needsRotation log.current.bytes.length item.size = false ∧
      logWrite log item = { closed := log.closed, current := log.current.append item }) ∨
    (needsRotation log.current.bytes.length item.size = true ∧
      logWrite log item =
        { closed := log.closed ++ [log.current]
          current := ({ seq := log.current.seq + 1, bytes := [], entries := [] } :
            Segment).append item }) := by
  unfold logWrite
  cases h : needsRotation log.current.bytes.length item.size with
  | false => exact Or.inl ⟨rfl, by simp⟩
  | true => exact Or.inr ⟨rfl, by simp [logOpen]⟩

@[simp]
theorem Segment.append_seq (seg : Segment) (item : LogItem) :
    (seg.append item).seq = seg.seq :=
  rfl

theorem Segment.append_items (seg : Segment) (item : LogItem) :
    (seg.append item).entries.map LogEntry.item = seg.entries.map LogEntry.item ++ [item] := by
  simp [Segment.append]

/-- An iteration adds its item at the end. -/
theorem logWrite_items (log : Log) (item : LogItem) :
    (logWrite log item).entries.map LogEntry.item = log.entries.map LogEntry.item ++ [item] := by
  rcases logWrite_cases log item with ⟨-, h⟩ | ⟨-, h⟩
  · rw [h]
    simp only [Log.entries, Log.segments, map_append, map_cons, map_nil,
      flatten_append, flatten_cons, flatten_nil, append_nil,
      append_assoc, Segment.append_items]
  · rw [h]
    simp only [Log.entries, Log.segments, map_append, map_cons, map_nil,
      flatten_append, flatten_cons, flatten_nil, append_nil,
      append_assoc, nil_append, Segment.append_items]

/-- The entries are the items written, in order. -/
theorem logThread_items (seq : Nat) (items : List LogItem) :
    (logThread seq items).entries.map LogEntry.item = items := by
  have run : ∀ (log : Log), (items.foldl logWrite log).entries.map LogEntry.item =
      log.entries.map LogEntry.item ++ items := by
    induction items with
    | nil => simp
    | cons item items ih =>
      intro log
      rw [foldl_cons, ih, logWrite_items]
      simp
  simpa [logThread, Log.start, Log.entries, Log.segments] using run (Log.start seq)

/-! ## Layout of a segment -/

/-- Entries that lie back to back from a file offset on, with their bytes. -/
inductive Laid (seq : Nat) : Nat → List LogEntry → Bytes → Prop
  | nil (off : Nat) : Laid seq off [] []
  | cons {off : Nat} {item : LogItem} {es : List LogEntry} {bs : Bytes}
      (rest : Laid seq (off + item.size) es bs) :
      Laid seq off ({ seq := seq, offset := off, item := item } :: es) (item.record off ++ bs)

variable {seq : Nat} {es : List LogEntry} {bs : Bytes}

theorem Laid.snoc {off : Nat} (h : Laid seq off es bs) (item : LogItem) :
    Laid seq off (es ++ [{ seq := seq, offset := off + bs.length, item := item }])
      (bs ++ item.record (off + bs.length)) := by
  induction h with
  | nil off =>
    rw [nil_append, nil_append, length_nil, Nat.add_zero]
    rw [← append_nil (item.record off)]
    exact Laid.cons (Laid.nil (off + item.size))
  | @cons off first es bs _ ih =>
    have hlen : off + (first.record off ++ bs).length = off + first.size + bs.length := by
      simp [Nat.add_assoc]
    rw [hlen, append_assoc, cons_append]
    exact Laid.cons ih

/-- Entries of a laid-out segment carry its number. -/
theorem Laid.seq_eq {off : Nat} (h : Laid seq off es bs) : ∀ e ∈ es, e.seq = seq := by
  induction h with
  | nil off => simp
  | cons _ ih =>
    intro e he
    rcases mem_cons.mp he with rfl | he
    · rfl
    · exact ih e he

/-- A record is never empty, so no bytes means no entries. -/
theorem Laid.eq_nil_of_length_zero {off : Nat} (h : Laid seq off es bs) (hbs : bs.length = 0) :
    es = [] := by
  cases h with
  | nil off => rfl
  | @cons off item es bs _ =>
    have hpos := item.size_pos
    simp only [length_append, LogItem.length_record] at hbs
    simp only [logHeaderSize] at hpos
    omega

/-- A segment as the writer leaves it: records back to back, each starting below
the segment size, and below that size altogether unless there is only one. -/
structure Segment.WellFormed (seg : Segment) : Prop where
  laid : Laid seg.seq 0 seg.entries seg.bytes
  offset_lt : ∀ e ∈ seg.entries, e.offset < logSegmentSize
  single : logSegmentSize ≤ seg.bytes.length → seg.entries.length = 1

theorem Segment.wellFormed_empty (seq : Nat) :
    ({ seq := seq, bytes := [], entries := [] } : Segment).WellFormed where
  laid := Laid.nil 0
  offset_lt := by simp
  single := by simp [logSegmentSize]

theorem Segment.WellFormed.append {seg : Segment} (h : seg.WellFormed) {item : LogItem}
    (hrot : needsRotation seg.bytes.length item.size = false) :
    (seg.append item).WellFormed := by
  have hfit : seg.bytes.length = 0 ∨ seg.bytes.length + item.size < logSegmentSize := by
    simp only [needsRotation, Bool.and_eq_false_iff, decide_eq_false_iff_not] at hrot
    omega
  have hsize : (seg.append item).bytes.length = seg.bytes.length + item.size := by
    simp [Segment.append]
  refine ⟨?_, ?_, ?_⟩
  · simpa [Segment.append] using h.laid.snoc item
  · intro e he
    simp only [Segment.append, mem_append, mem_singleton] at he
    rcases he with he | rfl
    · exact h.offset_lt e he
    · have hpos : 0 < logSegmentSize := by decide
      rcases hfit with hzero | hlt
      · simpa [hzero] using hpos
      · exact Nat.lt_of_le_of_lt (Nat.le_add_right _ _) hlt
  · intro hlong
    rw [hsize] at hlong
    rcases hfit with hzero | hlt
    · have hempty : seg.entries = [] := h.laid.eq_nil_of_length_zero hzero
      simp [Segment.append, hempty]
    · omega

/-! ## The whole run -/

/-- The journal as the writer leaves it: consecutive, well-formed segments. -/
structure Log.WellFormed (start : Nat) (log : Log) : Prop where
  seqs : log.segments.map Segment.seq = List.range' start log.segments.length
  segments : ∀ seg ∈ log.segments, seg.WellFormed

theorem Log.wellFormed_start (seq : Nat) : (Log.start seq).WellFormed seq where
  seqs := by simp [Log.start, Log.segments]
  segments := by
    intro seg hseg
    simp only [Log.start, Log.segments, nil_append, mem_singleton] at hseg
    subst hseg
    exact Segment.wellFormed_empty seq

/-- The number of the open segment is the last of the consecutive numbers. -/
theorem Log.WellFormed.current_seq {start : Nat} {log : Log} (h : log.WellFormed start) :
    log.current.seq = start + log.closed.length := by
  have hseqs := h.seqs
  simp only [Log.segments, map_append, map_cons, map_nil,
    length_append, length_singleton, range'_concat, Nat.one_mul] at hseqs
  have hlast := (append_inj' hseqs rfl).2
  simpa using hlast

theorem Log.WellFormed.logWrite {start : Nat} {log : Log} (h : log.WellFormed start)
    (item : LogItem) : (logWrite log item).WellFormed start := by
  rcases logWrite_cases log item with ⟨hrot, heq⟩ | ⟨-, heq⟩
  · rw [heq]
    refine ⟨by simpa [Log.segments] using h.seqs, ?_⟩
    intro seg hseg
    rcases mem_append.mp hseg with hclosed | hcur
    · exact h.segments seg (mem_append_left _ hclosed)
    · rw [mem_singleton.mp hcur]
      exact (h.segments log.current (by simp [Log.segments])).append hrot
  · rw [heq]
    refine ⟨?_, ?_⟩
    · have hseqs := h.seqs
      have hcur := h.current_seq
      simp only [Log.segments, map_append, map_cons, map_nil,
        length_append, length_singleton] at hseqs ⊢
      rw [hseqs]
      simp [hcur, range'_concat, Nat.add_assoc]
    · intro seg hseg
      simp only [Log.segments, append_assoc, mem_append, mem_singleton] at hseg
      rcases hseg with hclosed | hold | hnew
      · exact h.segments seg (mem_append_left _ hclosed)
      · exact h.segments seg (by simp [Log.segments, hold])
      · rw [hnew]
        exact (Segment.wellFormed_empty _).append (by simp [needsRotation])

/-- Every journal that `log_thread` writes is well formed. -/
theorem logThread_wellFormed (seq : Nat) (items : List LogItem) :
    (logThread seq items).WellFormed seq := by
  have run : ∀ log : Log, log.WellFormed seq →
      (items.foldl BlueSky.logWrite log).WellFormed seq := by
    induction items with
    | nil => exact fun log h => h
    | cons item items ih => exact fun log h => ih _ (h.logWrite item)
  exact run _ (Log.wellFormed_start seq)

/-- Only a segment with a single record exceeds the segment size. -/
theorem logThread_single_of_oversized (seq : Nat) (items : List LogItem) :
    ∀ seg ∈ (logThread seq items).segments,
      logSegmentSize < seg.bytes.length → seg.entries.length = 1 := by
  intro seg hseg hlong
  exact ((logThread_wellFormed seq items).segments seg hseg).single (Nat.le_of_lt hlong)

end BlueSky
