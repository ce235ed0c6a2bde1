import BlueSky.Cloud.CacheFile
import BlueSky.Journal.RoundTrip

/-!
# Looking up journal files

The directory with the journal files, the thread that writes to them, and
`bluesky_cachefile_lookup`, which any thread may call for any file.  The first lookup of a file in
a process gives the file a length of five megabytes.  `log_open` is the first to look up a file
that it creates; in a later process the first lookup comes when records have been written.

Main definitions:

- Definition {lit}`JournalState`: the files, and what the running process knows about them.
- Definition {lit}`logStep`: the iterations of `log_thread` and of the loop in `log_open`, a
  lookup, and the start of another process.

Main results:

- Theorem {lit}`JournalFile.Intact.holds`: the records of a file that is as it was written.
- Theorem {lit}`lookups_keep_records`: the lookups that leave all records as they are.
-/

namespace BlueSky

open List Option ByteLib TransitionLib

/-! ## Journal files -/

/-- A journal file: what `log_thread` has written to it, and what is in it. -/
structure JournalFile where
  seg : Segment
  bytes : Bytes

/-- A file that has just been created. -/
def JournalFile.new (seq : Nat) : JournalFile where
  seg := { seq := seq, bytes := [], entries := [] }
  bytes := []

/-- `ftruncate`, which also makes a file longer. -/
def JournalFile.ftruncate (length : Nat) (file : JournalFile) : JournalFile where
  seg := file.seg
  bytes := ChunkLib.fill 0 length file.bytes

/-- `log_thread` writes a record at a position of the file. -/
def JournalFile.writeRecord (pos : Nat) (item : LogItem) (file : JournalFile) : JournalFile where
  seg := file.seg.append item
  bytes := robustPwrite file.bytes pos (item.record pos)

/-- The log directory, and the state of the running process. -/
structure JournalState where
  files : List JournalFile
  /-- The journal files in `mmap_cache`. -/
  cached : Nat → Bool
  /-- The fields `seq_num` and `fd` of `BlueSkyLog`; the file is open at a position. -/
  seqNum : Nat
  fd : Option Nat
  /-- The item for which the log thread is opening another file. -/
  popped : Option LogItem

namespace JournalState

/-- An empty directory, and a process that has just been started. -/
def start : JournalState where
  files := []
  cached := fun _ => false
  seqNum := 0
  fd := none
  popped := none

/-- The file with a number exists. -/
def hasFile (s : JournalState) (seq : Nat) : Bool :=
  s.files.any fun file => file.seg.seq = seq

/-- The file with a number is changed. -/
def onFile (s : JournalState) (seq : Nat) (change : JournalFile → JournalFile) : JournalState :=
  { s with files := s.files.map fun file => if file.seg.seq = seq then change file else file }

/-- `bluesky_cachefile_lookup` of a journal file. -/
def cachefileLookup (s : JournalState) (seq : Nat) : JournalState :=
  if s.cached seq then s
  -- a stale reference to a file that does not exist any longer
  else if s.hasFile seq = false then s
  else
    { s.onFile seq (JournalFile.ftruncate cacheFileSize) with
      cached := Function.update s.cached seq true }

/-- The log thread writes a record to the open file. -/
def writeRecord (s : JournalState) (pos : Nat) (item : LogItem) : JournalState :=
  { s.onFile s.seqNum (JournalFile.writeRecord pos item) with fd := some (pos + item.size) }

/-- `log_open` creates a file. -/
def create (s : JournalState) : JournalState :=
  let created := { s with files := s.files ++ [JournalFile.new s.seqNum], fd := some 0 }
  (created.cachefileLookup s.seqNum).onFile s.seqNum (JournalFile.ftruncate logSegmentSize)

/-- `bluesky_log_new` in another process. -/
def restart (s : JournalState) : JournalState where
  files := s.files
  cached := fun _ => false
  seqNum := s.files.foldl (fun seq file => max seq (file.seg.seq + 1)) 0
  fd := none
  popped := none

end JournalState

/-- What happens: an iteration of the loop in `log_open`, an iteration of `log_thread` for an
item, a lookup, and the end of the process with the start of another one. -/
inductive LogEvent where
  | openNext
  | write (item : LogItem)
  | lookup (seq : Nat)
  | restart

/-- One step, if it is possible. -/
def logStep (s : JournalState) : LogEvent → Option JournalState
  | .openNext =>
    if s.fd ≠ none then none
    else if s.hasFile s.seqNum then some { s with seqNum := s.seqNum + 1 }
    else
      match s.popped with
      | none => some s.create
      | some item => some { s.create.writeRecord 0 item with popped := none }
  | .write item => do
      let pos ← s.fd
      if needsRotation pos item.size then
        some { s with fd := none, seqNum := s.seqNum + 1, popped := some item }
      else some (s.writeRecord pos item)
  | .lookup seq => some (s.cachefileLookup seq)
  | .restart => some s.restart

/-! ## Files as they were written -/

/-- Every entry of a laid-out region is held where it was written. -/
theorem Laid.holdsRecord_mem {seq off : Nat} {es : List LogEntry} {bs bytes : Bytes}
    (h : Laid seq off es bs) (hdrop : bytes.drop off = bs) :
    ∀ e ∈ es, HoldsRecord bytes e.offset e.item := by
  induction h with
  | nil off => simp
  | cons rest ih =>
    rcases Laid.holdsRecord hdrop rest with ⟨hfirst, hnext⟩
    intro e he
    rcases mem_cons.mp he with rfl | he
    · exact hfirst
    · exact ih hnext e he

/-- A file begins with what has been written to it. -/
structure JournalFile.Intact (file : JournalFile) : Prop where
  wellFormed : file.seg.WellFormed
  written : file.bytes.take file.seg.bytes.length = file.seg.bytes

namespace JournalFile

variable {file : JournalFile}

theorem Intact.length_le (h : file.Intact) : file.seg.bytes.length ≤ file.bytes.length := by
  have hlen := congrArg List.length h.written
  rw [length_take] at hlen
  omega

/-- The records of a file that is as it was written. -/
theorem Intact.holds (h : file.Intact) {e : LogEntry} (he : e ∈ file.seg.entries) :
    HoldsRecord file.bytes e.offset e.item := by
  have hholds := h.wellFormed.laid.holdsRecord_mem drop_zero e he
  have hend := hholds.length_le
  rw [HoldsRecord, ← h.written] at hholds
  rw [HoldsRecord, ← hholds, slice, slice, drop_take, take_take, Nat.min_eq_left]
  omega

theorem intact_new (seq : Nat) : (JournalFile.new seq).Intact where
  wellFormed := Segment.wellFormed_empty seq
  written := rfl

/-- A file that is not cut stays as it was written. -/
theorem Intact.ftruncate (h : file.Intact) {length : Nat}
    (hlength : file.seg.bytes.length ≤ length) : (file.ftruncate length).Intact where
  wellFormed := h.wellFormed
  written := by
    have hle := h.length_le
    change (ChunkLib.fill 0 length file.bytes).take file.seg.bytes.length = file.seg.bytes
    rw [ChunkLib.fill, take_append_of_le_length, take_take, Nat.min_eq_left hlength, h.written]
    rw [length_take]
    omega

/-- A record that is written behind the others. -/
theorem Intact.writeRecord (h : file.Intact) {item : LogItem}
    (hrotation : needsRotation file.seg.bytes.length item.size = false) :
    (file.writeRecord file.seg.bytes.length item).Intact where
  wellFormed := h.wellFormed.append hrotation
  written := by
    have hle := h.length_le
    change (robustPwrite file.bytes file.seg.bytes.length
        (item.record file.seg.bytes.length)).take
          (file.seg.bytes ++ item.record file.seg.bytes.length).length =
        file.seg.bytes ++ item.record file.seg.bytes.length
    have hstart : (file.bytes ++ zeros (file.seg.bytes.length +
        (item.record file.seg.bytes.length).length - file.bytes.length)).take
          file.seg.bytes.length = file.seg.bytes := by
      rw [take_append_of_le_length hle, h.written]
    rw [robustPwrite, ChunkLib.splice, hstart, ← append_assoc, take_left]

end JournalFile

/-! ## The directory -/

namespace JournalState

variable {s s' : JournalState} {seq pos : Nat}

theorem mem_onFile {change : JournalFile → JournalFile} {file : JournalFile} :
    file ∈ (s.onFile seq change).files ↔
      ∃ old ∈ s.files, file = if old.seg.seq = seq then change old else old := by
  rw [onFile, List.mem_map]
  simp only [eq_comm]

theorem hasFile_eq_false : s.hasFile seq = false ↔ ∀ file ∈ s.files, file.seg.seq ≠ seq := by
  rw [hasFile, List.any_eq_false]
  simp only [decide_eq_true_eq]

/-- Every file is as it was written, and the log thread is behind the last record. -/
structure Inv (s : JournalState) : Prop where
  intact : ∀ file ∈ s.files, file.Intact
  position : ∀ file ∈ s.files, ∀ pos, s.fd = some pos → file.seg.seq = s.seqNum →
    pos = file.seg.bytes.length

theorem Inv.of_closed (hintact : ∀ file ∈ s.files, file.Intact) (hclosed : s.fd = none) :
    s.Inv where
  intact := hintact
  position file _ pos hpos := by
    rw [hclosed] at hpos
    cases hpos

/-- All records are in their files, where they are accepted and can be mapped. -/
def Sound (s : JournalState) : Prop :=
  ∀ file ∈ s.files, ∀ e ∈ file.seg.entries,
    HoldsRecord file.bytes e.offset e.item ∧
      (e.item.size < 2 ^ 32 → validateJournalItem file.bytes e.offset = true) ∧
      cachefileMapRaw file.bytes e.offset e.item.size = some (e.item.record e.offset)

theorem Inv.sound (h : s.Inv) : s.Sound := by
  intro file hfile e he
  have hintact := h.intact file hfile
  have hholds := hintact.holds he
  have hoffset : e.offset < 2 ^ 32 :=
    (hintact.wellFormed.offset_lt e he).trans (by decide)
  refine ⟨hholds, fun hsize => hholds.validate hsize hoffset, ?_⟩
  rw [cachefileMapRaw, if_neg (Nat.not_lt.mpr hholds.length_le), hholds]

theorem inv_start : JournalState.start.Inv where
  intact := nofun
  position := nofun

/-- A lookup that does not cut a file. -/
def Harmless (s : JournalState) (seq : Nat) : Prop :=
  ∀ file ∈ s.files, file.seg.seq = seq → s.cached seq = false →
    file.seg.bytes.length ≤ cacheFileSize

theorem cachefileLookup_of_uncached (hcached : s.cached seq = false) {file : JournalFile}
    (hfile : file ∈ s.files) (hseq : file.seg.seq = seq) :
    file.ftruncate cacheFileSize ∈ (s.cachefileLookup seq).files := by
  have hsome : s.hasFile seq ≠ false := by
    rw [ne_eq, hasFile_eq_false]
    exact fun hnone => hnone file hfile hseq
  rw [cachefileLookup, if_neg (by rw [hcached]; simp), if_neg hsome]
  exact mem_onFile.mpr ⟨file, hfile, by rw [if_pos hseq]⟩

/-- A lookup keeps what has been written to the files. -/
theorem seg_of_mem_cachefileLookup {file : JournalFile}
    (hfile : file ∈ (s.cachefileLookup seq).files) : ∃ old ∈ s.files, file.seg = old.seg := by
  rw [cachefileLookup] at hfile
  split_ifs at hfile
  · exact ⟨file, hfile, rfl⟩
  · exact ⟨file, hfile, rfl⟩
  · rcases mem_onFile.mp hfile with ⟨old, hold, rfl⟩
    refine ⟨old, hold, ?_⟩
    split_ifs
    · rfl
    · rfl

/-- A change that keeps the records of the file, and where it ends. -/
theorem Inv.onFile (h : s.Inv) {change : JournalFile → JournalFile}
    (hintact : ∀ file ∈ s.files, file.seg.seq = seq → (change file).Intact)
    (hseg : ∀ file, (change file).seg = file.seg) : (s.onFile seq change).Inv where
  intact := by
    intro file hfile
    rcases mem_onFile.mp hfile with ⟨old, hold, rfl⟩
    split_ifs with hseq
    · exact hintact old hold hseq
    · exact h.intact old hold
  position := by
    intro file hfile pos hpos hcurrent
    rcases mem_onFile.mp hfile with ⟨old, hold, rfl⟩
    have hsame : (if old.seg.seq = seq then change old else old).seg = old.seg := by
      split_ifs
      · exact hseg old
      · rfl
    rw [hsame] at hcurrent ⊢
    exact h.position old hold pos hpos hcurrent

theorem Inv.cachefileLookup (h : s.Inv) (hharmless : s.Harmless seq) :
    (s.cachefileLookup seq).Inv := by
  rw [JournalState.cachefileLookup]
  split_ifs with hcached hnone
  · exact h
  · exact h
  · have hchanged : (s.onFile seq (JournalFile.ftruncate cacheFileSize)).Inv := by
      refine h.onFile ?_ fun _ => rfl
      intro file hfile hseq
      exact (h.intact file hfile).ftruncate (hharmless file hfile hseq (by simpa using hcached))
    exact ⟨hchanged.intact, hchanged.position⟩

/-- Writing a record to the open file. -/
theorem Inv.writeRecord (h : s.Inv) (hfd : s.fd = some pos) {item : LogItem}
    (hrotation : needsRotation pos item.size = false) : (s.writeRecord pos item).Inv where
  intact := by
    intro file hfile
    rcases mem_onFile.mp hfile with ⟨old, hold, rfl⟩
    split_ifs with hseq
    · have hpos := h.position old hold pos hfd hseq
      rw [hpos] at hrotation ⊢
      exact (h.intact old hold).writeRecord hrotation
    · exact h.intact old hold
  position := by
    intro file hfile pos' hpos' hcurrent
    have hnew : pos' = pos + item.size := (some_inj.mp hpos').symm
    rcases mem_onFile.mp hfile with ⟨old, hold, rfl⟩
    split_ifs at hcurrent ⊢ with hseq
    · rw [hnew, h.position old hold pos hfd hseq]
      simp [JournalFile.writeRecord, Segment.append]
    · exact absurd hcurrent hseq

/-- Creating a file that does not exist yet. -/
theorem Inv.create (h : s.Inv) (hnone : s.hasFile s.seqNum = false) : s.create.Inv := by
  have hcreated : ({ s with files := s.files ++ [JournalFile.new s.seqNum], fd := some 0 } :
      JournalState).Inv := by
    refine ⟨?_, ?_⟩
    · intro file hfile
      rcases mem_append.mp hfile with hold | hnew
      · exact h.intact file hold
      · rw [mem_singleton.mp hnew]
        exact JournalFile.intact_new s.seqNum
    · intro file hfile pos hpos hcurrent
      rcases mem_append.mp hfile with hold | hnew
      · exact absurd hcurrent (hasFile_eq_false.mp hnone file hold)
      · rw [mem_singleton.mp hnew, ← some_inj.mp hpos]
        rfl
  have hempty : ∀ file ∈ s.files ++ [JournalFile.new s.seqNum], file.seg.seq = s.seqNum →
      file.seg.bytes.length = 0 := by
    intro file hfile hcurrent
    exact (hcreated.position file hfile 0 rfl hcurrent).symm
  have hlooked : (({ s with files := s.files ++ [JournalFile.new s.seqNum], fd := some 0 } :
      JournalState).cachefileLookup s.seqNum).Inv := by
    refine hcreated.cachefileLookup ?_
    intro file hfile hcurrent _
    rw [hempty file hfile hcurrent]
    exact Nat.zero_le _
  refine hlooked.onFile ?_ fun _ => rfl
  intro file hfile hcurrent
  refine (hlooked.intact file hfile).ftruncate ?_
  rcases seg_of_mem_cachefileLookup hfile with ⟨old, hold, hseg⟩
  rw [hseg] at hcurrent ⊢
  rw [hempty old hold hcurrent]
  exact Nat.zero_le _

theorem create_fd (s : JournalState) : s.create.fd = some 0 := by
  rw [create, onFile, JournalState.cachefileLookup]
  split_ifs
  · rfl
  · rfl
  · rfl

end JournalState

/-- The condition for lookups; everything else is harmless. -/
def LogEvent.Harmless (s : JournalState) : LogEvent → Prop
  | .lookup seq => s.Harmless seq
  | _ => True

variable {s : JournalState}

theorem JournalState.Inv.step {s' : JournalState} {ev : LogEvent} (h : s.Inv)
    (hharmless : ev.Harmless s) (hstep : logStep s ev = some s') : s'.Inv := by
  cases ev with
  | openNext =>
    rw [logStep] at hstep
    split_ifs at hstep with hopen hexists
    · rw [← some_inj.mp hstep]
      exact .of_closed h.intact (not_not.mp hopen)
    · have hcreate := h.create (by simpa using hexists)
      cases hpopped : s.popped with
      | none =>
        rw [hpopped] at hstep
        rw [← some_inj.mp hstep]
        exact hcreate
      | some item =>
        rw [hpopped] at hstep
        rw [← some_inj.mp hstep]
        have hrotation : needsRotation 0 item.size = false := by simp [needsRotation]
        have hwritten := hcreate.writeRecord s.create_fd hrotation
        exact ⟨hwritten.intact, hwritten.position⟩
  | write item =>
    rcases bind_eq_some_iff.mp hstep with ⟨pos, hpos, hstep⟩
    split_ifs at hstep with hrotation
    · rw [← some_inj.mp hstep]
      exact .of_closed h.intact rfl
    · rw [← some_inj.mp hstep]
      exact h.writeRecord hpos (by simpa using hrotation)
  | lookup seq =>
    rw [← some_inj.mp hstep]
    exact h.cachefileLookup hharmless
  | restart =>
    rw [← some_inj.mp hstep]
    exact .of_closed h.intact rfl

theorem JournalState.inv_of_reachable
    (hs : Reachable logStep (fun s ev => ev.Harmless s) .start s) : s.Inv := by
  refine hs.invariant JournalState.inv_start ?_
  intro s ev s' hinv hharmless hstep
  exact hinv.step hharmless hstep

/-- A lookup that cuts a file loses the record in it. -/
theorem JournalState.Inv.harmless_of_sound {seq : Nat} (h : s.Inv)
    (hsound : (s.cachefileLookup seq).Sound) : s.Harmless seq := by
  intro file hfile hseq hcached
  by_contra hlong
  rw [Nat.not_le] at hlong
  have hwellFormed := (h.intact file hfile).wellFormed
  have hsingle := hwellFormed.single (by rw [cacheFileSize] at hlong; rw [logSegmentSize]; omega)
  rcases length_eq_one_iff.mp hsingle with ⟨e, he⟩
  have hlaid := hwellFormed.laid
  have hcut := JournalState.cachefileLookup_of_uncached hcached hfile hseq
  have hholds := (hsound _ hcut e (by rw [JournalFile.ftruncate, he]; simp)).1.length_le
  change e.offset + e.item.size ≤ (ChunkLib.fill 0 cacheFileSize file.bytes).length at hholds
  rw [ChunkLib.length_fill] at hholds
  rw [he] at hlaid
  generalize file.seg.bytes = bytes at hlaid hlong
  cases hlaid with
  | cons rest =>
    cases rest
    rw [append_nil, LogItem.length_record] at hlong
    simp only at hholds
    omega

/-- As long as no lookup meets a file of more than five megabytes for the first time in its
process, all records stay in their files, are accepted and can be mapped; and a lookup that does
meet such a file loses the record in it. -/
theorem lookups_keep_records {s : JournalState}
    (hs : Reachable logStep (fun s ev => ev.Harmless s) .start s) :
    s.Sound ∧ ∀ seq s', logStep s (.lookup seq) = some s' → (s'.Sound ↔ s.Harmless seq) := by
  have h := JournalState.inv_of_reachable hs
  refine ⟨h.sound, ?_⟩
  intro seq s' hstep
  rw [← some_inj.mp hstep]
  exact ⟨h.harmless_of_sound, fun hharmless => (h.cachefileLookup hharmless).sound⟩

/-- A directory in which one record has been written, in a later process. -/
def laterProcess (item : LogItem) : JournalState :=
  (JournalState.start.create.writeRecord 0 item).restart

theorem laterProcess_reachable (item : LogItem) :
    Reachable logStep (fun s ev => ev.Harmless s) .start (laterProcess item) := by
  have hrotation : needsRotation 0 item.size = false := by simp [needsRotation]
  refine .next .restart (.next (.write item) (.next .openNext .start trivial rfl) trivial ?_)
    trivial rfl
  rw [logStep, JournalState.create_fd, bind_eq_bind, bind_some, hrotation]
  rfl

/-- The file with the record. -/
def laterFile (item : LogItem) : JournalFile :=
  (((JournalFile.new 0).ftruncate cacheFileSize).ftruncate logSegmentSize).writeRecord 0 item

theorem laterProcess_files (item : LogItem) : (laterProcess item).files = [laterFile item] :=
  rfl

theorem lookups_keep_records_later :
    (laterProcess (zeroItem 3)).Sound ∧
      ∀ seq s', logStep (laterProcess (zeroItem 3)) (.lookup seq) = some s' →
        (s'.Sound ↔ (laterProcess (zeroItem 3)).Harmless seq) :=
  lookups_keep_records (laterProcess_reachable (zeroItem 3))

/-- A record of more than five megabytes is lost at the first lookup in a later process. -/
theorem oversized_record_lost :
    ∃ item s, item.data.length = 6 * 2 ^ 20 ∧ s.files = [laterFile item] ∧
      Reachable logStep (fun s ev => ev.Harmless s) .start s ∧
      HoldsRecord (laterFile item).bytes 0 item ∧
      ∃ s' file, logStep s (.lookup 0) = some s' ∧ file ∈ s'.files ∧
        ⟨0, 0, item⟩ ∈ file.seg.entries ∧ ¬ HoldsRecord file.bytes 0 item ∧
        validateJournalItem file.bytes 0 = false ∧
        cachefileMapRaw file.bytes 0 item.size = none := by
  obtain ⟨n, hn⟩ : ∃ n, n = 6 * 2 ^ 20 := ⟨_, rfl⟩
  have hsize : (zeroItem n).size = 53 + n := by
    simp [LogItem.size, zeroItem, LogItem.linkIds, LogItem.linkLocations, logHeaderSize,
      logFooterSize]
  have hreach := laterProcess_reachable (zeroItem n)
  have hmem : laterFile (zeroItem n) ∈ (laterProcess (zeroItem n)).files := by
    rw [laterProcess_files]
    exact mem_singleton.mpr rfl
  have hentry : ⟨0, 0, zeroItem n⟩ ∈ (laterFile (zeroItem n)).seg.entries :=
    mem_singleton.mpr rfl
  have hholds : HoldsRecord (laterFile (zeroItem n)).bytes 0 (zeroItem n) :=
    ((JournalState.inv_of_reachable hreach).intact _ hmem).holds hentry
  have hlength : (ChunkLib.fill 0 cacheFileSize (laterFile (zeroItem n)).bytes).length <
      (zeroItem n).size := by
    rw [ChunkLib.length_fill, cacheFileSize, hsize, hn]
    omega
  have hlost : ¬ HoldsRecord ((laterFile (zeroItem n)).ftruncate cacheFileSize).bytes 0
      (zeroItem n) := by
    intro hheld
    have hle := hheld.length_le
    rw [Nat.zero_add] at hle
    exact absurd hle (Nat.not_le.mpr hlength)
  refine ⟨zeroItem n, laterProcess (zeroItem n), by rw [zeroItem, length_zeros, hn],
    laterProcess_files _, hreach, hholds, _, _, rfl,
    JournalState.cachefileLookup_of_uncached rfl hmem rfl, hentry, hlost, ?_, ?_⟩
  · rw [Bool.eq_false_iff]
    intro hvalid
    exact hlost ((validateJournalItem_torn_iff hholds (by rw [hsize, hn]; decide)
      (by decide)).mp hvalid)
  · rw [cachefileMapRaw, if_pos]
    rw [Nat.zero_add]
    exact hlength

end BlueSky
