import BlueSky.Proxy.Journal
import BlueSky.Proxy.Mountable

/-!
# The watermark of the journal

`bluesky_cachefile_gc` unlinks journal files below a watermark, which `flushd_cloud` reads
from the number of the open file, while replay starts where the marker lies.  If the
marker is in the file that is open when the number is read, and has been written when the
commit point names its position, then garbage collection never outruns replay.

Main results:

- Structure {lit}`WatermarkInv`: the watermark, the commit points and the flush that runs.
- Theorem {lit}`watermark_le_replayStart`: no file is unlinked that replay needs.
-/

namespace BlueSky

open List PrecedenceLib ProxyState TransitionLib

/-- The marker lies in the open file when its number is read, if it has been written, and it
has been written when the commit point names its position, unless nothing can be unlinked
on account of it. -/
def markerCurrent (s : ProxyState) : Event → Bool
  | .readSeqNum =>
    match s.flushd with
    | .waiting marker =>
      s.log.entries.all fun entry => entry.id ≠ marker ∨ entry.seq = s.log.seqNum
    | _ => true
  | .writeCommitPoint =>
    match s.flushd with
    | .uploading marker journalSeqStart =>
      journalSeqStart = 0 ∨ s.log.entries.any fun entry => entry.id = marker
    | _ => true
  | _ => true

/-! ## The invariant -/

/-- What a flush that runs knows of the watermark that it will set. -/
def WatermarkPhase (s : ProxyState) : Flushd → Prop
  | .idle | .waiting _ => True
  | .draining marker start | .serializing marker start | .uploading marker start =>
    start ≤ s.log.seqNum ∧ s.log.journalWatermark ≤ start ∧
      (∀ entry ∈ s.log.entries, entry.id = marker → start ≤ entry.seq) ∧
      ∀ id seq offset, IsCommitPoint s.items id seq offset → seq ≤ start
  | .committing start commit =>
    s.log.journalWatermark ≤ start ∧
      ∃ seq offset, IsCommitPoint s.items commit seq offset ∧ start ≤ seq

/-- The watermark, the commit points and the flush that runs. -/
structure WatermarkInv (s : ProxyState) : Prop where
  named_le : ∀ id seq offset, IsCommitPoint s.items id seq offset → seq ≤ s.log.seqNum
  named_entry : ∀ entry ∈ s.log.entries, ∀ seq offset,
    IsCommitPoint s.items entry.id seq offset → seq ≤ entry.seq
  ordered : ∀ id id', Precedes s.log.order id id' → ∀ seq offset seq' offset',
    IsCommitPoint s.items id seq offset → IsCommitPoint s.items id' seq' offset' → seq ≤ seq'
  watermark : 0 < s.log.journalWatermark →
    ∃ entry ∈ s.log.durable, ∃ seq offset, IsCommitPoint s.items entry.id seq offset ∧
      s.log.journalWatermark ≤ seq
  unlinked : ∀ n ∈ s.log.unlinked, n < s.log.journalWatermark
  phase : WatermarkPhase s s.flushd

theorem watermarkInv_start (disableAggregation : Bool) :
    WatermarkInv (start disableAggregation) where
  named_le := by simp [start, IsCommitPoint, commitPosition]
  named_entry := by simp [start]
  ordered := by simp [start, IsCommitPoint, commitPosition]
  watermark := by simp [start]
  unlinked := by simp [start]
  phase := trivial

variable {s : ProxyState}

/-- The watermark is not above the open file. -/
theorem WatermarkInv.watermark_le_seqNum (h : WatermarkInv s) :
    s.log.journalWatermark ≤ s.log.seqNum := by
  rcases Nat.eq_zero_or_pos s.log.journalWatermark with hzero | hpos
  · omega
  · rcases h.watermark hpos with ⟨entry, -, seq, offset, hpoint, hle⟩
    exact Nat.le_trans hle (h.named_le _ _ _ hpoint)

theorem WatermarkInv.phase_of (h : WatermarkInv s) {flushd : Flushd} (hflushd : s.flushd = flushd) :
    WatermarkPhase s flushd :=
  hflushd ▸ h.phase

/-! ## Steps -/

section Steps

variable {s s' : ProxyState}

variable {e : Event}

/-- A new record lies in the file that is open then. -/
theorem mem_entries_step (hstep : step s e = some s') {entry : JournalEntry}
    (hentry : entry ∈ s'.log.entries) :
    entry ∈ s.log.entries ∨ entry.seq = s'.log.seqNum := by
  rcases journal_step hstep with hsame | ⟨-, hwrite⟩ | hcommit
  · rw [hsame.entries] at hentry
    exact Or.inl hentry
  · rcases writeNext_cases hwrite with
      ⟨id, queue, size, seq, offset, committed, -, -, -, -, hentries, hseq, -, -, -, -⟩
    rw [hentries] at hentry
    rcases mem_append.mp hentry with hentry | hentry
    · exact Or.inl hentry
    · rw [mem_singleton.mp hentry, hseq]
      exact Or.inr rfl
  · rw [hcommit] at hentry
    exact Or.inl hentry

/-- The order of the commit points that exist is not changed. -/
theorem precedes_of_step (hadv : Advances s s') {id id' : Nat}
    (hid' : id' < s.items.length) (h : Precedes s'.log.order id id') :
    Precedes s.log.order id id' := by
  rcases hadv.order with ⟨ids, horder, hnew⟩
  rw [horder] at h
  exact h.of_not_mem fun hmem => absurd hid' (Nat.not_lt_of_le (hnew id' hmem))

/-- The commit points after a step that creates none. -/
theorem isCommitPoint_step (hstep : step s e = some s') (he : e ≠ .writeCommitPoint)
    {id seq offset : Nat} :
    IsCommitPoint s'.items id seq offset ↔ IsCommitPoint s.items id seq offset := by
  unfold IsCommitPoint
  rw [commitPosition_step hstep he]

/-- A new record lies in no earlier file than the one that was open. -/
theorem mem_entries_or_seqNum_le (hadv : Advances s s') (hstep : step s e = some s')
    {entry : JournalEntry} (hentry : entry ∈ s'.log.entries) :
    entry ∈ s.log.entries ∨ s.log.seqNum ≤ entry.seq := by
  refine (mem_entries_step hstep hentry).imp_right fun hseq => ?_
  rw [hseq]
  exact hadv.seqNum

/-- What a flush knows stays true. -/
theorem WatermarkPhase.advance (hcommitted : CommittedOk s.log) {e : Event}
    (hstep : step s e = some s') (he : e ≠ .writeCommitPoint)
    (hwatermark : s'.log.journalWatermark = s.log.journalWatermark) {flushd : Flushd}
    (h : WatermarkPhase s flushd) : WatermarkPhase s' flushd := by
  have hadv := advances_step hcommitted hstep
  cases flushd with
  | idle | waiting => trivial
  | draining marker start | serializing marker start | uploading marker start =>
    rcases h with ⟨hstart, hle, hmarker, hnamed⟩
    refine ⟨Nat.le_trans hstart hadv.seqNum, hwatermark ▸ hle, ?_, ?_⟩
    · intro entry hmem hid
      rcases mem_entries_or_seqNum_le hadv hstep hmem with hold | hseq
      · exact hmarker entry hold hid
      · exact Nat.le_trans hstart hseq
    · intro id seq offset hid
      exact hnamed id seq offset ((isCommitPoint_step hstep he).mp hid)
  | committing start commit =>
    rcases h with ⟨hle, seq, offset, hid, hstart⟩
    exact ⟨hwatermark ▸ hle, seq, offset, (isCommitPoint_step hstep he).mpr hid, hstart⟩

/-- A step that creates no commit point and leaves the watermark alone. -/
theorem WatermarkInv.advance (h : WatermarkInv s) (hcommitted : CommittedOk s.log) {e : Event}
    (hstep : step s e = some s') (he : e ≠ .writeCommitPoint)
    (hwatermark : s'.log.journalWatermark = s.log.journalWatermark)
    (hunlinked : ∀ n ∈ s'.log.unlinked, n < s.log.journalWatermark)
    (hphase : WatermarkPhase s s'.flushd) : WatermarkInv s' := by
  have hadv := advances_step hcommitted hstep
  have hpoint : ∀ {id seq offset : Nat}, IsCommitPoint s'.items id seq offset ↔
      IsCommitPoint s.items id seq offset := isCommitPoint_step hstep he
  constructor
  · intro id seq offset hid
    exact Nat.le_trans (h.named_le id seq offset (hpoint.mp hid)) hadv.seqNum
  · intro entry hmem seq offset hid
    rcases mem_entries_or_seqNum_le hadv hstep hmem with hold | hseq
    · exact h.named_entry entry hold seq offset (hpoint.mp hid)
    · exact Nat.le_trans (h.named_le _ _ _ (hpoint.mp hid)) hseq
  · intro id id' hprec seq offset seq' offset' hid hid'
    have hid' := hpoint.mp hid'
    exact h.ordered id id' (precedes_of_step hadv hid'.lt_length hprec) seq offset seq' offset'
      (hpoint.mp hid) hid'
  · rw [hwatermark]
    intro hpos
    rcases h.watermark hpos with ⟨entry, hmem, seq, offset, hid, hle⟩
    exact ⟨entry, hadv.durable.subset hmem, seq, offset, hpoint.mpr hid, hle⟩
  · rw [hwatermark]
    exact hunlinked
  · exact hphase.advance hcommitted hstep he hwatermark

/-- What the flush daemon knows when it has read the number of the open file. -/
theorem watermarkPhase_readSeqNum (h : WatermarkInv s) (hok : markerCurrent s .readSeqNum)
    {marker : Nat} (hflushd : s.flushd = .waiting marker) :
    WatermarkPhase s (.draining marker s.log.seqNum) := by
  refine ⟨Nat.le_refl _, h.watermark_le_seqNum, ?_, h.named_le⟩
  intro entry hentry hid
  unfold markerCurrent at hok
  rw [hflushd] at hok
  have hcurrent := all_eq_true.mp hok entry hentry
  simp only [hid, ne_eq, not_true_eq_false, false_or, decide_eq_true_eq] at hcurrent
  exact Nat.le_of_eq hcurrent.symm

/-- The new commit point names the position of the marker, which is no earlier than that of
any other marker. -/
theorem watermarkInv_writeCommitPoint (h : WatermarkInv s)
    (hok : markerCurrent s .writeCommitPoint) (hcore : CoreInv s)
    (hpositions : PositionsOk s.items s.log) (hstep : Stepped s .writeCommitPoint s') :
    WatermarkInv s' := by
  cases hstep with | writeCommitPoint marker start hflushd _ => ?_
  rcases h.phase_of hflushd with ⟨hstart, hle, hmarker, hnamed⟩
  have hposition : start ≤ (s.log.position marker).1 ∧
      (s.log.position marker).1 ≤ s.log.seqNum := by
    unfold JournalLog.position JournalLog.entryOf
    cases hfind : s.log.entries.find? fun entry => entry.id = marker with
    | none =>
      unfold markerCurrent at hok
      rw [hflushd] at hok
      have hnone : s.log.entries.any (fun entry => entry.id = marker) = false := by
        rw [any_eq_false]
        exact find?_eq_none.mp hfind
      simp only [hnone, Bool.false_eq_true, or_false, decide_eq_true_eq] at hok
      exact ⟨Nat.le_of_eq hok, Nat.zero_le _⟩
    | some entry =>
      have hmem := mem_of_find?_eq_some hfind
      exact ⟨hmarker entry hmem (by simpa using find?_some hfind), hpositions.seq_le hmem⟩
  have hnot : ∀ id ∈ s.log.order, id ≠ s.items.length := fun id hid =>
    Nat.ne_of_lt (hcore.order_lt hid)
  constructor
  · intro id seq offset hid
    rcases isCommitPoint_snoc.mp hid with hid | ⟨-, rfl, -⟩
    · exact h.named_le id seq offset hid
    · exact hposition.2
  · intro entry hmem seq offset hid
    rcases isCommitPoint_snoc.mp hid with hid | ⟨hid, -, -⟩
    · exact h.named_entry entry hmem seq offset hid
    · refine absurd hid (hnot entry.id ?_)
      exact mem_append_left _ (mem_map.mpr ⟨entry, hmem, rfl⟩)
  · intro id id' hprec seq offset seq' offset' hid hid'
    dsimp only at hprec
    rw [order_submit] at hprec
    rcases isCommitPoint_snoc.mp hid with hid | ⟨hid, -, -⟩
    · rcases isCommitPoint_snoc.mp hid' with hid' | ⟨-, rfl, -⟩
      · refine h.ordered id id' (hprec.of_not_mem ?_) seq offset seq' offset' hid hid'
        simpa using hid'.lt_length.ne
      · exact Nat.le_trans (hnamed id seq offset hid) hposition.1
    · exact absurd hid (hnot id hprec.mem_of_concat)
  · intro hpos
    rcases h.watermark hpos with ⟨entry, hmem, seq, offset, hid, hle'⟩
    exact ⟨entry, hmem, seq, offset, isCommitPoint_snoc.mpr (Or.inl hid), hle'⟩
  · exact h.unlinked
  · exact ⟨hle, _, _, isCommitPoint_snoc.mpr (Or.inr ⟨rfl, rfl, rfl⟩), hposition.1⟩

/-- The watermark is raised to the number that was read. -/
theorem watermarkInv_finishFlush (h : WatermarkInv s) (hstep : Stepped s .finishFlush s') :
    WatermarkInv s' := by
  cases hstep with | finishFlush start commit hflushd hcommitted => ?_
  rcases h.phase_of hflushd with ⟨hle, seq, offset, hid, hstart⟩
  refine ⟨h.named_le, h.named_entry, h.ordered, ?_, ?_, trivial⟩
  · intro _
    rcases any_eq_true.mp hcommitted with ⟨entry, hmem, heq⟩
    have heq : entry.id = commit := by simpa using heq
    exact ⟨entry, hmem, seq, offset, heq ▸ hid, hstart⟩
  · intro n hn
    exact Nat.lt_of_lt_of_le (h.unlinked n hn) hle

/-- Every step keeps the invariant if the marker is current. -/
theorem watermarkInv_step (hcore : CoreInv s) (hpositions : PositionsOk s.items s.log)
    (h : WatermarkInv s) (hok : markerCurrent s e) (hstep : step s e = some s') :
    WatermarkInv s' := by
  have hplain := fun he => h.advance (e := e) hpositions.committed hstep he
  have hstepped := stepped hstep
  cases e with
  | writeCommitPoint => exact watermarkInv_writeCommitPoint h hok hcore hpositions hstepped
  | finishFlush => exact watermarkInv_finishFlush h hstepped
  | logWrite =>
    cases hstepped with | logWrite log hlog => ?_
    rcases writeNext_cases hlog with
      ⟨-, -, -, -, -, -, -, -, -, -, -, -, -, -, hwatermark, hunlinked⟩
    exact hplain (by simp) hwatermark (by simpa only [hunlinked] using h.unlinked) h.phase
  | getCommitPoint =>
    cases hstepped
    exact hplain (by simp) rfl h.unlinked trivial
  | readSeqNum =>
    cases hstepped with | readSeqNum marker hflushd => ?_
    exact hplain (by simp) rfl h.unlinked (watermarkPhase_readSeqNum h hok hflushd)
  | endDrain =>
    cases hstepped with | endDrain marker start hflushd => ?_
    exact hplain (by simp) rfl h.unlinked (h.phase_of hflushd :)
  | writeMap =>
    cases hstepped with
    | writeMap marker start hflushd | keepMap marker start hflushd =>
      exact hplain (by simp) rfl h.unlinked (h.phase_of hflushd :)
  | gc n =>
    cases hstepped with | gc hn => ?_
    exact hplain (by simp) rfl (forall_mem_cons.mpr ⟨hn, h.unlinked⟩) h.phase
  | _ =>
    cases hstepped
    exact hplain (by simp) rfl h.unlinked h.phase

end Steps

/-! ## Runs -/

/-- The position that the latest commit point among some records names. -/
def latestCommitPoint (items : List Item) (entries : List JournalEntry) : Option (Nat × Nat) :=
  (entries.filterMap fun entry => commitPosition items entry.id).getLast?

/-- The latest commit point is one that was given, or a later one. -/
theorem latestCommitPoint_of_mem {items : List Item} {entries : List JournalEntry}
    {entry : JournalEntry} (hentry : entry ∈ entries) {seq offset : Nat}
    (hpoint : IsCommitPoint items entry.id seq offset) :
    ∃ last ∈ entries, ∃ seq' offset', IsCommitPoint items last.id seq' offset' ∧
      latestCommitPoint items entries = some (seq', offset') ∧
      (last = entry ∨ Precedes entries entry last) := by
  rcases append_of_mem hentry with ⟨front, rest, rfl⟩
  unfold latestCommitPoint
  rw [filterMap_append, getLast?_append, filterMap_cons,
    show commitPosition items entry.id = some (seq, offset) from hpoint]
  dsimp only
  cases hrest : (rest.filterMap fun entry => commitPosition items entry.id).getLast? with
  | none =>
    rw [getLast?_eq_none_iff] at hrest
    rw [hrest]
    exact ⟨entry, by simp, seq, offset, hpoint, rfl, Or.inl rfl⟩
  | some p =>
    rcases mem_filterMap.mp (mem_of_getLast? hrest) with ⟨last, hlast, hp⟩
    refine ⟨last, by simp [hlast], p.1, p.2, hp, ?_, Or.inr ?_⟩
    · rw [getLast?_cons, hrest]
      rfl
    · exact precedes_append.mpr (Or.inr (Or.inr
        (List.Sublist.cons_cons _ (singleton_sublist.mpr hlast))))

/-- The order of the records is that of their items. -/
theorem precedes_order_of_entries {log : JournalLog} {entries : List JournalEntry}
    (h : entries <+: log.entries) {a b : JournalEntry} (hprec : Precedes entries a b) :
    Precedes log.order a.id b.id := by
  rcases h with ⟨rest, hrest⟩
  have hmap := (hprec.append_right rest).map JournalEntry.id
  rw [hrest] at hmap
  exact hmap.append_right log.queue

/-- The invariants of the journal in every run whose markers are current. -/
theorem watermarkInv_reachable {disableAggregation : Bool}
    (hs : Reachable step (fun s e => markerCurrent s e) (start disableAggregation) s) :
    CoreInv s ∧ PositionsOk s.items s.log ∧ WatermarkInv s :=
  hs.invariant (I := fun s => CoreInv s ∧ PositionsOk s.items s.log ∧ WatermarkInv s)
    ⟨coreInv_start _, positionsOk_start _, watermarkInv_start _⟩
    fun _ _ _ h hok hstep =>
      ⟨coreInv_step h.1 hstep, positionsOk_step (coreInv_step h.1 hstep) h.2.1 hstep,
        watermarkInv_step h.1 h.2.1 h.2.2 hok hstep⟩

/-- Replay starts in no file that has been unlinked or will be, whatever records a crash
leaves. -/
theorem watermark_bounds (hpositions : PositionsOk s.items s.log) (h : WatermarkInv s)
    {entries : List JournalEntry} (hdurable : s.log.durable <+: entries)
    (hentries : entries <+: s.log.entries) :
    s.log.journalWatermark ≤ (replayStart s.items s.log entries).1 ∧
      ∀ n ∈ s.log.unlinked, n < (replayStart s.items s.log entries).1 := by
  suffices hstart : s.log.journalWatermark ≤ (replayStart s.items s.log entries).1 from
    ⟨hstart, fun n hn => Nat.lt_of_lt_of_le (h.unlinked n hn) hstart⟩
  rcases Nat.eq_zero_or_pos s.log.journalWatermark with hzero | hpos
  · omega
  · rcases h.watermark hpos with ⟨point, hpoint, seq, offset, hcommit, hle⟩
    have hmem : point ∈ entries := hdurable.subset hpoint
    have hseq := h.named_entry point (hentries.subset hmem) _ _ hcommit
    refine le_replayStart (hpositions.sorted.sublist hentries.sublist) hpos hmem
      (hpositions.seq_le (hentries.subset hmem)) ?_ hcommit hle ?_
    · intro hgone
      have := h.unlinked _ hgone
      omega
    · intro entry hprec seq' offset' hentry
      exact Nat.le_trans hle (h.ordered _ _ (precedes_order_of_entries hentries hprec)
        _ _ _ _ hcommit hentry)

/-- In every run whose markers are current, the watermark is no larger than what the latest
commit point on disk names; and whatever records a crash leaves, replay starts in no file
that has been unlinked or will be. -/
theorem watermark_le_replayStart (disableAggregation : Bool) (s : ProxyState)
    (hs : Reachable step (fun s e => markerCurrent s e) (start disableAggregation) s) :
    s.log.journalWatermark ≤ ((latestCommitPoint s.items s.log.durable).getD (0, 0)).1 ∧
      ∀ entries, s.log.durable <+: entries → entries <+: s.log.entries →
        s.log.journalWatermark ≤ (replayStart s.items s.log entries).1 ∧
          ∀ n ∈ s.log.unlinked, n < (replayStart s.items s.log entries).1 := by
  rcases watermarkInv_reachable hs with ⟨-, hpositions, h⟩
  refine ⟨?_, fun entries hdurable hentries =>
    watermark_bounds hpositions h hdurable hentries⟩
  rcases Nat.eq_zero_or_pos s.log.journalWatermark with hzero | hpos
  · omega
  · rcases h.watermark hpos with ⟨point, hpoint, seq, offset, hcommit, hle⟩
    rcases latestCommitPoint_of_mem hpoint hcommit with
      ⟨last, -, seq', offset', hlast, hlatest, rfl | hprec⟩
    · rw [hlatest]
      rw [IsCommitPoint, hcommit, Option.some.injEq, Prod.mk.injEq] at hlast
      exact hlast.1 ▸ hle
    · rw [hlatest]
      refine Nat.le_trans hle (h.ordered _ _ ?_ _ _ _ _ hcommit hlast)
      exact precedes_order_of_entries (List.take_prefix _ _) hprec

/-! ## Runs with long records -/

/-- A symbolic link with a text of some length. -/
def longLink (n : Nat) : InodeImage :=
  { emptyDirectory with body := .symlink (List.replicate n 97), changeCount := 2 }

/-- The state after the log thread has written the next item to a new file. -/
def rotated (s : ProxyState) (id : Nat) (item : Item) : ProxyState :=
  { s with log := ({ s.log with queue := s.log.queue.tail }.open).append id item.journalSize }

/-- A record that does not fit goes to a new file. -/
theorem logWrite_rotated {id : Nat} {queue : List Nat} {item : Item}
    (hqueue : s.log.queue = id :: queue) (hitem : s.items[id]? = some item)
    (hpos : 0 < s.log.offset) (hfull : logSegmentSize ≤ s.log.offset + item.journalSize) :
    step s .logWrite = some (rotated s id item) := by
  have hrotate : needsRotation s.log.offset item.journalSize = true := by
    simp [needsRotation, hfull, hpos]
  simp only [step, ProxyState.logWrite, JournalLog.writeNext, hqueue, hitem, Option.map_some,
    Option.getD_some, hrotate, if_true, rotated, tail_cons]

/-- The record of the link is longer than a journal file. -/
theorem logSegmentSize_le_longLink {n : Nat} (hn : logSegmentSize ≤ n) :
    logSegmentSize ≤ (serializeInode 2 (longLink n) []).journalSize := by
  have hlength : (serializeInode 2 (longLink n) []).payload.length = 76 + (n + 1) := by
    simp only [serializeInode, longLink, Payload.length, InodeBody.length, length_replicate]
  unfold Item.journalSize
  rw [hlength]
  omega

/-- The root directory is on disk, and a long record comes next. -/
def longRecordQueued (n : Nat) : Option ProxyState :=
  runWhile step (fun s e => markerCurrent s e) (start false)
    (syncRoot ++ [.modify 2 (longLink n) [], .startSync 2])

/-- The long record is in the second file, and the marker comes next. -/
def markerQueued (n : Nat) : Option ProxyState :=
  runWhile step (fun s e => markerCurrent s e)
    (rotated ((longRecordQueued n).getD (start false)) 1 (serializeInode 2 (longLink n) []))
    [.getCommitPoint]

/-- The log thread has written the marker to a third file. -/
def markerInThirdFile (n : Nat) : ProxyState :=
  rotated ((markerQueued n).getD (start false)) 2
    { payload := .journalMarker, inum := 0, links := [] }

/-- A long record fills the second file, and the marker goes to the third. -/
theorem reachable_markerInThirdFile {n : Nat} (hn : logSegmentSize ≤ n) :
    Reachable step (fun s e => markerCurrent s e) (start false) (markerInThirdFile n) := by
  have hfull := logSegmentSize_le_longLink hn
  have hpos : 0 < (serializeInode 2 (longLink n) []).journalSize := Item.journalSize_pos _
  have hqueued := reachable_of_runWhile .start
    (show longRecordQueued n = some ((longRecordQueued n).getD (start false)) from rfl)
  have hlong := hqueued.next .logWrite rfl (logWrite_rotated rfl rfl (Nat.zero_lt_succ 132)
    (Nat.le_trans hfull (Nat.le_add_left _ _)))
  have hmarker := reachable_of_runWhile hlong
    (show markerQueued n = some ((markerQueued n).getD (start false)) from rfl)
  have hoffset : ((markerQueued n).getD (start false)).log.offset =
      0 + (serializeInode 2 (longLink n) []).journalSize := rfl
  refine hmarker.next .logWrite rfl (logWrite_rotated rfl rfl ?_ ?_)
  · rw [hoffset]
    omega
  · rw [hoffset]
    omega

/-- The marker of a flush is in the third file. The flush raises the watermark to it, the
first file is unlinked, and replay starts at the marker. -/
theorem watermark_le_replayStart_flush :
    ∃ s, Reachable step (fun s e => markerCurrent s e) (start false) s ∧
      s.log.journalWatermark = 2 ∧ s.log.unlinked = [0] ∧
      latestCommitPoint s.items s.log.durable = some (2, 0) ∧
      2 ≤ (replayStart s.items s.log s.log.durable).1 := by
  have hfacts : ∃ s ∈ runWhile step (fun s e => markerCurrent s e)
      (markerInThirdFile logSegmentSize)
      ([.logCommit, .readSeqNum, .drain 1, .endDrain, .writeMap, .putComplete 0] ++ endFlush ++
        [.gc 0]),
      s.log.journalWatermark = 2 ∧ s.log.unlinked = [0] ∧
        latestCommitPoint s.items s.log.durable = some (2, 0) := by
    decide +kernel
  rcases hfacts with ⟨s, hrun, hwatermark, hunlinked, hlatest⟩
  have hs := reachable_of_runWhile (reachable_markerInThirdFile (Nat.le_refl logSegmentSize)) hrun
  have hstart := ((watermark_le_replayStart false s hs).2 _ (prefix_refl _)
    (List.take_prefix _ _)).1
  rw [hwatermark] at hstart
  exact ⟨s, hs, hwatermark, hunlinked, hlatest, hstart⟩

/-! ## A marker that is overtaken -/

/-- The marker is in the first file, and a long record comes next. -/
def markerWritten (n : Nat) : Option ProxyState :=
  runWhile step anyStep (start false) [.modify 1 emptyDirectory [], .startSync 1, .logWrite,
    .getCommitPoint, .logWrite, .modify 2 (longLink n) [], .startSync 2]

/-- The log thread has written the long record to a second file. -/
def markerOvertaken (n : Nat) : ProxyState :=
  rotated ((markerWritten n).getD (start false)) 2 (serializeInode 2 (longLink n) [])

/-- The flush goes on with the number of the second file. -/
def commitPointQueued (n : Nat) : Option ProxyState :=
  runWhile step anyStep (markerOvertaken n)
    [.logCommit, .readSeqNum, .endDrain, .writeMap, .writeCommitPoint]

/-- The log thread has written the commit point to a third file. -/
def commitPointWritten (n : Nat) : ProxyState :=
  rotated ((commitPointQueued n).getD (start false)) 3
    { payload := .journalCheckpoint 0 133, inum := 0, links := [] }

/-- The flush ends, and the first file is unlinked. -/
def firstFileUnlinked (n : Nat) : Option ProxyState :=
  runWhile step anyStep (commitPointWritten n) [.logCommit, .finishFlush, .gc 0]

/-- The run with a marker that is overtaken. -/
theorem reachable_firstFileUnlinked {n : Nat} (hn : logSegmentSize ≤ n) :
    ∃ s, Reachable step anyStep (start false) s ∧ firstFileUnlinked n = some s := by
  have hfull := logSegmentSize_le_longLink hn
  have hpos : 0 < (serializeInode 2 (longLink n) []).journalSize := Item.journalSize_pos _
  have hmarker := reachable_of_runWhile .start
    (show markerWritten n = some ((markerWritten n).getD (start false)) from rfl)
  have hovertaken : Reachable step anyStep (start false) (markerOvertaken n) :=
    hmarker.next _ trivial (logWrite_rotated rfl rfl (Nat.zero_lt_succ 185)
      (Nat.le_trans hfull (Nat.le_add_left _ _)))
  have hqueued := reachable_of_runWhile hovertaken
    (show commitPointQueued n = some ((commitPointQueued n).getD (start false)) from rfl)
  have hoffset : ((commitPointQueued n).getD (start false)).log.offset =
      0 + (serializeInode 2 (longLink n) []).journalSize := rfl
  have hwritten : Reachable step anyStep (start false) (commitPointWritten n) := by
    refine hqueued.next _ trivial (logWrite_rotated rfl rfl ?_ ?_)
    · rw [hoffset]
      omega
    · rw [hoffset]
      omega
  have hrun : firstFileUnlinked n = some ((firstFileUnlinked n).getD (start false)) := rfl
  exact ⟨_, reachable_of_runWhile hwritten hrun, hrun⟩

/-- The log thread goes on to a second file between the marker and the reading of the
number, and the file in which replay would start is unlinked. -/
theorem marker_overtaken_unlinked :
    ∃ s, Reachable step anyStep (start false) s ∧
      latestCommitPoint s.items s.log.durable = some (0, 133) ∧
      s.log.journalWatermark = 1 ∧ 0 ∈ s.log.unlinked ∧
      replayStart s.items s.log s.log.durable = (0, 133) := by
  have hfacts : ((firstFileUnlinked logSegmentSize).any fun s =>
      latestCommitPoint s.items s.log.durable = some (0, 133) ∧
        s.log.journalWatermark = 1 ∧ 0 ∈ s.log.unlinked ∧
        replayStart s.items s.log s.log.durable = (0, 133)) = true := by
    decide +kernel
  rcases reachable_firstFileUnlinked (Nat.le_refl logSegmentSize) with ⟨s, hs, hrun⟩
  rw [hrun] at hfacts
  exact ⟨s, hs, of_decide_eq_true hfacts⟩

end BlueSky
