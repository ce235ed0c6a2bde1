import BlueSky.Proxy.Invariant

/-!
# The journal in a run of the proxy

What every step does to the journal: records are added at the end, at increasing
positions, and the part that is known to be on disk grows.  Where `bluesky_replay` starts
is decided by the commit points that it finds.

Main results:

- Theorem {lit}`advances_step`: items, records and the order of items only grow.
- Theorem {lit}`positionsOk_step`: the positions of the records increase.
- Theorem {lit}`le_replayStart`: replay starts no earlier than what a commit point names,
  if no later commit point names less.
-/

namespace BlueSky

open List Option PrecedenceLib ProxyState

/-! ## Growth -/

/-- What no step takes back. -/
structure Advances (s s' : ProxyState) : Prop where
  items : s.items <+: s'.items
  order : ∃ ids, s'.log.order = s.log.order ++ ids ∧ ∀ id ∈ ids, s.items.length ≤ id
  entries : s.log.entries <+: s'.log.entries
  committed : s.log.committed ≤ s'.log.committed
  seqNum : s.log.seqNum ≤ s'.log.seqNum

/-- The fields of the journal that only the log thread changes. -/
structure SameJournal (log log' : JournalLog) : Prop where
  entries : log'.entries = log.entries
  committed : log'.committed = log.committed
  seqNum : log'.seqNum = log.seqNum
  offset : log'.offset = log.offset

section Growth

variable {s s' : ProxyState}

/-- What the log thread does with the next item. -/
theorem writeNext_cases {items : List Item} {log log' : JournalLog}
    (h : log.writeNext items = some log') :
    ∃ id queue size seq offset committed, log.queue = id :: queue ∧ log'.queue = queue ∧
      size = ((items[id]?).map Item.journalSize).getD 0 ∧
      ((seq = log.seqNum ∧ offset = log.offset ∧ committed = log.committed) ∨
        (seq = log.seqNum + 1 ∧ offset = 0 ∧ committed = log.entries.length)) ∧
      log'.entries = log.entries ++ [⟨seq, offset, id⟩] ∧ log'.seqNum = seq ∧
      log'.offset = offset + size ∧ log'.committed = committed ∧
      log'.journalWatermark = log.journalWatermark ∧ log'.unlinked = log.unlinked := by
  unfold JournalLog.writeNext at h
  cases hqueue : log.queue with
  | nil =>
    rw [hqueue] at h
    cases h
  | cons id queue =>
    rw [hqueue] at h
    dsimp only at h
    rw [← some.inj h]
    by_cases hrotate : needsRotation log.offset ((items[id]?.map Item.journalSize).getD 0)
    · rw [if_pos hrotate]
      exact ⟨id, queue, _, _, _, _, rfl, rfl, rfl, Or.inr ⟨rfl, rfl, rfl⟩, rfl, rfl, rfl, rfl,
        rfl, rfl⟩
    · rw [if_neg hrotate]
      exact ⟨id, queue, _, _, _, _, rfl, rfl, rfl, Or.inl ⟨rfl, rfl, rfl⟩, rfl, rfl, rfl, rfl,
        rfl, rfl⟩

/-- The number of committed records is no larger than that of the records. -/
def CommittedOk (log : JournalLog) : Prop :=
  log.committed ≤ log.entries.length

variable {e : Event}

/-- What a step does to the journal: nothing, or one record more, or a commit. -/
theorem journal_step (hstep : step s e = some s') :
    SameJournal s.log s'.log ∨ (e = .logWrite ∧ s.log.writeNext s.items = some s'.log) ∨
      s'.log = s.log.commit := by
  cases stepped hstep with
  | logWrite log hlog => exact Or.inr (Or.inl ⟨rfl, hlog⟩)
  | logCommit => exact Or.inr (Or.inr rfl)
  | _ => exact Or.inl ⟨rfl, rfl, rfl, rfl⟩

/-- The items after a step. -/
theorem items_step (hstep : step s e = some s') : s.items <+: s'.items := by
  cases stepped hstep with
  | startSync inode r _ _ _ hflushed =>
    exact hflushed.isPrefix.trans (prefix_append _ _)
  | getCommitPoint => exact prefix_append _ _
  | writeMap marker start _ r _ _ hsec =>
    exact hsec.isPrefix.trans (prefix_append _ _)
  | writeCommitPoint => exact prefix_append _ _
  | _ => exact prefix_rfl

/-- The order of the items after a step: new items come last. -/
theorem order_step (hstep : step s e = some s') :
    ∃ ids, s'.log.order = s.log.order ++ ids ∧ ∀ id ∈ ids, s.items.length ≤ id := by
  have hsame : s'.log.order = s.log.order →
      ∃ ids, s'.log.order = s.log.order ++ ids ∧ ∀ id ∈ ids, s.items.length ≤ id := by
    intro h
    exact ⟨[], by rw [h, append_nil], by simp⟩
  cases stepped hstep with
  | startSync inode r _ _ _ hflushed =>
    refine ⟨r.2.2 ++ [r.1.length], order_submit _ _, forall_mem_append.mpr ⟨?_, ?_⟩⟩
    · rw [hflushed.ids]
      exact fun id hid => (List.mem_range'_1.mp hid).1
    · simpa using hflushed.isPrefix.length_le
  | logWrite log hlog => exact hsame (order_writeNext hlog)
  | getCommitPoint => exact ⟨[s.items.length], order_submit _ _, by simp⟩
  | writeCommitPoint => exact ⟨[s.items.length], order_submit _ _, by simp⟩
  | _ => exact hsame rfl

/-- Items, records and the order of items only grow. -/
theorem advances_step (hcommitted : CommittedOk s.log) (hstep : step s e = some s') :
    Advances s s' := by
  have hitems := items_step hstep
  have horder := order_step hstep
  rcases journal_step hstep with hsame | ⟨-, hwrite⟩ | hcommit
  · refine ⟨hitems, horder, ?_, Nat.le_of_eq hsame.committed.symm, Nat.le_of_eq hsame.seqNum.symm⟩
    rw [hsame.entries]
  · rcases writeNext_cases hwrite with
      ⟨id, queue, size, seq, offset, committed, -, -, -, hplace, hentries, hseq, -, hcom, -, -⟩
    refine ⟨hitems, horder, ?_, ?_, ?_⟩
    · rw [hentries]
      exact prefix_append _ _
    · rw [hcom]
      rcases hplace with ⟨-, -, rfl⟩ | ⟨-, -, rfl⟩
      · exact Nat.le_refl _
      · exact hcommitted
    · rw [hseq]
      rcases hplace with ⟨rfl, -⟩ | ⟨rfl, -⟩
      · exact Nat.le_refl _
      · exact Nat.le_succ _
  · refine ⟨hitems, horder, ?_, ?_, ?_⟩ <;> rw [hcommit]
    · exact prefix_rfl
    · exact hcommitted
    · exact Nat.le_refl _

/-- The records that are on disk stay. -/
theorem Advances.durable (h : Advances s s') : s.log.durable <+: s'.log.durable := by
  rcases h.entries with ⟨rest, hrest⟩
  unfold JournalLog.durable
  rw [← hrest]
  refine List.IsPrefix.trans ?_ (take_prefix_take_left h.committed)
  rw [take_append]
  exact prefix_append _ _

theorem isCommitted_mono (hadv : Advances s s') {id : Nat} (h : s.log.isCommitted id) :
    s'.log.isCommitted id := by
  unfold JournalLog.isCommitted at h ⊢
  rcases List.any_eq_true.mp h with ⟨entry, hentry, hid⟩
  exact List.any_eq_true.mpr ⟨entry, hadv.durable.subset hentry, hid⟩

end Growth

/-! ## Positions -/

/-- The record lies before a position. -/
def JournalEntry.Before (entry : JournalEntry) (position : Nat × Nat) : Prop :=
  entry.seq < position.1 ∨ (entry.seq = position.1 ∧ entry.offset < position.2)

instance (entry : JournalEntry) (position : Nat × Nat) : Decidable (entry.Before position) :=
  inferInstanceAs (Decidable (_ ∨ _))

theorem JournalEntry.Before.trans {a b : JournalEntry} {p : Nat × Nat}
    (h : a.Before (b.seq, b.offset)) (h' : b.Before p) : a.Before p := by
  unfold JournalEntry.Before at h h' ⊢
  dsimp only at h h'
  omega

/-- The positions of the records increase, up to the end of the open file. -/
structure PositionsOk (items : List Item) (log : JournalLog) : Prop where
  committed : CommittedOk log
  exist : ∀ id ∈ log.order, id < items.length
  sorted : log.entries.Pairwise fun a b => a.Before (b.seq, b.offset)
  before : ∀ entry ∈ log.entries, entry.Before (log.seqNum, log.offset)

variable {items : List Item}

theorem PositionsOk.seq_le {log : JournalLog} (h : PositionsOk items log) {entry : JournalEntry}
    (hentry : entry ∈ log.entries) : entry.seq ≤ log.seqNum := by
  rcases h.before entry hentry with hlt | ⟨heq, -⟩
  · exact Nat.le_of_lt hlt
  · exact Nat.le_of_eq heq

theorem PositionsOk.before_of {log : JournalLog} (h : PositionsOk items log) {a b : JournalEntry}
    (hprec : Precedes log.entries a b) : a.Before (b.seq, b.offset) :=
  Precedes.of_pairwise (r := fun a b => a.Before (b.seq, b.offset)) h.sorted hprec

theorem positionsOk_start (disableAggregation : Bool) :
    PositionsOk (start disableAggregation).items (start disableAggregation).log where
  committed := Nat.le_refl 0
  exist := by simp [start, JournalLog.order]
  sorted := List.Pairwise.nil
  before := by simp [start]

/-- The record that is written lies behind all others. -/
theorem positionsOk_writeNext {log log' : JournalLog} (h : PositionsOk items log)
    (hwrite : log.writeNext items = some log') :
    PositionsOk items log' := by
  have horder := order_writeNext hwrite
  rcases writeNext_cases hwrite with
    ⟨id, queue, size, seq, offset, committed, hqueue, -, hsize, hplace, hentries, hseq, hoffset,
      hcom, -, -⟩
  have hid : id < items.length := h.exist id (by simp [JournalLog.order, hqueue])
  have hpos : 0 < size := by
    rw [hsize, getElem?_eq_getElem hid]
    exact Item.journalSize_pos _
  have hbehind : ∀ entry ∈ log.entries, entry.Before (seq, offset) := by
    intro entry hentry
    rcases hplace with ⟨rfl, rfl, -⟩ | ⟨rfl, rfl, -⟩
    · exact h.before entry hentry
    · exact Or.inl (Nat.lt_succ_of_le (h.seq_le hentry))
  refine ⟨?_, horder ▸ h.exist, ?_, ?_⟩
  · unfold CommittedOk
    rw [hcom, hentries, length_append, length_singleton]
    have := h.committed
    unfold CommittedOk at this
    rcases hplace with ⟨-, -, rfl⟩ | ⟨-, -, rfl⟩ <;> omega
  · rw [hentries]
    refine pairwise_append.mpr ⟨h.sorted, pairwise_singleton _ _, ?_⟩
    simpa using hbehind
  · rw [hentries, hseq, hoffset]
    have hend : JournalEntry.Before ⟨seq, offset, id⟩ (seq, offset + size) :=
      Or.inr ⟨rfl, Nat.lt_add_of_pos_right hpos⟩
    refine forall_mem_append.mpr ⟨fun entry hentry => (hbehind entry hentry).trans hend, ?_⟩
    simpa using hend

/-- The positions of the records increase in every run. -/
theorem positionsOk_step {s s' : ProxyState} {e : Event} (hcore : CoreInv s')
    (h : PositionsOk s.items s.log) (hstep : step s e = some s') :
    PositionsOk s'.items s'.log := by
  have hexist : ∀ id ∈ s'.log.order, id < s'.items.length := fun id hid => hcore.order_lt hid
  rcases journal_step hstep with hsame | ⟨-, hwrite⟩ | hcommit
  · refine ⟨?_, hexist, ?_, ?_⟩
    · unfold CommittedOk
      rw [hsame.committed, hsame.entries]
      exact h.committed
    · rw [hsame.entries]
      exact h.sorted
    · rw [hsame.entries, hsame.seqNum, hsame.offset]
      exact h.before
  · have hnext := positionsOk_writeNext h hwrite
    exact ⟨hnext.committed, hexist, hnext.sorted, hnext.before⟩
  · rw [hcommit] at hexist ⊢
    exact ⟨Nat.le_refl _, hexist, h.sorted, h.before⟩

/-! ## Commit points -/

/-- Where an item says that replay is to start, if it is a commit point. -/
def commitPosition (items : List Item) (id : Nat) : Option (Nat × Nat) :=
  match items[id]? with
  | some ⟨.journalCheckpoint seq offset, _, _⟩ => some (seq, offset)
  | _ => none

/-- The item is a commit point that names a position. -/
def IsCommitPoint (items : List Item) (id seq offset : Nat) : Prop :=
  commitPosition items id = some (seq, offset)

theorem commitPosition_eq_none {id : Nat} (h : items.length ≤ id) :
    commitPosition items id = none := by
  unfold commitPosition
  rw [getElem?_eq_none h]

variable {seq : Nat}

theorem IsCommitPoint.lt_length {id offset : Nat} (h : IsCommitPoint items id seq offset) :
    id < items.length := by
  by_contra hle
  have hnone := commitPosition_eq_none (Nat.le_of_not_lt hle)
  rw [IsCommitPoint, hnone] at h
  cases h

theorem commitPosition_snoc (items : List Item) (item : Item) (id : Nat) :
    commitPosition (items ++ [item]) id =
      if id = items.length then commitPosition [item] 0 else commitPosition items id := by
  unfold commitPosition
  split_ifs with hid
  · rw [hid, getElem?_concat_length, getElem?_cons_zero]
  · by_cases hlt : id < items.length
    · rw [getElem?_append_left hlt]
    · rw [getElem?_eq_none (by simp; omega), getElem?_eq_none (by omega)]

/-- An item that is no commit point. -/
theorem commitPosition_snoc_plain {item : Item} (hplain : commitPosition [item] 0 = none)
    (id : Nat) :
    commitPosition (items ++ [item]) id = commitPosition items id := by
  rw [commitPosition_snoc]
  split_ifs with hid
  · rw [hplain, commitPosition_eq_none (Nat.le_of_eq hid.symm)]
  · rfl

theorem commitPosition_fileFlushBlocks (inum : Nat) (items : List Item)
    (blocks : List MemBlock) (id : Nat) :
    commitPosition (fileFlushBlocks inum items blocks).1 id = commitPosition items id := by
  induction blocks generalizing items with
  | nil => rfl
  | cons block blocks ih =>
    cases block with
    | zero => exact ih items
    | ref id => exact ih items
    | dirty bytes => exact (ih _).trans (commitPosition_snoc_plain rfl id)

theorem commitPosition_serializeSections (items : List Item) (m : InodeMap) (id : Nat) :
    commitPosition (serializeSections items m).1 id = commitPosition items id := by
  induction m generalizing items with
  | nil => rfl
  | cons r m ih =>
    unfold serializeSections
    cases r.serialized with
    | some section' => exact ih items
    | none => exact (ih _).trans (commitPosition_snoc_plain rfl id)

/-- Only `bluesky_log_write_commit_point` creates a commit point. -/
theorem commitPosition_step {s s' : ProxyState} {e : Event} (hstep : step s e = some s')
    (he : e ≠ .writeCommitPoint) (id : Nat) :
    commitPosition s'.items id = commitPosition s.items id := by
  cases stepped hstep with
  | startSync inode r _ _ hr =>
    subst hr
    exact (commitPosition_snoc_plain rfl id).trans (commitPosition_fileFlushBlocks _ _ _ id)
  | getCommitPoint => exact commitPosition_snoc_plain rfl id
  | writeMap marker start _ r _ hr =>
    subst hr
    exact (commitPosition_snoc_plain rfl id).trans (commitPosition_serializeSections _ _ id)
  | writeCommitPoint => exact absurd rfl he
  | _ => rfl

/-- The commit points after `bluesky_log_write_commit_point`. -/
theorem isCommitPoint_snoc {id offset seq' offset' : Nat} :
    IsCommitPoint (items ++
      [{ payload := .journalCheckpoint seq' offset', inum := 0, links := [] }]) id seq offset ↔
        IsCommitPoint items id seq offset ∨
          (id = items.length ∧ seq = seq' ∧ offset = offset') := by
  unfold IsCommitPoint
  rw [commitPosition_snoc]
  split_ifs with hid
  · rw [commitPosition_eq_none (Nat.le_of_eq hid.symm)]
    simp [commitPosition, hid, eq_comm]
  · simp [hid]

/-- `bluesky_replay_scan_journal` on one record. -/
def scanRecord (items : List Item) (position : Nat × Nat) (entry : JournalEntry) : Nat × Nat :=
  (commitPosition items entry.id).getD position

/-- `bluesky_replay_scan_journal` on a file: the last commit point counts. -/
def scanCommitPoints (items : List Item) (entries : List JournalEntry) (seq : Nat) : Nat × Nat :=
  (entries.filter fun entry => entry.seq = seq).foldl (scanRecord items) (0, 0)

/-- The search of `bluesky_replay` for the most recent commit point, in files in
descending order. -/
def findStart (items : List Item) (entries : List JournalEntry) : List Nat → Nat × Nat
  | [] => (0, 0)
  | seq :: files =>
    let position := scanCommitPoints items entries seq
    if position ≠ (0, 0) then position else findStart items entries files

/-- Where `bluesky_replay` starts if it finds the given records in the files that have not
been unlinked. -/
def replayStart (items : List Item) (log : JournalLog) (entries : List JournalEntry) :
    Nat × Nat :=
  findStart items entries
    ((List.range (log.seqNum + 1)).reverse.filter fun seq => seq ∉ log.unlinked)

variable {w : Nat}

theorem scanRecord_foldl_of_point {entries : List JournalEntry}
    (hge : ∀ entry ∈ entries, ∀ seq offset, IsCommitPoint items entry.id seq offset → w ≤ seq)
    {position : Nat × Nat} (hstart : w ≤ position.1) :
    w ≤ (entries.foldl (scanRecord items) position).1 := by
  induction entries generalizing position with
  | nil => exact hstart
  | cons entry entries ih =>
    rw [foldl_cons]
    refine ih (fun e he => hge e (mem_cons_of_mem _ he)) ?_
    unfold scanRecord
    cases hpoint : commitPosition items entry.id with
    | none => exact hstart
    | some p => exact hge entry mem_cons_self p.1 p.2 hpoint

/-- A file without commit points. -/
theorem scanRecord_foldl_of_plain {entries : List JournalEntry}
    (hplain : ∀ entry ∈ entries, commitPosition items entry.id = none) (position : Nat × Nat) :
    entries.foldl (scanRecord items) position = position := by
  induction entries generalizing position with
  | nil => rfl
  | cons entry entries ih =>
    rw [foldl_cons]
    have hentry : scanRecord items position entry = position := by
      unfold scanRecord
      rw [hplain entry mem_cons_self, getD_none]
    rw [hentry]
    exact ih (fun e he => hplain e (mem_cons_of_mem _ he)) position

variable {point : JournalEntry}

/-- The last commit point counts, and none from some record on names less. -/
theorem le_foldl_scanRecord {front rest : List JournalEntry} {p : Nat × Nat}
    (hcommit : commitPosition items point.id = some p) (hw : w ≤ p.1)
    (hge : ∀ entry ∈ rest, ∀ seq offset, IsCommitPoint items entry.id seq offset → w ≤ seq) :
    w ≤ ((front ++ point :: rest).foldl (scanRecord items) (0, 0)).1 := by
  rw [foldl_append, foldl_cons]
  refine scanRecord_foldl_of_point hge ?_
  rwa [scanRecord, hcommit, getD_some]

/-- A file with a commit point. -/
theorem le_scanCommitPoints {entries : List JournalEntry} (hpoint : point ∈ entries)
    (hseq : point.seq = seq) {pseq poffset : Nat}
    (hcommit : IsCommitPoint items point.id pseq poffset) (hw : w ≤ pseq)
    (hlater : ∀ entry, Precedes entries point entry →
      ∀ seq offset, IsCommitPoint items entry.id seq offset → w ≤ seq) :
    w ≤ (scanCommitPoints items entries seq).1 := by
  rcases append_of_mem hpoint with ⟨front, rest, rfl⟩
  rw [scanCommitPoints, filter_append, filter_cons_of_pos (by simpa using hseq)]
  refine le_foldl_scanRecord hcommit hw fun entry hentry => hlater entry ?_
  refine precedes_append.mpr (Or.inr (Or.inr ?_))
  exact List.Sublist.cons_cons _ (singleton_sublist.mpr (mem_filter.mp hentry).1)

/-- A file with only later records: it has no commit point, or names no less. -/
theorem le_scanCommitPoints_of_later {entries : List JournalEntry}
    (hlater : ∀ entry ∈ entries, entry.seq = seq →
      ∀ seq offset, IsCommitPoint items entry.id seq offset → w ≤ seq) :
    scanCommitPoints items entries seq = (0, 0) ∨ w ≤ (scanCommitPoints items entries seq).1 := by
  unfold scanCommitPoints
  by_cases hplain : ∀ entry ∈ entries.filter (fun entry => entry.seq = seq),
      commitPosition items entry.id = none
  · exact Or.inl (scanRecord_foldl_of_plain hplain _)
  · push Not at hplain
    rcases hplain with ⟨point, hpoint, hsome⟩
    rcases ne_none_iff_exists'.mp hsome with ⟨p, hp⟩
    rcases append_of_mem hpoint with ⟨front, rest, hsplit⟩
    have hge : ∀ entry ∈ entries.filter (fun entry => entry.seq = seq),
        ∀ seq offset, IsCommitPoint items entry.id seq offset → w ≤ seq := by
      intro entry hentry
      rcases mem_filter.mp hentry with ⟨hmem, hseq⟩
      exact hlater entry hmem (by simpa using hseq)
    refine Or.inr ?_
    rw [hsplit] at hge ⊢
    exact le_foldl_scanRecord hp (hge point (by simp) p.1 p.2 hp)
      fun entry hentry => hge entry (by simp [hentry])

/-- Replay starts no earlier than what a commit point names, if its file is there and no
later commit point names less. -/
theorem le_replayStart {log : JournalLog} {entries : List JournalEntry}
    (hsorted : entries.Pairwise fun a b => a.Before (b.seq, b.offset)) (hpos : 0 < w)
    (hpoint : point ∈ entries) (hfile : point.seq ≤ log.seqNum) (hlinked : point.seq ∉ log.unlinked)
    {pseq poffset : Nat} (hcommit : IsCommitPoint items point.id pseq poffset) (hw : w ≤ pseq)
    (hlater : ∀ entry, Precedes entries point entry →
      ∀ seq offset, IsCommitPoint items entry.id seq offset → w ≤ seq) :
    w ≤ (replayStart items log entries).1 := by
  have hscan : ∀ n, point.seq ≤ n →
      (scanCommitPoints items entries n = (0, 0) ∧ n ≠ point.seq) ∨
        w ≤ (scanCommitPoints items entries n).1 := by
    intro n hn
    by_cases heq : point.seq = n
    · exact Or.inr (le_scanCommitPoints hpoint heq hcommit hw hlater)
    · have hbehind : ∀ entry ∈ entries, entry.seq = n → Precedes entries point entry := by
        intro entry hentry hseq
        rcases precedes_total hpoint hentry (by rintro rfl; exact heq hseq) with hprec | hprec
        · exact hprec
        · have hbefore := hprec.of_pairwise hsorted
          unfold JournalEntry.Before at hbefore
          dsimp only at hbefore
          omega
      rcases le_scanCommitPoints_of_later fun entry hentry hseq =>
        hlater entry (hbehind entry hentry hseq) with hzero | hle
      · exact Or.inl ⟨hzero, fun h => heq h.symm⟩
      · exact Or.inr hle
  -- The files behind that of the commit point name nothing, or no less.
  have hfind : ∀ m, point.seq < m → w ≤ (findStart items entries
      ((List.range m).reverse.filter fun seq => seq ∉ log.unlinked)).1 := by
    intro m
    induction m with
    | zero => exact fun h => absurd h (Nat.not_lt_zero _)
    | succ m ih =>
      intro hm
      rw [range_succ, reverse_append, reverse_singleton, singleton_append]
      by_cases hgone : m ∈ log.unlinked
      · rw [filter_cons_of_neg (by simpa using hgone)]
        refine ih (Nat.lt_of_le_of_ne (Nat.le_of_lt_succ hm) ?_)
        rintro rfl
        exact hlinked hgone
      · rw [filter_cons_of_pos (by simpa using hgone), findStart]
        rcases hscan m (Nat.le_of_lt_succ hm) with ⟨hzero, hne⟩ | hle
        · rw [hzero, if_neg (by simp)]
          exact ih (Nat.lt_of_le_of_ne (Nat.le_of_lt_succ hm) (Ne.symm hne))
        · have hnonzero : scanCommitPoints items entries m ≠ (0, 0) := by
            intro hzero
            rw [hzero] at hle
            exact absurd hle (Nat.not_le_of_lt hpos)
          rw [if_pos hnonzero]
          exact hle
  exact hfind _ (Nat.lt_succ_of_le hfile)

end BlueSky
