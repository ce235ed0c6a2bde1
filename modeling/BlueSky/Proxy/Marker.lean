import BlueSky.Proxy.Steps

/-!
# The wait for a journal marker

`bluesky_log_get_commit_point` queues a marker and waits as long as the flag is set that says
that the log thread is about to write it.  The log thread sets this flag when it begins with the
marker, so that there is no wait if the flag is tested while the marker is still in the queue.
Here the log thread moves in smaller steps than in the model of the whole proxy: it takes an item
off the queue, marks it under its lock, writes the record, and notes the position in the item.

Main results:

- Theorem {lit}`marker_committed`: if the log thread begins with each marker before its flag is
  first tested, the marker is committed when the wait is over, and the commit point names its
  position.
-/

namespace BlueSky

open Function List Option TransitionLib

/-! ## The system -/

/-- Where the log thread is. -/
inductive LogThread where
  | idle
  /-- It has taken an item off the queue. -/
  | popped (id : Nat)
  /-- It has locked the item and marked it as pending. -/
  | marked (id : Nat)
  /-- It has written the record. -/
  | written (id offset : Nat)
  /-- It has set `log_seq`. -/
  | seqSet (id offset : Nat)
  /-- It has set `log_offset`. -/
  | placed (id : Nat)
  /-- It has unlocked the item. -/
  | unlocked
deriving DecidableEq, Repr

/-- The item that the log thread has locked. -/
def LogThread.locked : LogThread → Option Nat
  | marked id => some id
  | written id _ => some id
  | seqSet id _ => some id
  | placed id => some id
  | _ => none

/-- Where the thread that makes commit points is. -/
inductive CommitThread where
  | idle
  /-- In `bluesky_log_get_commit_point`, before the first test of the flag. -/
  | called (marker : Nat)
  /-- In `bluesky_log_get_commit_point`, waiting for the condition. -/
  | waiting (marker : Nat)
  /-- Between the two calls. -/
  | returned (marker : Nat)
  /-- In `bluesky_log_write_commit_point`, having read `marker->log_seq`. -/
  | seqRead (marker seq : Nat)
  /-- Waiting for the commit point to be committed. -/
  | committing (commit : Nat)
deriving DecidableEq, Repr

/-- Items with their flags, the journal, and the two threads. -/
structure MarkerState where
  items : List Item
  log : JournalLog
  /-- `pending_write & CLOUDLOG_JOURNAL`. -/
  pendingWrite : Nat → Bool
  /-- `location_flags & CLOUDLOG_JOURNAL`. -/
  journal : Nat → Bool
  logSeq : Nat → Nat
  logOffset : Nat → Nat
  /-- `log->committed`, the items that the next commit will be for. -/
  batch : List Nat
  thread : LogThread
  committer : CommitThread
  /-- History: the markers and their commit points. -/
  points : List (Nat × Nat)

namespace MarkerState

/-- An empty journal that begins with the given file. -/
def start (seqNum : Nat) : MarkerState where
  items := []
  log :=
    { entries := [], seqNum := seqNum, offset := 0, committed := 0, queue := []
      journalWatermark := 0, unlinked := [] }
  pendingWrite := fun _ => false
  journal := fun _ => false
  logSeq := fun _ => 0
  logOffset := fun _ => 0
  batch := []
  thread := .idle
  committer := .idle
  points := []

/-- `log_commit`. -/
def logCommit (s : MarkerState) : MarkerState :=
  { s with
    log := s.log.commit
    pendingWrite := fun id => if id ∈ s.batch then false else s.pendingWrite id
    journal := fun id => if id ∈ s.batch then true else s.journal id
    batch := [] }

/-- `log_open`, when a record does not fit into the open file. -/
def logOpen (s : MarkerState) : MarkerState :=
  { s.logCommit with log := s.logCommit.log.open }

/-- The record of an item is written at the end of the open file. -/
def logAppend (s : MarkerState) (id size : Nat) : MarkerState :=
  { s with
    log := s.log.append id size
    thread := .written id s.log.offset }

/-- A new item that is submitted to the log thread. -/
def submitNew (s : MarkerState) (item : Item) : MarkerState :=
  { s with
    items := s.items ++ [item]
    log := s.log.submit [s.items.length] }

/-- The size of the record of an item. -/
def recordSize (s : MarkerState) (id : Nat) : Nat :=
  ((s.items[id]?).map Item.journalSize).getD 0

/-- The steps. -/
inductive Event where
  /-- Another thread creates an item and submits it. -/
  | submit (item : Item)
  /-- Another thread submits an item again. -/
  | resubmit (id : Nat)
  | logPop
  | logMark
  | logWrite
  | logSetSeq
  | logSetOffset
  | logUnlock
  | logCheck
  | getCommitPoint
  | testPending
  | endWait
  | readSeq
  | writeCommitPoint
  | endCommit
deriving DecidableEq, Repr

/-- One step of one thread. -/
def step (s : MarkerState) : Event → Option MarkerState
  | .submit item => some (s.submitNew item)
  | .resubmit id =>
    if id < s.items.length ∧ s.journal id = false then
      some { s with log := s.log.submit [id] }
    else none
  | .logPop =>
    match s.thread, s.log.queue with
    | .idle, id :: queue =>
      some { s with log := { s.log with queue := queue }, thread := .popped id }
    | _, _ => none
  | .logMark =>
    match s.thread with
    | .popped id =>
      -- the item may have been written to the journal already
      if s.journal id || s.pendingWrite id then some { s with thread := .idle }
      else
        some { s with
          pendingWrite := update s.pendingWrite id true
          thread := .marked id }
    | _ => none
  | .logWrite =>
    match s.thread with
    | .marked id =>
      some ((if needsRotation s.log.offset (s.recordSize id) then s.logOpen else s).logAppend id
        (s.recordSize id))
    | _ => none
  | .logSetSeq =>
    match s.thread with
    | .written id offset =>
      some { s with
        logSeq := update s.logSeq id s.log.seqNum
        thread := .seqSet id offset }
    | _ => none
  | .logSetOffset =>
    match s.thread with
    | .seqSet id offset =>
      some { s with
        logOffset := update s.logOffset id offset
        thread := .placed id }
    | _ => none
  | .logUnlock =>
    match s.thread with
    | .placed id => some { s with batch := id :: s.batch, thread := .unlocked }
    | _ => none
  | .logCheck =>
    match s.thread with
    | .unlocked =>
      some { (if s.log.queue = [] then s.logCommit else s) with thread := .idle }
    | _ => none
  | .getCommitPoint =>
    match s.committer with
    | .idle =>
      some { s.submitNew { payload := .journalMarker, inum := 0, links := [] } with
        committer := .called s.items.length }
    | _ => none
  | .testPending =>
    match s.committer with
    | .called marker =>
      if s.thread.locked ≠ some marker then
        some { s with
          committer := if s.pendingWrite marker then .waiting marker else .returned marker }
      else none
    | _ => none
  | .endWait =>
    match s.committer with
    | .waiting marker =>
      if s.thread.locked ≠ some marker ∧ s.pendingWrite marker = false then
        some { s with committer := .returned marker }
      else none
    | _ => none
  | .readSeq =>
    match s.committer with
    | .returned marker => some { s with committer := .seqRead marker (s.logSeq marker) }
    | _ => none
  | .writeCommitPoint =>
    match s.committer with
    | .seqRead marker seq =>
      some { s.submitNew
          { payload := .journalCheckpoint seq (s.logOffset marker)
            inum := 0
            links := [] } with
        committer := .committing s.items.length
        points := (marker, s.items.length) :: s.points }
    | _ => none
  | .endCommit =>
    match s.committer with
    | .committing commit =>
      if s.thread.locked ≠ some commit ∧ s.journal commit then
        some { s with committer := .idle }
      else none
    | _ => none

end MarkerState

/-! ## The property -/

/-- The marker that `bluesky_log_get_commit_point` has returned. -/
def CommitThread.returnedMarker : CommitThread → Option Nat
  | returned marker => some marker
  | seqRead marker _ => some marker
  | _ => none

/-- The marker whose flag `bluesky_log_get_commit_point` is about to test. -/
def CommitThread.calledFor : CommitThread → Option Nat
  | called marker => some marker
  | _ => none

/-- Markers that have been returned are committed, each item has one record, and commit points
name the records of their markers. -/
structure CommitPointSound (s : MarkerState) : Prop where
  committed : ∀ marker, s.committer.returnedMarker = some marker → s.log.isCommitted marker
  single : (s.log.entries.map JournalEntry.id).Nodup
  named : ∀ marker commit, (marker, commit) ∈ s.points →
    ∃ entry ∈ s.log.entries, entry.id = marker ∧
      (s.items[commit]?).map Item.payload = some (.journalCheckpoint entry.seq entry.offset)

/-- The log thread has begun with an item: it has marked it, or has committed it since. -/
def MarkerState.Begun (s : MarkerState) (id : Nat) : Prop :=
  s.pendingWrite id = true ∨ s.journal id = true

/-- The log thread has begun with the marker when its flag is tested for the first time. -/
def MarkerMarked (s : MarkerState) (e : MarkerState.Event) : Prop :=
  e = .testPending → ∀ marker ∈ s.committer.calledFor, s.Begun marker

instance MarkerState.Begun.decidable (s : MarkerState) (id : Nat) : Decidable (s.Begun id) :=
  inferInstanceAs (Decidable (_ ∨ _))

instance MarkerMarked.decidable (s : MarkerState) (e : MarkerState.Event) :
    Decidable (MarkerMarked s e) :=
  inferInstanceAs (Decidable (_ → ∀ marker ∈ s.committer.calledFor, s.Begun marker))

/-! ## The invariant -/

/-- The record of an item as the item knows it. -/
def MarkerState.noted (s : MarkerState) (id : Nat) : JournalEntry :=
  ⟨s.logSeq id, s.logOffset id, id⟩

/-- What the log thread knows about the item that it has locked. -/
def MarkerState.Progress (s : MarkerState) : LogThread → Prop
  | .marked id => id ∉ s.log.entries.map JournalEntry.id
  | .written id offset => ⟨s.log.seqNum, offset, id⟩ ∈ s.log.entries
  | .seqSet id offset => ⟨s.logSeq id, offset, id⟩ ∈ s.log.entries
  | .placed id => s.noted id ∈ s.log.entries
  | _ => True

/-- The log thread and its items. -/
structure LogInv (s : MarkerState) : Prop where
  recorded : ∀ entry ∈ s.log.entries, s.Begun entry.id
  single : (s.log.entries.map JournalEntry.id).Nodup
  locked : ∀ id, s.thread.locked = some id →
    s.pendingWrite id = true ∧ s.journal id = false ∧ id ∉ s.batch
  progress : s.Progress s.thread
  batch : ∀ id ∈ s.batch, s.pendingWrite id = true ∧ s.journal id = false ∧
    s.noted id ∈ s.log.entries
  journaled : ∀ id, s.journal id = true → s.noted id ∈ s.log.durable

/-- What no step changes: items, that they have been begun with, and the positions of those that
are journaled. -/
structure MarkerState.Keeps (s s' : MarkerState) : Prop where
  items : s.items <+: s'.items
  begun : ∀ id, s.Begun id → s'.Begun id
  journal : ∀ id, s.journal id = true → s'.journal id = true
  position : ∀ id, s.journal id = true → s'.noted id = s.noted id

namespace LogInv

variable {s : MarkerState}

theorem start (seqNum : Nat) : LogInv (.start seqNum) := by
  refine ⟨by simp [MarkerState.start], by simp [MarkerState.start], ?_, trivial,
    by simp [MarkerState.start], by simp [MarkerState.start]⟩
  intro id hid
  cases hid

theorem mem_durable_commit {log : JournalLog} {entry : JournalEntry}
    (h : entry ∈ log.entries) : entry ∈ log.commit.durable := by
  rw [JournalLog.durable, JournalLog.commit, take_length]
  exact h

theorem entries_of_durable {log : JournalLog} {entry : JournalEntry} (h : entry ∈ log.durable) :
    entry ∈ log.entries :=
  mem_of_mem_take h

/-- A commit turns pending items into journaled ones. -/
theorem begun_logCommit {id : Nat} (h : s.Begun id) : s.logCommit.Begun id := by
  by_cases hbatch : id ∈ s.batch
  · exact Or.inr (if_pos hbatch)
  · simp only [MarkerState.Begun, MarkerState.logCommit, if_neg hbatch]
    exact h

/-- A commit makes all records durable, and marks those of the batch. -/
theorem logCommit (h : LogInv s) : LogInv s.logCommit := by
  refine ⟨fun entry hentry => begun_logCommit (h.recorded entry hentry), h.single, ?_, h.progress,
    by simp [MarkerState.logCommit], ?_⟩
  · intro id hid
    rcases h.locked id hid with ⟨hpending, hjournal, hbatch⟩
    simp only [MarkerState.logCommit, if_neg hbatch]
    exact ⟨hpending, hjournal, by simp⟩
  · intro id hid
    by_cases hbatch : id ∈ s.batch
    · exact mem_durable_commit (h.batch id hbatch).2.2
    · simp only [MarkerState.logCommit, if_neg hbatch] at hid
      exact mem_durable_commit (entries_of_durable (h.journaled id hid))

/-- A new file is opened while the log thread has marked an item. -/
theorem logOpen (h : LogInv s) {id : Nat} (hthread : s.thread = .marked id) :
    LogInv s.logOpen := by
  have hprogress := h.progress
  rw [hthread] at hprogress
  have hopened : s.logOpen.thread = .marked id := hthread
  refine { h.logCommit with progress := ?_, journaled := ?_ }
  · rw [hopened]
    exact hprogress
  · intro id hid
    exact mem_durable_commit (entries_of_durable (h.logCommit.journaled id hid))

/-- The record of the marked item is written. -/
theorem logAppend (h : LogInv s) {id : Nat} (hthread : s.thread = .marked id) (size : Nat) :
    LogInv (s.logAppend id size) := by
  have hlocked := h.locked id (by rw [hthread]; rfl)
  have hnew : id ∉ s.log.entries.map JournalEntry.id := by
    have hprogress := h.progress
    rw [hthread] at hprogress
    exact hprogress
  have hentries : (s.logAppend id size).log.entries =
      s.log.entries ++ [⟨s.log.seqNum, s.log.offset, id⟩] := rfl
  refine ⟨?_, ?_, ?_, ?_, ?_, ?_⟩
  · intro entry hentry
    rw [hentries, mem_append, mem_singleton] at hentry
    rcases hentry with hentry | rfl
    · exact h.recorded entry hentry
    · exact Or.inl hlocked.1
  · rw [hentries, map_append, nodup_append]
    refine ⟨h.single, by simp, ?_⟩
    intro id₁ h₁ id₂ h₂
    rw [map_singleton, mem_singleton] at h₂
    rw [h₂]
    rintro rfl
    exact hnew h₁
  · intro id' hid'
    rw [← some_inj.mp hid']
    exact hlocked
  · show _ ∈ (s.logAppend id size).log.entries
    rw [hentries]
    exact mem_append_right _ mem_cons_self
  · intro id' hid'
    rcases h.batch id' hid' with ⟨hpending, hjournal, hnoted⟩
    refine ⟨hpending, hjournal, ?_⟩
    rw [hentries]
    exact mem_append_left _ hnoted
  · intro id' hid'
    have hdurable : s.log.durable <+: (s.logAppend id size).log.durable := by
      show s.log.entries.take s.log.committed <+: List.take s.log.committed _
      rw [hentries, take_append]
      exact prefix_append _ _
    exact hdurable.subset (h.journaled id' hid')

/-- The log thread holds no lock before and after. -/
theorem unlockedThread (h : LogInv s) {thread : LogThread} (hthread : thread.locked = none)
    (queue : List Nat) :
    LogInv { s with log := { s.log with queue := queue }, thread := thread } := by
  refine { h with locked := ?_, progress := ?_ }
  · intro id hid
    rw [hthread] at hid
    cases hid
  · cases thread with
    | idle | popped id | unlocked => trivial
    | marked id | written id offset | seqSet id offset | placed id => cases hthread

/-- Items that are pending stay so when another one is marked. -/
theorem pending_mark (id : Nat) {id' : Nat} (hid' : s.pendingWrite id' = true) :
    update s.pendingWrite id true id' = true := by
  by_cases heq : id' = id
  · rw [heq, update_self]
  · rw [update_of_ne heq]
    exact hid'

/-- An item that has not been marked before is marked. -/
theorem mark (h : LogInv s) {id : Nat} (hpending : s.pendingWrite id = false)
    (hjournal : s.journal id = false) :
    LogInv { s with
      pendingWrite := update s.pendingWrite id true
      thread := .marked id } := by
  refine { h with recorded := ?_, locked := ?_, progress := ?_, batch := ?_ }
  · exact fun entry hentry => (h.recorded entry hentry).imp_left (pending_mark id)
  · intro id' hid'
    rw [← some_inj.mp hid']
    refine ⟨update_self _ _ _, hjournal, fun hbatch => ?_⟩
    rw [(h.batch id hbatch).1] at hpending
    cases hpending
  · intro hmem
    rcases List.mem_map.mp hmem with ⟨entry, hentry, rfl⟩
    rcases h.recorded entry hentry with hpending' | hjournal'
    · rw [hpending] at hpending'
      cases hpending'
    · rw [hjournal] at hjournal'
      cases hjournal'
  · exact fun id' hid' => (h.batch id' hid').imp_left (pending_mark id)

/-- The position of the item that the log thread has locked is noted in it. -/
theorem note (h : LogInv s) {id : Nat} (hlocked : s.thread.locked = some id)
    {logSeq logOffset : Nat → Nat} {thread : LogThread} (hthread : thread.locked = some id)
    (hseq : ∀ id', id' ≠ id → logSeq id' = s.logSeq id')
    (hoffset : ∀ id', id' ≠ id → logOffset id' = s.logOffset id')
    (hprogress : MarkerState.Progress { s with logSeq := logSeq, logOffset := logOffset } thread) :
    LogInv { s with logSeq := logSeq, logOffset := logOffset, thread := thread } ∧
      s.Keeps { s with logSeq := logSeq, logOffset := logOffset, thread := thread } := by
  rcases h.locked id hlocked with ⟨hpending, hjournal, hbatch⟩
  have hnoted : ∀ id', id' ≠ id →
      MarkerState.noted { s with logSeq := logSeq, logOffset := logOffset, thread := thread } id' =
        s.noted id' := by
    intro id' hne
    simp only [MarkerState.noted, hseq id' hne, hoffset id' hne]
  have hposition : ∀ id', s.journal id' = true →
      MarkerState.noted { s with logSeq := logSeq, logOffset := logOffset, thread := thread } id' =
        s.noted id' := by
    intro id' hid'
    refine hnoted id' ?_
    rintro rfl
    rw [hjournal] at hid'
    cases hid'
  refine ⟨{ h with locked := ?_, progress := ?_, batch := ?_, journaled := ?_ },
    prefix_rfl, fun _ hid => hid, fun _ hid => hid, hposition⟩
  · intro id' hid'
    have heq : id' = id := some_inj.mp (hid'.symm.trans hthread)
    rw [heq]
    exact ⟨hpending, hjournal, hbatch⟩
  · cases thread <;> exact hprogress
  · intro id' hid'
    have hne : id' ≠ id := fun heq => hbatch (heq ▸ hid')
    rw [hnoted id' hne]
    exact h.batch id' hid'
  · intro id' hid'
    rw [hposition id' hid']
    exact h.journaled id' hid'

/-- The item is unlocked and waits for the next commit. -/
theorem enlist (h : LogInv s) {id : Nat} (hthread : s.thread = .placed id) :
    LogInv { s with batch := id :: s.batch, thread := .unlocked } := by
  rcases h.locked id (by rw [hthread]; rfl) with ⟨hpending, hjournal, -⟩
  have hplaced := h.progress
  rw [hthread] at hplaced
  exact { h with
    locked := nofun
    progress := trivial
    batch := forall_mem_cons.mpr ⟨⟨hpending, hjournal, hplaced⟩, h.batch⟩ }

end LogInv

/-! ## One step -/

variable {s s' : MarkerState}

/-- A step that notes no position and commits nothing. -/
theorem MarkerState.Keeps.of_eq (hitems : s.items <+: s'.items)
    (hpending : ∀ id, s.pendingWrite id = true → s'.pendingWrite id = true)
    (hjournal : s'.journal = s.journal) (hseq : s'.logSeq = s.logSeq)
    (hoffset : s'.logOffset = s.logOffset) : s.Keeps s' := by
  refine ⟨hitems, fun id hid => ?_, fun id hid => by rw [hjournal]; exact hid, fun id _ => ?_⟩
  · rw [MarkerState.Begun, hjournal]
    exact hid.imp_left (hpending id)
  · rw [MarkerState.noted, MarkerState.noted, hseq, hoffset]

theorem MarkerState.Keeps.logCommit (s : MarkerState) : s.Keeps s.logCommit := by
  refine ⟨prefix_rfl, fun _ => LogInv.begun_logCommit, fun id hid => ?_, fun _ _ => rfl⟩
  simp only [MarkerState.logCommit]
  split_ifs
  · rfl
  · exact hid

/-- What a step does, with what is known when it is taken. -/
inductive MarkerState.Stepped (s : MarkerState) : Event → MarkerState → Prop
  | submit (item : Item) : s.Stepped (.submit item) (s.submitNew item)
  | resubmit (id : Nat) : s.Stepped (.resubmit id) { s with log := s.log.submit [id] }
  | logPop (id : Nat) (queue : List Nat) :
      s.Stepped .logPop { s with log := { s.log with queue := queue }, thread := .popped id }
  | logSkip : s.Stepped .logMark { s with thread := .idle }
  | logMark {id : Nat} (hjournal : s.journal id = false) (hpending : s.pendingWrite id = false) :
      s.Stepped .logMark { s with
        pendingWrite := update s.pendingWrite id true
        thread := .marked id }
  | logWrite {id : Nat} (hthread : s.thread = .marked id) :
      s.Stepped .logWrite (s.logAppend id (s.recordSize id))
  | logWriteOpen {id : Nat} (hthread : s.thread = .marked id) :
      s.Stepped .logWrite (s.logOpen.logAppend id (s.recordSize id))
  | logSetSeq {id offset : Nat} (hthread : s.thread = .written id offset) :
      s.Stepped .logSetSeq { s with
        logSeq := update s.logSeq id s.log.seqNum
        thread := .seqSet id offset }
  | logSetOffset {id offset : Nat} (hthread : s.thread = .seqSet id offset) :
      s.Stepped .logSetOffset { s with
        logOffset := update s.logOffset id offset
        thread := .placed id }
  | logUnlock {id : Nat} (hthread : s.thread = .placed id) :
      s.Stepped .logUnlock { s with batch := id :: s.batch, thread := .unlocked }
  | logCheck : s.Stepped .logCheck { s with thread := .idle }
  | logCheckCommit : s.Stepped .logCheck { s.logCommit with thread := .idle }
  | getCommitPoint :
      s.Stepped .getCommitPoint
        { s.submitNew { payload := .journalMarker, inum := 0, links := [] } with
          committer := .called s.items.length }
  | testWait {marker : Nat} (hcommitter : s.committer = .called marker)
      (hpending : s.pendingWrite marker = true) :
      s.Stepped .testPending { s with committer := .waiting marker }
  | testReturn {marker : Nat} (hcommitter : s.committer = .called marker)
      (hpending : s.pendingWrite marker = false) :
      s.Stepped .testPending { s with committer := .returned marker }
  | endWait {marker : Nat} (hcommitter : s.committer = .waiting marker)
      (hpending : s.pendingWrite marker = false) :
      s.Stepped .endWait { s with committer := .returned marker }
  | readSeq {marker : Nat} (hcommitter : s.committer = .returned marker) :
      s.Stepped .readSeq { s with committer := .seqRead marker (s.logSeq marker) }
  | writeCommitPoint {marker seq : Nat} (hcommitter : s.committer = .seqRead marker seq) :
      s.Stepped .writeCommitPoint
        { s.submitNew
            { payload := .journalCheckpoint seq (s.logOffset marker), inum := 0, links := [] } with
          committer := .committing s.items.length
          points := (marker, s.items.length) :: s.points }
  | endCommit : s.Stepped .endCommit { s with committer := .idle }

/-- Every step is one of these. -/
theorem MarkerState.stepped {e : Event} (hstep : s.step e = some s') : s.Stepped e s' := by
  cases e with simp only [step] at hstep
  | submit item =>
    cases hstep
    exact .submit item
  | resubmit id =>
    cases (ite_none_right_eq_some.mp hstep).2
    exact .resubmit id
  | logPop =>
    split at hstep <;> cases hstep
    exact .logPop _ _
  | logMark =>
    split at hstep
    · split_ifs at hstep with hflags
      · cases hstep
        exact .logSkip
      · cases hstep
        simp only [Bool.or_eq_true, not_or, Bool.not_eq_true] at hflags
        exact .logMark hflags.1 hflags.2
    · cases hstep
  | logWrite =>
    split at hstep <;> cases hstep
    split_ifs
    · exact .logWriteOpen ‹_›
    · exact .logWrite ‹_›
  | logSetSeq =>
    split at hstep <;> cases hstep
    exact .logSetSeq ‹_›
  | logSetOffset =>
    split at hstep <;> cases hstep
    exact .logSetOffset ‹_›
  | logUnlock =>
    split at hstep <;> cases hstep
    exact .logUnlock ‹_›
  | logCheck =>
    split at hstep <;> cases hstep
    split_ifs
    · exact .logCheckCommit
    · exact .logCheck
  | getCommitPoint =>
    split at hstep <;> cases hstep
    exact .getCommitPoint
  | testPending =>
    split at hstep
    · rename_i marker hcommitter
      cases (ite_none_right_eq_some.mp hstep).2
      cases hpending : s.pendingWrite marker with
      | true => exact .testWait hcommitter hpending
      | false => exact .testReturn hcommitter hpending
    · cases hstep
  | endWait =>
    split at hstep
    · rename_i marker hcommitter
      rcases ite_none_right_eq_some.mp hstep with ⟨⟨-, hpending⟩, hstep⟩
      cases hstep
      exact .endWait hcommitter hpending
    · cases hstep
  | readSeq =>
    split at hstep <;> cases hstep
    exact .readSeq ‹_›
  | writeCommitPoint =>
    split at hstep <;> cases hstep
    exact .writeCommitPoint ‹_›
  | endCommit =>
    split at hstep
    · cases (ite_none_right_eq_some.mp hstep).2
      exact .endCommit
    · cases hstep

/-- Every step keeps the invariant of the log thread. -/
theorem LogInv.step (h : LogInv s) {e : MarkerState.Event} (hstep : s.Stepped e s') :
    LogInv s' ∧ s.Keeps s' := by
  have hcommit := MarkerState.Keeps.logCommit s
  have hsame : ∀ id, s.pendingWrite id = true → s.pendingWrite id = true := fun _ hid => hid
  cases hstep with
  | submit item => exact ⟨{ h with }, .of_eq (prefix_append _ _) hsame rfl rfl rfl⟩
  | resubmit id => exact ⟨{ h with }, .of_eq prefix_rfl hsame rfl rfl rfl⟩
  | logPop id queue => exact ⟨h.unlockedThread rfl queue, .of_eq prefix_rfl hsame rfl rfl rfl⟩
  | logSkip => exact ⟨h.unlockedThread rfl s.log.queue, .of_eq prefix_rfl hsame rfl rfl rfl⟩
  | logMark hjournal hpending =>
    exact ⟨h.mark hpending hjournal, .of_eq prefix_rfl (fun _ => pending_mark _) rfl rfl rfl⟩
  | logWrite hthread => exact ⟨h.logAppend hthread _, .of_eq prefix_rfl hsame rfl rfl rfl⟩
  | @logWriteOpen id hthread =>
    have hopened : s.logOpen.thread = .marked id := hthread
    exact ⟨(h.logOpen hthread).logAppend hopened _, { hcommit with }⟩
  | @logSetSeq id offset hthread =>
    have hwritten := h.progress
    rw [hthread] at hwritten
    refine h.note (by rw [hthread]; rfl) rfl (fun _ hne => update_of_ne hne _ _) (fun _ _ => rfl) ?_
    show (⟨update s.logSeq id s.log.seqNum id, offset, id⟩ : JournalEntry) ∈ _
    rw [update_self]
    exact hwritten
  | @logSetOffset id offset hthread =>
    have hseqSet := h.progress
    rw [hthread] at hseqSet
    refine h.note (by rw [hthread]; rfl) rfl (fun _ _ => rfl) (fun _ hne => update_of_ne hne _ _) ?_
    show (⟨s.logSeq id, update s.logOffset id offset id, id⟩ : JournalEntry) ∈ _
    rw [update_self]
    exact hseqSet
  | logUnlock hthread => exact ⟨h.enlist hthread, .of_eq prefix_rfl hsame rfl rfl rfl⟩
  | logCheck => exact ⟨h.unlockedThread rfl s.log.queue, .of_eq prefix_rfl hsame rfl rfl rfl⟩
  | logCheckCommit => exact ⟨h.logCommit.unlockedThread rfl s.log.queue, { hcommit with }⟩
  | getCommitPoint | writeCommitPoint =>
    exact ⟨{ h with }, .of_eq (prefix_append _ _) hsame rfl rfl rfl⟩
  | testWait | testReturn | endWait | readSeq | endCommit =>
    exact ⟨{ h with }, .of_eq prefix_rfl hsame rfl rfl rfl⟩

/-! ## Commit points -/

/-- What the thread that makes commit points has seen. -/
def MarkerState.Seen (s : MarkerState) : CommitThread → Prop
  | .waiting marker => s.Begun marker
  | .returned marker => s.journal marker = true
  | .seqRead marker seq => s.journal marker = true ∧ seq = s.logSeq marker
  | _ => True

/-- Markers are journaled when they are returned, and commit points hold their positions. -/
structure MarkerInv (s : MarkerState) : Prop where
  log : LogInv s
  seen : s.Seen s.committer
  points : ∀ marker commit, (marker, commit) ∈ s.points → s.journal marker = true ∧
    (s.items[commit]?).map Item.payload =
      some (.journalCheckpoint (s.logSeq marker) (s.logOffset marker))

theorem MarkerState.Keeps.seen (h : s.Keeps s') {committer : CommitThread}
    (hseen : s.Seen committer) : s'.Seen committer := by
  cases committer with
  | idle => trivial
  | called marker => trivial
  | waiting marker => exact h.begun marker hseen
  | returned marker => exact h.journal marker hseen
  | seqRead marker seq =>
    have hposition := congrArg JournalEntry.seq (h.position marker hseen.1)
    exact ⟨h.journal marker hseen.1, hseen.2.trans hposition.symm⟩
  | committing commit => trivial

theorem MarkerState.Keeps.points (h : s.Keeps s') {marker commit : Nat}
    (hpoint : s.journal marker = true ∧ (s.items[commit]?).map Item.payload =
      some (.journalCheckpoint (s.logSeq marker) (s.logOffset marker))) :
    s'.journal marker = true ∧ (s'.items[commit]?).map Item.payload =
      some (.journalCheckpoint (s'.logSeq marker) (s'.logOffset marker)) := by
  rcases hpoint with ⟨hjournal, hpayload⟩
  rcases map_eq_some_iff.mp hpayload with ⟨item, hitem, hitem'⟩
  have hposition := h.position marker hjournal
  rw [MarkerState.noted, MarkerState.noted, JournalEntry.mk.injEq] at hposition
  refine ⟨h.journal marker hjournal, ?_⟩
  rw [getElem?_mono h.items hitem, map_some, hitem', hposition.1, hposition.2.1]

/-- An item that the log thread has begun with and that is not pending is journaled. -/
theorem MarkerState.Begun.journal {id : Nat} (h : s.Begun id)
    (hpending : s.pendingWrite id = false) : s.journal id = true := by
  rw [MarkerState.Begun, hpending] at h
  simpa using h

/-- Every step keeps the invariant, if the log thread has begun with the marker at the first test
of its flag. -/
theorem MarkerInv.step (h : MarkerInv s) {e : MarkerState.Event} (hmarked : MarkerMarked s e)
    (hstep : s.step e = some s') : MarkerInv s' := by
  have hstepped := MarkerState.stepped hstep
  rcases h.log.step hstepped with ⟨hlog, hkeeps⟩
  have hpoints : ∀ marker commit, (marker, commit) ∈ s.points → s'.journal marker = true ∧
      (s'.items[commit]?).map Item.payload =
        some (.journalCheckpoint (s'.logSeq marker) (s'.logOffset marker)) :=
    fun marker commit hpoint => hkeeps.points (h.points marker commit hpoint)
  have hseen := h.seen
  cases hstepped with
  | getCommitPoint => exact ⟨hlog, trivial, hpoints⟩
  | testWait hcommitter hpending => exact ⟨hlog, Or.inl hpending, hpoints⟩
  | @testReturn marker hcommitter hpending =>
    have hbegun := hmarked rfl marker (by rw [hcommitter]; rfl)
    exact ⟨hlog, hbegun.journal hpending, hpoints⟩
  | endWait hcommitter hpending =>
    rw [hcommitter] at hseen
    exact ⟨hlog, hseen.journal hpending, hpoints⟩
  | readSeq hcommitter =>
    rw [hcommitter] at hseen
    exact ⟨hlog, ⟨hseen, rfl⟩, hpoints⟩
  | writeCommitPoint hcommitter =>
    rw [hcommitter] at hseen
    rcases hseen with ⟨hjournal, rfl⟩
    refine ⟨hlog, trivial, ?_⟩
    intro marker' commit hpoint
    rcases mem_cons.mp hpoint with heq | hpoint
    · rw [Prod.mk.injEq] at heq
      rw [heq.1, heq.2]
      refine ⟨hjournal, ?_⟩
      simp [MarkerState.submitNew]
    · exact hpoints marker' commit hpoint
  | endCommit => exact ⟨hlog, trivial, hpoints⟩
  | _ => exact ⟨hlog, hkeeps.seen hseen, hpoints⟩

/-- A journaled marker is committed. -/
theorem LogInv.isCommitted (h : LogInv s) {id : Nat} (hid : s.journal id = true) :
    s.log.isCommitted id = true := by
  rw [JournalLog.isCommitted, List.any_eq_true]
  exact ⟨s.noted id, h.journaled id hid, by simp [MarkerState.noted]⟩

/-- What is known of the markers makes the commit points right. -/
theorem MarkerInv.sound (h : MarkerInv s) : CommitPointSound s := by
  refine ⟨?_, h.log.single, ?_⟩
  · intro marker hmarker
    have hseen := h.seen
    cases hcommitter : s.committer with
    | returned marker' =>
      rw [hcommitter] at hmarker hseen
      rw [← some_inj.mp hmarker]
      exact h.log.isCommitted hseen
    | seqRead marker' seq =>
      rw [hcommitter] at hmarker hseen
      rw [← some_inj.mp hmarker]
      exact h.log.isCommitted hseen.1
    | idle => simp [hcommitter, CommitThread.returnedMarker] at hmarker
    | called marker' => simp [hcommitter, CommitThread.returnedMarker] at hmarker
    | waiting marker' => simp [hcommitter, CommitThread.returnedMarker] at hmarker
    | committing commit => simp [hcommitter, CommitThread.returnedMarker] at hmarker
  · intro marker commit hpoint
    rcases h.points marker commit hpoint with ⟨hjournal, hpayload⟩
    exact ⟨s.noted marker, LogInv.entries_of_durable (h.log.journaled marker hjournal), rfl,
      hpayload⟩

/-- The invariant holds in every run that meets the condition. -/
theorem markerInv_of_reachable {seqNum : Nat}
    (h : Reachable MarkerState.step MarkerMarked (.start seqNum) s) : MarkerInv s := by
  refine h.invariant ⟨.start seqNum, trivial, ?_⟩ fun _ _ _ hs hmarked hstep =>
    hs.step hmarked hstep
  intro marker commit hpoint
  simp [MarkerState.start] at hpoint

/-- If the log thread has begun with each marker before `bluesky_log_get_commit_point` first tests
its flag, then the marker is committed when that function returns, and the commit point holds the
position of its record.  If it has not begun with a marker, this fails at the test. -/
theorem marker_committed {seqNum : Nat} {s : MarkerState}
    (h : Reachable MarkerState.step MarkerMarked (.start seqNum) s) :
    CommitPointSound s ∧ ∀ s', s.step .testPending = some s' →
      (CommitPointSound s' ↔ MarkerMarked s .testPending) := by
  have hinv := markerInv_of_reachable h
  refine ⟨hinv.sound, fun s' hstep => ⟨?_, fun hmarked => (hinv.step hmarked hstep).sound⟩⟩
  intro hsound _ marker hmarker
  have hstepped := MarkerState.stepped hstep
  cases hstepped with
  | testWait hcommitter hpending =>
    rw [hcommitter] at hmarker
    rw [← some_inj.mp hmarker]
    exact Or.inl hpending
  | testReturn hcommitter hpending =>
    rw [hcommitter] at hmarker
    rw [← some_inj.mp hmarker]
    rcases List.any_eq_true.mp (hsound.committed _ rfl) with ⟨entry, hentry, hid⟩
    rw [← of_decide_eq_true hid]
    exact hinv.log.recorded entry (LogInv.entries_of_durable hentry)

/-! ## Two runs -/

/-- The log thread writes the record of the first item in its queue. -/
def logThreadRun : List MarkerState.Event :=
  [.logPop, .logMark, .logWrite, .logSetSeq, .logSetOffset, .logUnlock, .logCheck]

/-- A commit point whose marker the log thread has written, and not committed, when its flag is
tested. -/
def patientRun : List MarkerState.Event :=
  .getCommitPoint :: logThreadRun.dropLast ++
    [.testPending, .logCheck, .endWait, .readSeq, .writeCommitPoint]

/-- A run in which the log thread takes the marker first. -/
theorem marker_committed_patient : ∃ s,
    runWhile MarkerState.step MarkerMarked (.start 0) patientRun = some s ∧ s.points = [(0, 1)] ∧
      CommitPointSound s := by
  have hfacts : ∃ s ∈ runWhile MarkerState.step MarkerMarked (.start 0) patientRun,
      s.points = [(0, 1)] := by
    decide +kernel
  rcases hfacts with ⟨s, hrun, hpoints⟩
  exact ⟨s, hrun, hpoints, (marker_committed (reachable_of_runWhile .start hrun)).1⟩

/-- A commit point whose marker is still in the queue when its flag is tested. -/
def hastyRun : List MarkerState.Event :=
  .submit { payload := .data [], inum := 1, links := [] } :: logThreadRun ++
    [.getCommitPoint, .testPending, .readSeq, .writeCommitPoint] ++ logThreadRun

/-- The marker was not committed when `bluesky_log_get_commit_point` returned, and its record
lies at 53 while the commit point says 0. -/
theorem marker_not_committed : ∃ s,
    Reachable MarkerState.step (fun _ _ => True) (.start 0) s ∧ s.points = [(1, 2)] ∧
      (⟨0, 53, 1⟩ : JournalEntry) ∈ s.log.entries ∧
      (s.items[2]?).map Item.payload = some (.journalCheckpoint 0 0) ∧ ¬CommitPointSound s := by
  have hfacts : ∃ s ∈ runWhile MarkerState.step (fun _ _ => True) (.start 0) hastyRun,
      s.points = [(1, 2)] ∧ s.log.entries = [⟨0, 0, 0⟩, ⟨0, 53, 1⟩] ∧
        (s.items[2]?).map Item.payload = some (.journalCheckpoint 0 0) := by
    decide +kernel
  rcases hfacts with ⟨s, hrun, hpoints, hentries, hpayload⟩
  refine ⟨s, reachable_of_runWhile .start hrun, hpoints, by simp [hentries], hpayload, ?_⟩
  intro hsound
  rcases hsound.named 1 2 (by simp [hpoints]) with ⟨entry, hentry, hid, hnamed⟩
  rw [hpayload, some_inj, Payload.journalCheckpoint.injEq] at hnamed
  rw [hentries] at hentry
  simp only [mem_cons, not_mem_nil, or_false] at hentry
  rcases hentry with rfl | rfl
  · cases hid
  · cases hnamed.2

end BlueSky
