import BlueSky.Lib.Transition
import Mathlib.Logic.Function.Basic

/-!
# How changed inodes are kept track of

An inode that has been changed waits on `unlogged_list` until it is written to the journal, and
then on `dirty_list` until it is written to the cloud log.  Three counters say how far each step
has come.  Counters and lists are changed by file-system operations, by synchronizations, by the
two loops of the flush daemon, by the loading of inodes and by the replay of the journal.  Each of
them holds the lock of the inode, and the lock of the file system where it changes a list; only a
RENAME within one directory changes and synchronizes that directory without its lock.  A step here
is what is done up to the next point at which a lock or a condition is waited for, so that other
threads can come between any two of them.

Main results:

- Theorem {lit}`dirtyInv_step`: what holds of an inode at each place where its lock can be held.
- Theorem {lit}`no_dirty_inode_forgotten`: if all changes and synchronizations hold the lock, then
  whenever the lock of an inode is free, the inode is on the lists on which it has to be, and the
  assertion in `flushd_cloud` has not failed.
- Theorem {lit}`renamed_directory_aborts`: a RENAME within a directory makes the assertion fail.
-/

namespace BlueSky

open Function List Option TransitionLib

/-! ## The state -/

/-- Where a thread is in its work on an inode, most often the one that holds its lock. -/
inductive InodeHolder where
  /-- In a file-system operation or in the merging of the cleaner's changes. -/
  | client
  /-- In the creation of the inode, before `bluesky_inode_update_ctime`. -/
  | creating
  /-- In `bluesky_inode_update_ctime`, before the file system is locked. -/
  | counted
  /-- In `bluesky_inode_start_sync`, in the wait for the journal. -/
  | syncing
  /-- In `bluesky_inode_start_sync`, before the file system is locked. -/
  | committed
  /-- In `flushd_dirty_inode`, at its beginning. -/
  | unlogging
  /-- In `flushd_dirty_inode`, before `bluesky_inode_start_sync`. -/
  | flushing
  /-- In `flushd_cloud`, behind the assertion. -/
  | draining
  /-- In the thread that loads the inode. -/
  | fetching
deriving DecidableEq, Repr

/-- The fields of a `BlueSkyInode` for its place on the lists. -/
structure TrackedInode where
  changeCount : Nat
  changeCommit : Nat
  changeCloud : Nat
  committedItem : Option Nat
  holder : Option InodeHolder
deriving DecidableEq, Repr

/-- The lists of `BlueSkyFS`, and what the flush daemon has chosen from them. -/
structure DirtyState where
  inodes : Nat → Option TrackedInode
  unloggedList : List Nat
  dirtyList : List Nat
  accessedList : List Nat
  /-- The RENAMEs within one directory that are under way: the directory, and the place. -/
  renames : List (Nat × InodeHolder)
  /-- The number of the next log item. -/
  nextItem : Nat
  /-- The inode that `flushd_dirty` is about to lock. -/
  dirtyPick : Option Nat
  /-- The inode that `flushd_cloud` works on. -/
  cloudPick : Option Nat
  /-- The assertion in `flushd_cloud` has failed. -/
  aborted : Bool

namespace DirtyState

/-- A file system without inodes in memory. -/
def start : DirtyState where
  inodes := fun _ => none
  unloggedList := []
  dirtyList := []
  accessedList := []
  renames := []
  nextItem := 0
  dirtyPick := none
  cloudPick := none
  aborted := false

/-- `bluesky_list_unlink` and `bluesky_list_prepend`. -/
def relist (list : List Nat) (inum : Nat) : List Nat :=
  inum :: list.erase inum

/-- An inode with its changes. -/
def put (s : DirtyState) (inum : Nat) (inode : TrackedInode) : DirtyState :=
  { s with inodes := update s.inodes inum (some inode) }

/-- Where a thread is in its work on an inode: the holder of its lock, or the RENAME of the given
number, which does not hold it. -/
def place (s : DirtyState) (inum : Nat) (inode : TrackedInode) : Option Nat → Option InodeHolder
  | none => inode.holder
  | some i => ((s.renames[i]?).filter fun rename => rename.1 = inum).map Prod.snd

/-- An inode that a thread works on at one of the given places. -/
def worked (s : DirtyState) (who : Option Nat) (inum : Nat) (places : List (Option InodeHolder)) :
    Option TrackedInode :=
  (s.inodes inum).filter fun inode => s.place inum inode who ∈ places

/-- The thread has changed the inode and goes on to another place. -/
def proceed (s : DirtyState) (inum : Nat) (inode : TrackedInode) (place : InodeHolder) :
    Option Nat → DirtyState
  | none => s.put inum { inode with holder := some place }
  | some i => { s.put inum inode with renames := s.renames.set i (inum, place) }

/-- An inode whose lock is held at one of the given places. -/
def held (s : DirtyState) (inum : Nat) (places : List (Option InodeHolder)) :
    Option TrackedInode :=
  s.worked none inum places

/-! ## The steps -/

/-- A thread locks an inode that it has found. -/
def lockInode (s : DirtyState) (inum : Nat) : Option DirtyState :=
  (s.held inum [none]).map fun inode => s.put inum { inode with holder := some .client }

/-- The thread unlocks it again. -/
def unlockInode (s : DirtyState) (inum : Nat) : Option DirtyState :=
  (s.held inum [some .client]).map fun inode => s.put inum { inode with holder := none }

/-- `bluesky_new_inode` in an operation that creates an inode, which inserts it locked. -/
def create (s : DirtyState) (inum : Nat) : Option DirtyState :=
  if s.inodes inum = none then
    some (s.put inum
      { changeCount := 1, changeCommit := 0, changeCloud := 0, committedItem := none
        holder := some .creating })
  else none

/-- A RENAME whose two directories are the same begins; it locks neither of them. -/
def startRename (s : DirtyState) (inum : Nat) : Option DirtyState :=
  (s.inodes inum).map fun _ => { s with renames := s.renames ++ [(inum, .client)] }

/-- Such a RENAME ends.  It unlocks the directory, although it has not locked it; what that does
is not defined, and left out. -/
def endRename (s : DirtyState) (inum i : Nat) : Option DirtyState :=
  (s.worked (some i) inum [some .client]).map fun _ => { s with renames := s.renames.eraseIdx i }

/-- `bluesky_inode_update_ctime` until it locks the file system. -/
def updateCtime (s : DirtyState) (who : Option Nat) (inum : Nat) : Option DirtyState :=
  (s.worked who inum [some .client, some .creating]).map fun inode =>
    s.proceed inum { inode with changeCount := inode.changeCount + 1 } .counted who

/-- The rest of `bluesky_inode_update_ctime`. -/
def updateLists (s : DirtyState) (who : Option Nat) (inum : Nat) : Option DirtyState :=
  (s.worked who inum [some .counted]).map fun inode =>
    { s.proceed inum inode .client who with
      unloggedList := relist s.unloggedList inum
      accessedList := relist s.accessedList inum }

/-- `bluesky_inode_start_sync` until it waits for the journal. -/
def startSync (s : DirtyState) (who : Option Nat) (inum : Nat) : Option DirtyState :=
  (s.worked who inum [some .client, some .flushing]).map fun inode =>
    { s.proceed inum { inode with committedItem := some s.nextItem } .syncing who with
      nextItem := s.nextItem + 1 }

/-- The wait for the journal ends. -/
def markClean (s : DirtyState) (who : Option Nat) (inum : Nat) : Option DirtyState :=
  (s.worked who inum [some .syncing]).map fun inode =>
    s.proceed inum { inode with changeCommit := inode.changeCount } .committed who

/-- The end of `bluesky_inode_start_sync`. -/
def finishSync (s : DirtyState) (who : Option Nat) (inum : Nat) : Option DirtyState :=
  (s.worked who inum [some .committed]).map fun inode =>
    { s.proceed inum { inode with changeCloud := inode.changeCount } .client who with
      unloggedList := s.unloggedList.erase inum
      dirtyList := relist s.dirtyList inum }

/-- `flushd_dirty` takes the last inode of the list. -/
def pickDirty (s : DirtyState) : Option DirtyState :=
  if s.dirtyPick = none then
    s.unloggedList.getLast?.map fun inum => { s with dirtyPick := some inum }
  else none

/-- `flushd_dirty` locks it. -/
def lockDirty (s : DirtyState) : Option DirtyState :=
  s.dirtyPick.bind fun inum => (s.held inum [none]).map fun inode =>
    { s.put inum { inode with holder := some .unlogging } with dirtyPick := none }

/-- `flushd_dirty_inode` until it calls `bluesky_inode_start_sync`; if the inode is clean it is
unlocked. -/
def flushDirtyInode (s : DirtyState) (inum : Nat) : Option DirtyState :=
  (s.held inum [some .unlogging]).map fun inode =>
    { s.put inum
        { inode with
          holder := if inode.changeCount = inode.changeCommit then none else some .flushing } with
      unloggedList := s.unloggedList.erase inum }

/-- `flushd_cloud` takes the last inode of the list. -/
def pickCloud (s : DirtyState) : Option DirtyState :=
  if s.cloudPick = none then
    s.dirtyList.getLast?.map fun inum => { s with cloudPick := some inum }
  else none

/-- `flushd_cloud` locks it and checks the counters. -/
def lockCloud (s : DirtyState) : Option DirtyState :=
  s.cloudPick.bind fun inum => (s.held inum [none]).map fun inode =>
    { s.put inum { inode with holder := some .draining } with
      aborted := s.aborted || decide (inode.changeCloud ≠ inode.changeCommit) }

/-- `flushd_cloud` takes the item of the inode and unlocks it. -/
def drainInode (s : DirtyState) : Option DirtyState :=
  s.cloudPick.bind fun inum => (s.held inum [some .draining]).map fun inode =>
    { s.put inum { inode with committedItem := none, holder := none } with
      dirtyList := s.dirtyList.erase inum
      cloudPick := none }

/-- `bluesky_inode_fetch`, which inserts the inode locked. -/
def inodeFetch (s : DirtyState) (inum item : Nat) : Option DirtyState :=
  if s.inodes inum = none then
    some (s.put inum
      { changeCount := 0, changeCommit := 0, changeCloud := 0, committedItem := some item
        holder := some .fetching })
  else none

/-- The counters after `bluesky_deserialize_inode`, which may fail. -/
def deserialized (inode : TrackedInode) (changeCount : Option Nat) : TrackedInode :=
  match changeCount with
  | none => inode
  | some n => { inode with changeCount := n, changeCommit := n }

/-- `inode_fetch_task`. -/
def inodeFetchTask (s : DirtyState) (inum : Nat) (changeCount : Option Nat) :
    Option DirtyState :=
  (s.held inum [some .fetching]).map fun inode =>
    { s.put inum { deserialized inode changeCount with committedItem := none, holder := none } with
      accessedList := relist s.accessedList inum }

/-- What `bluesky_replay_scan_journal2` does with an inode item, under the locks of the file system
and of the inode. -/
def replayInode (s : DirtyState) (inum item changeCount : Nat) : Option DirtyState :=
  let old := (s.inodes inum).getD
    { changeCount := 0, changeCommit := 0, changeCloud := 0, committedItem := none
      holder := none }
  if old.holder = none then
    some
      { s.put inum
          { deserialized old (some changeCount) with
            changeCloud := changeCount, committedItem := some item } with
        accessedList := relist s.accessedList inum
        dirtyList := relist s.dirtyList inum
        unloggedList := s.unloggedList.erase inum }
  else none

/-- `flushd_clean` moves an inode to the front of the list. -/
def flushdClean (s : DirtyState) (inum : Nat) : Option DirtyState :=
  (s.held inum [none]).map fun _ => { s with accessedList := relist s.accessedList inum }

/-- The steps of the threads. -/
inductive Event where
  | lockInode (inum : Nat)
  | unlockInode (inum : Nat)
  | create (inum : Nat)
  | startRename (inum : Nat)
  | endRename (inum i : Nat)
  | updateCtime (who : Option Nat) (inum : Nat)
  | updateLists (who : Option Nat) (inum : Nat)
  | startSync (who : Option Nat) (inum : Nat)
  | markClean (who : Option Nat) (inum : Nat)
  | finishSync (who : Option Nat) (inum : Nat)
  | pickDirty
  | lockDirty
  | flushDirtyInode (inum : Nat)
  | pickCloud
  | lockCloud
  | drainInode
  | inodeFetch (inum item : Nat)
  | inodeFetchTask (inum : Nat) (changeCount : Option Nat)
  | replayInode (inum item changeCount : Nat)
  | flushdClean (inum : Nat)
deriving DecidableEq, Repr

/-- One step of one thread. -/
def step (s : DirtyState) : Event → Option DirtyState
  | .lockInode inum => s.lockInode inum
  | .unlockInode inum => s.unlockInode inum
  | .create inum => s.create inum
  | .startRename inum => s.startRename inum
  | .endRename inum i => s.endRename inum i
  | .updateCtime who inum => s.updateCtime who inum
  | .updateLists who inum => s.updateLists who inum
  | .startSync who inum => s.startSync who inum
  | .markClean who inum => s.markClean who inum
  | .finishSync who inum => s.finishSync who inum
  | .pickDirty => s.pickDirty
  | .lockDirty => s.lockDirty
  | .flushDirtyInode inum => s.flushDirtyInode inum
  | .pickCloud => s.pickCloud
  | .lockCloud => s.lockCloud
  | .drainInode => s.drainInode
  | .inodeFetch inum item => s.inodeFetch inum item
  | .inodeFetchTask inum changeCount => s.inodeFetchTask inum changeCount
  | .replayInode inum item changeCount => s.replayInode inum item changeCount
  | .flushdClean inum => s.flushdClean inum

/-- What a step changes of an inode or synchronizes, it does with the lock of the inode. -/
def Event.locked : Event → Bool
  | .updateCtime who _ | .updateLists who _ | .startSync who _ | .markClean who _
  | .finishSync who _ => who.isNone
  | _ => true

end DirtyState

/-! ## The invariant -/

open DirtyState

/-- The inode is on the lists on which it has to be. -/
structure OnLists (inode : TrackedInode) (onUnlogged onDirty : Prop) : Prop where
  commit_le : inode.changeCommit ≤ inode.changeCount
  unlogged : inode.changeCount ≠ inode.changeCommit → onUnlogged
  dirty : inode.committedItem ≠ none → onDirty
  cloud : onDirty → inode.changeCloud = inode.changeCommit

/-- What holds of an inode, by the place of the thread that holds its lock. -/
def HolderOk (inode : TrackedInode) (onUnlogged onDirty : Prop) : Prop :=
  match inode.holder with
  | none | some .client | some .unlogging | some .draining => OnLists inode onUnlogged onDirty
  | some .creating | some .counted | some .flushing => OnLists inode True onDirty
  | some .syncing =>
    inode.changeCommit ≤ inode.changeCount ∧ (onDirty → inode.changeCloud = inode.changeCommit)
  | some .committed => inode.changeCommit = inode.changeCount
  | some .fetching => inode.changeCommit = inode.changeCount ∧ ¬ onDirty

/-- The invariant of the inodes and the lists. -/
structure DirtyInv (s : DirtyState) : Prop where
  unlogged_nodup : s.unloggedList.Nodup
  dirty_nodup : s.dirtyList.Nodup
  known : ∀ inum ∈ s.dirtyList, s.inodes inum ≠ none
  holders : ∀ inum inode, s.inodes inum = some inode →
    HolderOk inode (inum ∈ s.unloggedList) (inum ∈ s.dirtyList)
  pick : ∀ inum, s.cloudPick = some inum → inum ∈ s.dirtyList
  aborted : s.aborted = false

theorem dirtyInv_start : DirtyInv start where
  unlogged_nodup := .nil
  dirty_nodup := .nil
  known := nofun
  holders := nofun
  pick := nofun
  aborted := rfl

section Steps

variable {s s' : DirtyState} {inum : Nat}

@[simp]
theorem mem_relist {list : List Nat} {j : Nat} : j ∈ relist list inum ↔ j = inum ∨ j ∈ list := by
  rw [relist, mem_cons]
  by_cases hj : j = inum
  · simp [hj]
  · simp [hj, mem_erase_of_ne hj]

theorem nodup_relist {list : List Nat} (h : list.Nodup) : (relist list inum).Nodup :=
  nodup_cons.mpr ⟨h.not_mem_erase, h.erase inum⟩

variable {inode : TrackedInode}

/-- The lock is held, and its holder is at one of the places. -/
theorem held_eq_some {places : List (Option InodeHolder)} :
    s.held inum places = some inode ↔ s.inodes inum = some inode ∧ inode.holder ∈ places := by
  rw [held, worked, filter_eq_some_iff, decide_eq_true_eq]
  rfl

/-- A step that changes one inode and its place on the lists. -/
theorem DirtyInv.set (h : DirtyInv s)
    (hinodes : s'.inodes = update s.inodes inum (some inode))
    (hunlogged : s'.unloggedList.Nodup) (hdirty : s'.dirtyList.Nodup)
    (hothers : ∀ j, j ≠ inum → ((j ∈ s'.unloggedList ↔ j ∈ s.unloggedList) ∧
      (j ∈ s'.dirtyList ↔ j ∈ s.dirtyList)))
    (hinode : HolderOk inode (inum ∈ s'.unloggedList) (inum ∈ s'.dirtyList))
    (hpick : ∀ j, s'.cloudPick = some j → j ∈ s'.dirtyList) (haborted : s'.aborted = false) :
    DirtyInv s' := by
  refine ⟨hunlogged, hdirty, ?_, ?_, hpick, haborted⟩
  · intro j hj
    rw [hinodes]
    by_cases hji : j = inum
    · rw [hji, update_self]
      exact some_ne_none _
    · rw [update_of_ne hji]
      exact h.known j ((hothers j hji).2.mp hj)
  · intro j i hi
    rw [hinodes] at hi
    by_cases hji : j = inum
    · subst hji
      rw [update_self, some_inj] at hi
      subst hi
      exact hinode
    · rw [update_of_ne hji] at hi
      rw [(hothers j hji).1, (hothers j hji).2]
      exact h.holders j i hi

/-- A step that changes one inode and no list. -/
theorem DirtyInv.put (h : DirtyInv s)
    (hinode : HolderOk inode (inum ∈ s.unloggedList) (inum ∈ s.dirtyList)) :
    DirtyInv (s.put inum inode) :=
  h.set rfl h.unlogged_nodup h.dirty_nodup (fun _ _ => ⟨Iff.rfl, Iff.rfl⟩) hinode h.pick h.aborted

/-- What is known when a thread that holds the lock goes on. -/
theorem DirtyInv.of_held (h : DirtyInv s) {places : List (Option InodeHolder)}
    {f : TrackedInode → DirtyState} (hstep : (s.held inum places).map f = some s') :
    ∃ inode, s.inodes inum = some inode ∧ inode.holder ∈ places ∧
      HolderOk inode (inum ∈ s.unloggedList) (inum ∈ s.dirtyList) ∧ f inode = s' := by
  rcases map_eq_some_iff.mp hstep with ⟨inode, hheld, hf⟩
  rcases held_eq_some.mp hheld with ⟨hinode, hplace⟩
  exact ⟨inode, hinode, hplace, h.holders inum inode hinode, hf⟩

/-- The same for a step that is taken at one place only. -/
theorem DirtyInv.of_held_at (h : DirtyInv s) {place : Option InodeHolder}
    {f : TrackedInode → DirtyState} (hstep : (s.held inum [place]).map f = some s') :
    ∃ inode, HolderOk { inode with holder := place } (inum ∈ s.unloggedList)
      (inum ∈ s.dirtyList) ∧ f inode = s' := by
  rcases h.of_held hstep with ⟨inode, -, hplace, hok, hf⟩
  obtain rfl := mem_singleton.mp hplace
  exact ⟨inode, hok, hf⟩

/-! ### File-system operations -/

/-- A thread takes the lock of an inode. -/
theorem dirtyInv_lockInode (h : DirtyInv s) (hstep : s.lockInode inum = some s') :
    DirtyInv s' := by
  rcases h.of_held_at hstep with ⟨inode, hok, rfl⟩
  exact h.put ⟨hok.commit_le, hok.unlogged, hok.dirty, hok.cloud⟩

/-- The lock is given back after all list updates. -/
theorem dirtyInv_unlockInode (h : DirtyInv s) (hstep : s.unlockInode inum = some s') :
    DirtyInv s' := by
  rcases h.of_held_at hstep with ⟨inode, hok, rfl⟩
  exact h.put ⟨hok.commit_le, hok.unlogged, hok.dirty, hok.cloud⟩

/-- A new inode is locked by the thread that creates it. -/
theorem dirtyInv_create (h : DirtyInv s) (hstep : s.create inum = some s') : DirtyInv s' := by
  unfold DirtyState.create at hstep
  split_ifs at hstep
  rw [← some.inj hstep]
  exact h.put ⟨Nat.zero_le 1, fun _ => trivial, nofun, fun _ => rfl⟩

/-- A change of the inode, which is not on the list yet. -/
theorem dirtyInv_updateCtime (h : DirtyInv s) (hstep : s.updateCtime none inum = some s') :
    DirtyInv s' := by
  rcases h.of_held hstep with ⟨inode, -, hplace, hok, rfl⟩
  have hlists : OnLists inode True (inum ∈ s.dirtyList) := by
    simp only [mem_cons, not_mem_nil, or_false] at hplace
    rcases hplace with hplace | hplace
    · simp only [HolderOk, hplace] at hok
      exact ⟨hok.commit_le, fun _ => trivial, hok.dirty, hok.cloud⟩
    · simpa only [HolderOk, hplace] using hok
  exact h.put ⟨Nat.le_succ_of_le hlists.commit_le, fun _ => trivial, hlists.dirty, hlists.cloud⟩

/-- The list updates under the file system's lock. -/
theorem dirtyInv_updateLists (h : DirtyInv s) (hstep : s.updateLists none inum = some s') :
    DirtyInv s' := by
  rcases h.of_held_at hstep with ⟨inode, hok, rfl⟩
  refine h.set rfl (nodup_relist h.unlogged_nodup) h.dirty_nodup ?_ ?_ h.pick h.aborted
  · intro j hj
    exact ⟨by simp [hj], Iff.rfl⟩
  · exact ⟨hok.commit_le, fun _ => mem_relist.mpr (Or.inl rfl), hok.dirty, hok.cloud⟩

/-! ### Synchronizations -/

/-- The new version is published before it is in the journal. -/
theorem dirtyInv_startSync (h : DirtyInv s) (hstep : s.startSync none inum = some s') :
    DirtyInv s' := by
  rcases h.of_held hstep with ⟨inode, -, hplace, hok, rfl⟩
  have hlists : inode.changeCommit ≤ inode.changeCount ∧
      (inum ∈ s.dirtyList → inode.changeCloud = inode.changeCommit) := by
    simp only [mem_cons, not_mem_nil, or_false] at hplace
    rcases hplace with hplace | hplace
    · simp only [HolderOk, hplace] at hok
      exact ⟨hok.commit_le, hok.cloud⟩
    · simp only [HolderOk, hplace] at hok
      exact ⟨hok.commit_le, hok.cloud⟩
  exact h.set rfl h.unlogged_nodup h.dirty_nodup (fun _ _ => ⟨Iff.rfl, Iff.rfl⟩) hlists h.pick
    h.aborted

/-- The version is in the journal, and the commit counter follows. -/
theorem dirtyInv_markClean (h : DirtyInv s) (hstep : s.markClean none inum = some s') :
    DirtyInv s' := by
  rcases h.of_held hstep with ⟨inode, -, -, -, rfl⟩
  exact h.put rfl

/-- The inode goes from the unlogged list to the dirty list. -/
theorem dirtyInv_finishSync (h : DirtyInv s) (hstep : s.finishSync none inum = some s') :
    DirtyInv s' := by
  rcases h.of_held_at hstep with ⟨inode, hok, rfl⟩
  refine h.set rfl (h.unlogged_nodup.erase inum) (nodup_relist h.dirty_nodup) ?_ ?_ ?_ h.aborted
  · intro j hj
    exact ⟨mem_erase_of_ne hj, by simp [hj]⟩
  · exact ⟨Nat.le_of_eq hok, fun hne => absurd hok.symm hne,
      fun _ => mem_relist.mpr (Or.inl rfl), fun _ => hok.symm⟩
  · intro j hj
    exact mem_relist.mpr (Or.inr (h.pick j hj))

/-! ### The flush daemon -/

theorem dirtyInv_lockDirty (h : DirtyInv s) (hstep : s.lockDirty = some s') : DirtyInv s' := by
  rcases bind_eq_some_iff.mp hstep with ⟨inum, -, hlock⟩
  rcases h.of_held_at hlock with ⟨inode, hok, rfl⟩
  exact h.set rfl h.unlogged_nodup h.dirty_nodup (fun _ _ => ⟨Iff.rfl, Iff.rfl⟩)
    ⟨hok.commit_le, hok.unlogged, hok.dirty, hok.cloud⟩ h.pick h.aborted

/-- The daemon takes an inode off the list and keeps its lock if it has changed. -/
theorem dirtyInv_flushDirtyInode (h : DirtyInv s) (hstep : s.flushDirtyInode inum = some s') :
    DirtyInv s' := by
  rcases h.of_held_at hstep with ⟨inode, hok, rfl⟩
  refine h.set rfl (h.unlogged_nodup.erase inum) h.dirty_nodup ?_ ?_ h.pick h.aborted
  · intro j hj
    exact ⟨mem_erase_of_ne hj, Iff.rfl⟩
  · by_cases hclean : inode.changeCount = inode.changeCommit
    · simp only [HolderOk, if_pos hclean]
      exact ⟨hok.commit_le, fun hne => absurd hclean hne, hok.dirty, hok.cloud⟩
    · simp only [HolderOk, if_neg hclean]
      exact ⟨hok.commit_le, fun _ => trivial, hok.dirty, hok.cloud⟩

/-- The inode is still on the list, so that the assertion holds. -/
theorem dirtyInv_lockCloud (h : DirtyInv s) (hstep : s.lockCloud = some s') : DirtyInv s' := by
  rcases bind_eq_some_iff.mp hstep with ⟨inum, hpick, hlock⟩
  rcases h.of_held_at hlock with ⟨inode, hok, rfl⟩
  refine h.set rfl h.unlogged_nodup h.dirty_nodup (fun _ _ => ⟨Iff.rfl, Iff.rfl⟩)
    ⟨hok.commit_le, hok.unlogged, hok.dirty, hok.cloud⟩ h.pick ?_
  have hequal : inode.changeCloud = inode.changeCommit := hok.cloud (h.pick inum hpick)
  simp [h.aborted, hequal]

/-- The assertion holds for the inode that is drained. -/
theorem dirtyInv_drainInode (h : DirtyInv s) (hstep : s.drainInode = some s') : DirtyInv s' := by
  rcases bind_eq_some_iff.mp hstep with ⟨inum, -, hdrain⟩
  rcases h.of_held_at hdrain with ⟨inode, hok, rfl⟩
  refine h.set rfl h.unlogged_nodup (h.dirty_nodup.erase inum) ?_ ?_ nofun h.aborted
  · intro j hj
    exact ⟨Iff.rfl, mem_erase_of_ne hj⟩
  · exact ⟨hok.commit_le, hok.unlogged, nofun, fun hmem => absurd hmem h.dirty_nodup.not_mem_erase⟩

/-! ### Loading inodes -/

/-- An inode from the inode map is in memory without its contents. -/
theorem dirtyInv_inodeFetch {item : Nat} (h : DirtyInv s)
    (hstep : s.inodeFetch inum item = some s') : DirtyInv s' := by
  unfold DirtyState.inodeFetch at hstep
  split_ifs at hstep with hnone
  rw [← some.inj hstep]
  exact h.put ⟨rfl, fun hmem => h.known inum hmem hnone⟩

theorem deserialized_counts (h : inode.changeCommit = inode.changeCount)
    (changeCount : Option Nat) :
    (deserialized inode changeCount).changeCommit =
      (deserialized inode changeCount).changeCount := by
  cases changeCount with
  | none => exact h
  | some n => rfl

/-- The contents arrive, and the lock is given back. -/
theorem dirtyInv_inodeFetchTask {changeCount : Option Nat} (h : DirtyInv s)
    (hstep : s.inodeFetchTask inum changeCount = some s') : DirtyInv s' := by
  rcases h.of_held_at hstep with ⟨inode, hok, rfl⟩
  have hcounts := @deserialized_counts inode hok.1 changeCount
  exact h.set rfl h.unlogged_nodup h.dirty_nodup (fun _ _ => ⟨Iff.rfl, Iff.rfl⟩)
    ⟨Nat.le_of_eq hcounts, fun hne => absurd hcounts.symm hne, nofun,
      fun hmem => absurd hmem hok.2⟩ h.pick h.aborted

/-- Replay leaves the inode on the dirty list. -/
theorem dirtyInv_replayInode {item changeCount : Nat} (h : DirtyInv s)
    (hstep : s.replayInode inum item changeCount = some s') : DirtyInv s' := by
  unfold DirtyState.replayInode at hstep
  dsimp only at hstep
  split_ifs at hstep with hfree
  rw [← some.inj hstep]
  refine h.set rfl (h.unlogged_nodup.erase inum) (nodup_relist h.dirty_nodup) ?_ ?_ ?_ h.aborted
  · intro j hj
    exact ⟨mem_erase_of_ne hj, by simp [hj]⟩
  · simp only [HolderOk, deserialized, hfree]
    exact ⟨Nat.le_refl _, fun hne => absurd rfl hne, fun _ => mem_relist.mpr (Or.inl rfl),
      fun _ => rfl⟩
  · intro j hj
    exact mem_relist.mpr (Or.inr (h.pick j hj))

/-! ### All steps -/

/-- A step that changes neither inodes nor the two lists. -/
theorem DirtyInv.congr (h : DirtyInv s) (hinodes : s'.inodes = s.inodes)
    (hunlogged : s'.unloggedList = s.unloggedList) (hdirty : s'.dirtyList = s.dirtyList)
    (hpick : ∀ j, s'.cloudPick = some j → j ∈ s.dirtyList) (haborted : s'.aborted = s.aborted) :
    DirtyInv s' := by
  refine ⟨?_, ?_, ?_, ?_, ?_, ?_⟩
  · rw [hunlogged]
    exact h.unlogged_nodup
  · rw [hdirty]
    exact h.dirty_nodup
  · rw [hdirty, hinodes]
    exact h.known
  · rw [hinodes, hunlogged, hdirty]
    exact h.holders
  · rw [hdirty]
    exact hpick
  · rw [haborted]
    exact h.aborted

/-- Every step that holds the locks keeps the invariant. -/
theorem dirtyInv_step {e : Event} (h : DirtyInv s) (hlocked : e.locked = true)
    (hstep : step s e = some s') : DirtyInv s' := by
  cases e with
  | lockInode inum => exact dirtyInv_lockInode h hstep
  | unlockInode inum => exact dirtyInv_unlockInode h hstep
  | create inum => exact dirtyInv_create h hstep
  | startRename inum =>
    rcases map_eq_some_iff.mp hstep with ⟨inode, -, rfl⟩
    exact h.congr rfl rfl rfl h.pick rfl
  | endRename inum i =>
    rcases map_eq_some_iff.mp hstep with ⟨inode, -, rfl⟩
    exact h.congr rfl rfl rfl h.pick rfl
  | updateCtime who inum =>
    cases isNone_iff_eq_none.mp hlocked
    exact dirtyInv_updateCtime h hstep
  | updateLists who inum =>
    cases isNone_iff_eq_none.mp hlocked
    exact dirtyInv_updateLists h hstep
  | startSync who inum =>
    cases isNone_iff_eq_none.mp hlocked
    exact dirtyInv_startSync h hstep
  | markClean who inum =>
    cases isNone_iff_eq_none.mp hlocked
    exact dirtyInv_markClean h hstep
  | finishSync who inum =>
    cases isNone_iff_eq_none.mp hlocked
    exact dirtyInv_finishSync h hstep
  | pickDirty =>
    unfold step DirtyState.pickDirty at hstep
    split_ifs at hstep
    rcases map_eq_some_iff.mp hstep with ⟨inum, -, rfl⟩
    exact h.congr rfl rfl rfl h.pick rfl
  | lockDirty => exact dirtyInv_lockDirty h hstep
  | flushDirtyInode inum => exact dirtyInv_flushDirtyInode h hstep
  | pickCloud =>
    unfold step DirtyState.pickCloud at hstep
    split_ifs at hstep
    rcases map_eq_some_iff.mp hstep with ⟨inum, hlast, rfl⟩
    refine h.congr rfl rfl rfl ?_ rfl
    rintro j hj
    rw [← some.inj hj]
    exact mem_of_getLast? hlast
  | lockCloud => exact dirtyInv_lockCloud h hstep
  | drainInode => exact dirtyInv_drainInode h hstep
  | inodeFetch inum item => exact dirtyInv_inodeFetch h hstep
  | inodeFetchTask inum changeCount => exact dirtyInv_inodeFetchTask h hstep
  | replayInode inum item changeCount => exact dirtyInv_replayInode h hstep
  | flushdClean inum =>
    rcases h.of_held hstep with ⟨inode, -, -, -, rfl⟩
    exact h.congr rfl rfl rfl h.pick rfl

end Steps

/-! ## Runs -/

/-- Whatever the order of the steps, as long as every change and every synchronization of an inode
holds its lock: whenever the lock of an inode is free, the inode is on the lists on which it has to
be; and the assertion in `flushd_cloud` does not fail. -/
theorem no_dirty_inode_forgotten (s : DirtyState)
    (hs : Reachable step (fun _ e => e.locked = true) start s) :
    s.aborted = false ∧
      ∀ inum inode, s.inodes inum = some inode → inode.holder = none →
        inode.changeCommit ≤ inode.changeCount ∧
        (inode.changeCount ≠ inode.changeCommit → inum ∈ s.unloggedList) ∧
        (inode.committedItem ≠ none → inum ∈ s.dirtyList) ∧
        (inum ∈ s.dirtyList → inode.changeCloud = inode.changeCommit) := by
  have h : DirtyInv s :=
    hs.invariant dirtyInv_start fun _ _ _ h hlocked hstep => dirtyInv_step h hlocked hstep
  refine ⟨h.aborted, ?_⟩
  intro inum inode hinode hfree
  have hok := h.holders inum inode hinode
  simp only [HolderOk, hfree] at hok
  exact ⟨hok.commit_le, hok.unlogged, hok.dirty, hok.cloud⟩

/-- An inode is created, changed and written to the journal. -/
def createdInode : List Event :=
  [.create 2, .updateCtime none 2, .updateLists none 2, .startSync none 2, .markClean none 2,
    .finishSync none 2, .unlockInode 2]

/-- An inode is created, and changed again after `flushd_cloud` has chosen it. -/
theorem no_dirty_inode_forgotten_changed :
    ∃ s : DirtyState, Reachable step (fun _ e => e.locked = true) start s ∧
      s.inodes 2 = some ⟨3, 2, 2, none, none⟩ ∧ s.aborted = false ∧ 2 ∈ s.unloggedList := by
  have hfacts : ∃ s ∈ runWhile step (fun _ e => e.locked = true) start
      (createdInode ++ [.pickCloud, .lockInode 2, .updateCtime none 2, .updateLists none 2,
        .unlockInode 2, .lockCloud, .drainInode]), s.inodes 2 = some ⟨3, 2, 2, none, none⟩ := by
    decide +kernel
  rcases hfacts with ⟨s, hrun, hinode⟩
  have hreach := reachable_of_runWhile .start hrun
  rcases no_dirty_inode_forgotten s hreach with ⟨haborted, hlists⟩
  exact ⟨s, hreach, hinode, haborted, (hlists 2 _ hinode rfl).2.1 (by decide)⟩

/-- A RENAME removes a name from a directory and inserts another one, and synchronizes the
directory, while `flushd_cloud` has chosen it: the lock is free when the counters differ, and the
assertion fails. -/
theorem renamed_directory_aborts :
    ∃ s s' : DirtyState, Reachable step (fun _ _ => True) start s ∧
      s.inodes 2 = some ⟨4, 4, 2, some 1, none⟩ ∧ 2 ∈ s.dirtyList ∧
      s.step .lockCloud = some s' ∧ s'.aborted = true := by
  have hfacts : ∃ s ∈ runWhile step (fun _ _ => True) start
      (createdInode ++ [.pickCloud, .startRename 2, .updateCtime (some 0) 2,
        .updateLists (some 0) 2, .updateCtime (some 0) 2, .updateLists (some 0) 2,
        .startSync (some 0) 2, .markClean (some 0) 2]),
      s.inodes 2 = some ⟨4, 4, 2, some 1, none⟩ ∧ 2 ∈ s.dirtyList ∧
        ∃ s' ∈ s.step .lockCloud, s'.aborted = true := by
    decide +kernel
  rcases hfacts with ⟨s, hrun, hinode, hdirty, s', hstep, haborted⟩
  exact ⟨s, s', reachable_of_runWhile .start hrun, hinode, hdirty, hstep, haborted⟩

end BlueSky
