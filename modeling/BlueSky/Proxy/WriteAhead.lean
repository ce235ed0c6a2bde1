import BlueSky.Proxy.Journal
import BlueSky.Proxy.Mountable

/-!
# The journal is written first

An item goes to the cloud log only after the log thread has committed it to the journal.  The
inode item that a synchronization publishes in `committed_item` is not committed yet; but the
flush daemon takes it only under the lock of the inode, which the synchronization holds until the
item and those of all new blocks are committed.  The one synchronization that holds no lock is that
of a RENAME within one directory; its item can go to the cloud log too early.

Main results:

- Structure {lit}`JournalFirst`: what is committed, seen from the inodes and the synchronizations.
- Theorem {lit}`write_ahead`: if every synchronization holds the lock, what a step appends to the
  cloud log was committed to the journal before, and so was what it links to.
- Theorem {lit}`renamed_directory_ahead`: a RENAME within one directory breaks this order.
-/

namespace BlueSky

open List Option TransitionLib ProxyState TableLib

/-! ## The invariant -/

/-- The items that an item links to are committed, but for those that are waited for. -/
def LinksCommitted (s : ProxyState) (waiting : List Nat) (id : Nat) : Prop :=
  ∀ item, s.items[id]? = some item → ∀ j, some j ∈ item.links →
    s.log.isCommitted j = true ∨ j ∈ waiting

/-- What is not committed is waited for by the synchronization that holds the inode's lock. -/
structure JournalFirst (s : ProxyState) : Prop where
  blocks : ∀ {k : Nat} {inode : MemInode} {id : Nat}, s.inodes k = some inode →
    .ref id ∈ inode.blocks →
      s.log.isCommitted id = true ∨ ∃ t ∈ s.syncs, t.inum = k ∧ id ∈ t.blockItems
  syncing : ∀ {t : SyncThread}, t ∈ s.syncs → LinksCommitted s t.blockItems t.item
  version : ∀ {k : Nat} {inode : MemInode} {id : Nat}, s.inodes k = some inode →
    inode.committedItem = some id →
      s.locked k = true ∨ (s.log.isCommitted id = true ∧ LinksCommitted s [] id)

theorem journalFirst_start (disableAggregation : Bool) :
    JournalFirst (start disableAggregation) where
  blocks := nofun
  syncing := nofun
  version := nofun

section Steps

variable {s s' : ProxyState}

/-- What is committed stays so. -/
theorem LinksCommitted.advance (hadv : Advances s s') {waiting : List Nat} {id : Nat}
    (hid : id < s.items.length) (h : LinksCommitted s waiting id) :
    LinksCommitted s' waiting id := by
  intro item hitem j hj
  rw [getElem?_of_prefix_of_lt hadv.items hid] at hitem
  exact (h item hitem j hj).imp_left (isCommitted_mono hadv)

/-- The item of a synchronization exists. -/
theorem CoreInv.sync_lt (h : CoreInv s) {t : SyncThread} (ht : t ∈ s.syncs) :
    t.item < s.items.length := by
  rcases h.sync_item ht with ⟨inode, hinode, hitem⟩
  exact (h.committed hinode hitem).1.lt_length

theorem locked_eq_true_iff {k : Nat} : s.locked k = true ↔ ∃ t ∈ s.syncs, t.inum = k := by
  simp [ProxyState.locked]

/-- A step that leaves inodes and synchronizations. -/
theorem JournalFirst.advance (h : JournalFirst s) (hcore : CoreInv s) (hadv : Advances s s')
    (hinodes : s'.inodes = s.inodes) (hsyncs : s'.syncs = s.syncs) : JournalFirst s' := by
  have hlocked : ∀ k, s'.locked k = s.locked k := by
    intro k
    rw [ProxyState.locked, ProxyState.locked, hsyncs]
  refine ⟨?_, ?_, ?_⟩
  · intro k inode id hinode hid
    rw [hinodes] at hinode
    rw [hsyncs]
    exact (h.blocks hinode hid).imp_left (isCommitted_mono hadv)
  · intro t ht
    rw [hsyncs] at ht
    exact (h.syncing ht).advance hadv (hcore.sync_lt ht)
  · intro k inode id hinode hid
    rw [hinodes] at hinode
    rw [hlocked]
    refine (h.version hinode hid).imp_right ?_
    rintro ⟨hcommitted, hlinks⟩
    exact ⟨isCommitted_mono hadv hcommitted,
      hlinks.advance hadv (hcore.committed hinode hid).1.lt_length⟩

variable {inum : Nat}

/-- A change of an inode brings in no new items. -/
theorem journalFirst_modify {image : InodeImage} {blocks : List MemBlock} (h : JournalFirst s)
    (hstep : Stepped s (.modify inum image blocks) s') : JournalFirst s' := by
  cases hstep with | modify _ _ _ hrefs inode hblocks _ hcommitted => ?_
  refine ⟨?_, h.syncing, ?_⟩
  · intro k inode' id hinode' hid
    rcases update_eq_some_iff.mp hinode' with ⟨rfl, rfl⟩ | ⟨-, hinode'⟩
    · rw [hblocks] at hid
      rcases hrefs id hid with ⟨old, hold, hid⟩
      exact h.blocks hold hid
    · exact h.blocks hinode' hid
  · intro k inode' id hinode' hid
    rcases update_eq_some_iff.mp hinode' with ⟨rfl, rfl⟩ | ⟨-, hinode'⟩
    · rw [hcommitted] at hid
      rcases bind_eq_some_iff.mp hid with ⟨old, hold, hid⟩
      exact h.version hold hid
    · exact h.version hinode' hid

/-- The blocks of a flushed file are in the items that they were in, or in new ones. -/
theorem ref_fileFlushBlocks {items : List Item} {blocks : List MemBlock} {id : Nat}
    (h : .ref id ∈ (fileFlushBlocks inum items blocks).2.1) :
    .ref id ∈ blocks ∨ id ∈ (fileFlushBlocks inum items blocks).2.2 := by
  induction blocks generalizing items with
  | nil => cases h
  | cons block blocks ih =>
    cases block with
    | zero =>
      rcases mem_cons.mp h with heq | h
      · cases heq
      · exact (ih h).imp_left (mem_cons_of_mem _)
    | ref id' =>
      rcases mem_cons.mp h with heq | h
      · exact Or.inl (mem_cons.mpr (Or.inl heq))
      · exact (ih h).imp_left (mem_cons_of_mem _)
    | dirty bytes =>
      rcases mem_cons.mp h with heq | h
      · exact Or.inr (mem_cons.mpr (Or.inl (MemBlock.ref.inj heq)))
      · exact (ih h).imp (mem_cons_of_mem _) (mem_cons_of_mem _)

/-- The synchronization waits for what it has queued. -/
theorem journalFirst_startSync (h : JournalFirst s) (hcore : CoreInv s) (hadv : Advances s s')
    (hstep : Stepped s (.startSync inum) s') : JournalFirst s' := by
  cases hstep with | startSync inode r hinode hlocked hr => ?_
  have hfree : ∀ {t : SyncThread}, t ∈ s.syncs → t.inum ≠ inum := ne_of_locked_false hlocked
  -- The lock was free, so that the old blocks are committed.
  have hrefs : ∀ {id : Nat}, .ref id ∈ r.2.1 → s.log.isCommitted id = true ∨ id ∈ r.2.2 := by
    intro id hid
    rw [hr] at hid ⊢
    rcases ref_fileFlushBlocks hid with hold | hnew
    · rcases h.blocks hinode hold with hcommitted | ⟨t, ht, hinum, -⟩
      · exact Or.inl hcommitted
      · exact absurd hinum (hfree ht)
    · exact Or.inr hnew
  refine ⟨?_, ?_, ?_⟩
  · intro k inode' id hinode' hid
    rcases update_eq_some_iff.mp hinode' with ⟨rfl, rfl⟩ | ⟨-, hinode'⟩
    · rcases hrefs hid with hcommitted | hnew
      · exact Or.inl (isCommitted_mono hadv hcommitted)
      · exact Or.inr ⟨_, mem_cons_self, rfl, hnew⟩
    · refine (h.blocks hinode' hid).imp (isCommitted_mono hadv) ?_
      rintro ⟨t, ht, hrest⟩
      exact ⟨t, mem_cons_of_mem _ ht, hrest⟩
  · intro t ht
    rcases mem_cons.mp ht with rfl | ht
    · intro item hitem j hj
      dsimp only at hitem
      rw [getElem?_concat_length, some_inj] at hitem
      subst hitem
      rcases List.mem_map.mp hj with ⟨block, hblock, hlink⟩
      cases block with
      | ref id =>
        rw [← some.inj hlink]
        exact (hrefs hblock).imp_left (isCommitted_mono hadv)
      | zero => cases hlink
      | dirty bytes => cases hlink
    · exact (h.syncing ht).advance hadv (hcore.sync_lt ht)
  · intro k inode' id hinode' hid
    rw [locked_eq_true_iff]
    rcases update_eq_some_iff.mp hinode' with ⟨rfl, -⟩ | ⟨-, hinode'⟩
    · exact Or.inl ⟨_, mem_cons_self, rfl⟩
    · refine (h.version hinode' hid).imp ?_ ?_
      · intro hlock
        rcases locked_eq_true_iff.mp hlock with ⟨t, ht, heq⟩
        exact ⟨t, mem_cons_of_mem _ ht, heq⟩
      · rintro ⟨hcommitted, hlinks⟩
        exact ⟨isCommitted_mono hadv hcommitted,
          hlinks.advance hadv (hcore.committed hinode' hid).1.lt_length⟩

/-- At the end of the wait everything is committed. -/
theorem journalFirst_finishSync (h : JournalFirst s) (hcore : CoreInv s)
    (hstep : Stepped s (.finishSync inum) s') : JournalFirst s' := by
  cases hstep with | finishSync t inode ht heq hinode hall _ => ?_
  subst heq
  have hnodup : s.syncs.Nodup := hcore.syncs_nodup.of_map
  have hkeep : ∀ {t' : SyncThread}, t' ∈ s.syncs → t' = t ∨ t' ∈ s.syncs.erase t := by
    intro t' ht'
    by_cases heq : t' = t
    · exact Or.inl heq
    · exact Or.inr (hnodup.mem_erase_iff.mpr ⟨heq, ht'⟩)
  refine ⟨?_, ?_, ?_⟩
  · intro k inode' id hinode' hid
    have hold : s.log.isCommitted id = true ∨
        ∃ t ∈ s.syncs, t.inum = k ∧ id ∈ t.blockItems := by
      rcases update_eq_some_iff.mp hinode' with ⟨rfl, rfl⟩ | ⟨-, hinode'⟩
      · exact h.blocks hinode hid
      · exact h.blocks hinode' hid
    rcases hold with hcommitted | ⟨t', ht', hinum, hmem⟩
    · exact Or.inl hcommitted
    · rcases hkeep ht' with rfl | ht'
      · exact Or.inl (hall id (mem_append_left _ hmem))
      · exact Or.inr ⟨t', ht', hinum, hmem⟩
  · intro t' ht'
    exact h.syncing (mem_of_mem_erase ht')
  · intro k inode' id hinode' hid
    rcases update_eq_some_iff.mp hinode' with ⟨rfl, rfl⟩ | ⟨hk, hinode'⟩
    · -- The version is that of the synchronization that has ended.
      right
      rcases hcore.sync_item ht with ⟨old, hold, hitem⟩
      rw [hinode, some_inj] at hold
      subst hold
      change inode.committedItem = some id at hid
      rw [hid, some_inj] at hitem
      subst hitem
      refine ⟨hall _ (mem_append_right _ (mem_singleton_self _)), ?_⟩
      intro item hitem j hj
      rcases h.syncing ht item hitem j hj with hcommitted | hmem
      · exact Or.inl hcommitted
      · exact Or.inl (hall j (mem_append_left _ hmem))
    · refine (h.version hinode' hid).imp_left ?_
      intro hlock
      rcases locked_eq_true_iff.mp hlock with ⟨t', ht', hinum⟩
      rcases hkeep ht' with rfl | ht'
      · exact absurd hinum.symm hk
      · exact locked_eq_true_iff.mpr ⟨t', ht', hinum⟩

/-- The flush daemon takes the version of an inode away. -/
theorem journalFirst_drain (h : JournalFirst s) (hstep : Stepped s (.drain inum) s') :
    JournalFirst s' := by
  cases hstep with | drain marker start inode _ hinode _ _ => ?_
  refine ⟨?_, h.syncing, ?_⟩
  · intro k inode' id hinode' hid
    rcases update_eq_some_iff.mp hinode' with ⟨rfl, rfl⟩ | ⟨-, hinode'⟩
    · exact h.blocks hinode hid
    · exact h.blocks hinode' hid
  · intro k inode' id hinode' hid
    rcases update_eq_some_iff.mp hinode' with ⟨-, rfl⟩ | ⟨-, hinode'⟩
    · cases hid
    · exact h.version hinode' hid

/-- Every step keeps the invariant. -/
theorem journalFirst_step {e : Event} (h : JournalFirst s) (hcore : CoreInv s)
    (hadv : Advances s s') (hstep : step s e = some s') : JournalFirst s' := by
  have hstepped := stepped hstep
  cases e with
  | modify inum image blocks => exact journalFirst_modify h hstepped
  | startSync inum => exact journalFirst_startSync h hcore hadv hstepped
  | finishSync inum => exact journalFirst_finishSync h hcore hstepped
  | drain inum => exact journalFirst_drain h hstepped
  | _ =>
    cases hstepped
    all_goals exact h.advance hcore hadv rfl rfl

end Steps

/-! ## What is appended to the cloud log -/

/-- The items that are written to the journal before the cloud log. -/
def Payload.isDataOrInode : Payload → Bool
  | data _ => true
  | inode _ => true
  | _ => false

/-- The items that are written to the journal at all. -/
def Payload.isJournaled : Payload → Bool
  | inodeMap _ => false
  | checkpoint _ _ => false
  | _ => true

theorem Payload.isJournaled_of_isDataOrInode {payload : Payload}
    (h : payload.isDataOrInode = true) : payload.isJournaled = true := by
  cases payload with
  | data bytes => rfl
  | inode image => rfl
  | _ => cases h

/-- The flush daemon takes the version {lit}`x` of an unlocked inode. -/
structure Takes (s : ProxyState) (x : Nat) (item : Item) : Prop where
  unlocked : ∃ inum inode, s.inodes inum = some inode ∧ s.locked inum = false ∧
    inode.committedItem = some x
  item_eq : s.items[x]? = some item
  isInode : item.payload.isInode = true

section Appended

variable {s s' : ProxyState}

/-- A version of an inode and its blocks. -/
theorem linkClosed_version {items : List Item} (hheap : HeapOk items) (c : CloudLogState)
    {x : Nat} {item : Item} (hitem : items[x]? = some item) (hinode : item.payload.isInode) :
    LinkClosed items (fun j => j = x ∨ some j ∈ item.links) c := by
  intro id item' hid _ hitem' j hj
  rcases hid with rfl | hid
  · rw [hitem, some_inj] at hitem'
    subst hitem'
    exact Or.inr hj
  · have hleaf := hheap.isLeaf_of_inode hitem hinode hid
    exact absurd hj (hheap.not_mem_links_of_isLeaf hleaf hitem')

/-- The cloud log has grown, and what is new is a version that was taken and its blocks, but for
items that are not journaled. -/
def Appends (s s' : ProxyState) : Prop :=
  ∃ objects, s'.cloud.log = s.cloud.log ++ objects ∧
    ∀ object ∈ objects, object.payload.isJournaled = true →
      ∃ x item, Takes s x item ∧ (object.id = x ∨ some object.id ∈ item.links)

theorem Appends.of_eq (h : s'.cloud.log = s.cloud.log) : Appends s s' :=
  ⟨[], by rw [h, append_nil], nofun⟩

/-- A drained inode brings itself and its data to the cloud log. -/
theorem appends_drain {inum : Nat} (hcore : CoreInv s) (hstep : Stepped s (.drain inum) s') :
    Appends s s' := by
  cases hstep with | drain marker start inode _ hinode _ hlocked => ?_
  cases hx : inode.committedItem with
  | none => exact .of_eq rfl
  | some x =>
    rcases (hcore.committed hinode hx).1 with ⟨item, hitem, hisInode, -⟩
    have hlt := lt_length_of_getElem? hitem
    have hspec := cloudlogSerialize_spec hcore.heap s.items.length hcore.cloud
      (linkClosed_version hcore.heap s.cloud hitem hisInode) (Or.inl rfl) hlt hlt
    rcases hspec.grows.objects with ⟨objects, hlog, -, hobjects⟩
    refine ⟨objects, hlog, ?_⟩
    intro object hobject _
    exact ⟨x, item, ⟨⟨inum, inode, hinode, hlocked, hx⟩, hitem, hisInode⟩,
      (hobjects object hobject).1⟩

/-- With the inode map, sections and the checkpoint are appended. -/
theorem appends_writeMap (hcore : CoreInv s) (hstep : Stepped s .writeMap s') : Appends s s' := by
  cases hstep with
  | keepMap => exact .of_eq (log_cloudlogFlush s.cloud)
  | writeMap marker start _ r _ _ hsec => ?_
  rcases (hcore.mapWritten hsec).grows.objects with ⟨objects, hlog, -, hobjects⟩
  refine ⟨objects, ?_, ?_⟩
  · dsimp only
    rw [log_cloudlogFlush, hlog]
    rfl
  · -- Only sections of the inode map and the checkpoint are new.
    intro object hobject hfile
    exfalso
    rcases hobjects object hobject with ⟨hid, -, item, hitem, hpayload, -⟩
    rw [hpayload] at hfile
    rcases hid with hid | ⟨range, hrange, hid⟩
    · rw [hid, getElem?_concat_length, some_inj] at hitem
      subst hitem
      cases hfile
    · have hsection := getElem?_mono (prefix_append r.1
        [checkpointItem s.cloud.latestCleanerSeqSeen r.2])
        (hsec.sections hcore.sections range hrange _ hid)
      rw [hitem, some_inj] at hsection
      subst hsection
      cases hfile

theorem appends_step {e : Event} (hcore : CoreInv s) (hstep : step s e = some s') :
    Appends s s' := by
  have hstepped := stepped hstep
  cases e with
  | drain inum => exact appends_drain hcore hstepped
  | writeMap => exact appends_writeMap hcore hstepped
  | _ =>
    cases hstepped
    exact .of_eq rfl

/-- An object of the log is the record of its item. -/
theorem CloudOk.links_of_mem_log {items : List Item} {c : CloudLogState} (hc : CloudOk items c)
    {object : CloudObject} (hobject : object ∈ c.log) :
    ∃ item, items[object.id]? = some item ∧ object = c.object object.id item := by
  rcases hc.of_mem_log hobject with ⟨l, hl, hat⟩
  rcases hc.placed hl with ⟨item, hitem, -, hat', -⟩
  exact ⟨item, hitem, hat.unique hat'⟩

end Appended

/-! ## Runs -/

/-- All invariants that the order of writing rests on. -/
structure WriteAheadInv (s : ProxyState) : Prop where
  core : CoreInv s
  positions : PositionsOk s.items s.log
  first : JournalFirst s

/-- Every step under the locks keeps the invariant. -/
theorem writeAheadInv_step {s s' : ProxyState} {e : Event} (h : WriteAheadInv s)
    (hstep : step s e = some s') : WriteAheadInv s' :=
  ⟨coreInv_step h.core hstep, positionsOk_step (coreInv_step h.core hstep) h.positions hstep,
    journalFirst_step h.first h.core (advances_step h.positions.committed hstep) hstep⟩

/-- A version that is taken is committed, and so are its blocks. -/
theorem JournalFirst.of_takes {s : ProxyState} (h : JournalFirst s) {x : Nat} {item : Item}
    (htakes : Takes s x item) :
    s.log.isCommitted x = true ∧ ∀ j, some j ∈ item.links → s.log.isCommitted j = true := by
  rcases htakes.unlocked with ⟨inum, inode, hinode, hlocked, hx⟩
  rcases h.version hinode hx with hlock | ⟨hcommitted, hlinks⟩
  · rw [hlocked] at hlock
    cases hlock
  · refine ⟨hcommitted, ?_⟩
    intro j hj
    rcases hlinks item htakes.item_eq j hj with hj | hj
    · exact hj
    · cases hj

/-- What is new in the cloud log and is data or an inode was committed to the journal before, and so
was everything that it links to. -/
def AppendsCommitted (s s' : ProxyState) : Prop :=
  ∃ objects, s'.cloud.log = s.cloud.log ++ objects ∧
    ∀ object ∈ objects, object.payload.isDataOrInode = true →
      s.log.isCommitted object.id = true ∧
        ∀ j l, some (j, l) ∈ object.links → s.log.isCommitted j = true

/-- Every step appends what is committed. -/
theorem WriteAheadInv.appendsCommitted {s s' : ProxyState} {e : Event} (hinv : WriteAheadInv s)
    (hstep : step s e = some s') : AppendsCommitted s s' := by
  rcases appends_step hinv.core hstep with ⟨objects, hlog, hobjects⟩
  refine ⟨objects, hlog, ?_⟩
  intro object hobject hfile
  rcases hobjects object hobject (Payload.isJournaled_of_isDataOrInode hfile) with
    ⟨x, item, htakes, hid⟩
  rcases hinv.first.of_takes htakes with ⟨hcommitted, hlinks⟩
  have hcore' := coreInv_step hinv.core hstep
  rcases hcore'.cloud.links_of_mem_log (by rw [hlog]; exact mem_append_right _ hobject) with
    ⟨item', hitem', hrecord⟩
  have hsource : ∀ j l, some (j, l) ∈ object.links → some j ∈ item'.links := by
    intro j l hj
    rw [hrecord] at hj
    rcases List.mem_map.mp hj with ⟨link, hlink, heq⟩
    rcases map_eq_some_iff.mp heq with ⟨j', rfl, hj'⟩
    have hsame : j' = j := congrArg Prod.fst hj'
    rwa [← hsame]
  have hitems := items_step hstep
  rcases hid with hid | hid
  · have hsame := getElem?_mono hitems htakes.item_eq
    rw [← hid, hitem', some_inj] at hsame
    subst hsame
    rw [hid]
    exact ⟨hcommitted, fun j l hj => hlinks j (hsource j l hj)⟩
  · refine ⟨hlinks _ hid, ?_⟩
    intro j l hj
    have hleaf := (hinv.core.heap.isLeaf_of_inode htakes.item_eq htakes.isInode hid).mono hitems
    exact absurd (hsource j l hj) (hcore'.heap.not_mem_links_of_isLeaf hleaf hitem')

/-! ## Renaming within one directory -/

/-- The proxy with RENAMEs whose two directories are the same.  They change the directory and
synchronize it without its lock. -/
structure RenamingProxy where
  proxy : ProxyState
  /-- The synchronizations that hold no lock and wait for the journal. -/
  unlocked : List SyncThread

namespace RenamingProxy

/-- An empty file system. -/
def start (disableAggregation : Bool) : RenamingProxy :=
  ⟨ProxyState.start disableAggregation, []⟩

/-- The steps. -/
inductive Event where
  /-- A step whose changes and synchronizations hold the lock of the inode. -/
  | locked (e : ProxyState.Event)
  /-- `bluesky_rename` changes the directory. -/
  | rename (inum : Nat) (image : InodeImage)
  | startSync (inum : Nat)
  | finishSync (i : Nat)
deriving DecidableEq, Repr

/-- One step.  What the threads without a lock do, they do as if nothing was locked. -/
def step (s : RenamingProxy) : Event → Option RenamingProxy
  | .locked e => (s.proxy.step e).map fun p => { s with proxy := p }
  | .rename inum image =>
    (ProxyState.modify { s.proxy with syncs := [] } inum image []).map fun p =>
      { s with proxy := { p with syncs := s.proxy.syncs } }
  | .startSync inum =>
    (ProxyState.startSync { s.proxy with syncs := [] } inum).map fun p =>
      { proxy := { p with syncs := s.proxy.syncs }, unlocked := s.unlocked ++ p.syncs }
  | .finishSync i =>
    (s.unlocked[i]?).bind fun t =>
      (ProxyState.finishSync { s.proxy with syncs := [t] } t.inum).map fun p =>
        { proxy := { p with syncs := s.proxy.syncs }, unlocked := s.unlocked.eraseIdx i }

/-- The step is not one of a synchronization without a lock, or of the change before it. -/
def Event.isLocked : Event → Bool
  | .locked _ => true
  | _ => false

variable {s s' : RenamingProxy}

/-- As long as all locks are held, the proxy is as without RENAMEs. -/
theorem writeAheadInv_of_reachable {disableAggregation : Bool}
    (hs : Reachable step (fun _ e => e.isLocked = true) (start disableAggregation) s) :
    WriteAheadInv s.proxy := by
  refine hs.invariant (I := fun s => WriteAheadInv s.proxy)
    ⟨coreInv_start _, positionsOk_start _, journalFirst_start _⟩ ?_
  intro s₁ e s₂ h hlocked hstep
  cases e with
  | locked e =>
    rcases map_eq_some_iff.mp hstep with ⟨p, hp, rfl⟩
    exact writeAheadInv_step h hp
  | rename inum image => cases hlocked
  | startSync inum => cases hlocked
  | finishSync i => cases hlocked

/-- The threads without a lock append nothing. -/
theorem log_eq_of_unlocked {e : Event} (hlocked : e.isLocked = false)
    (hstep : s.step e = some s') : s'.proxy.cloud.log = s.proxy.cloud.log := by
  cases e with
  | locked e => cases hlocked
  | rename inum image =>
    rcases map_eq_some_iff.mp hstep with ⟨p, hp, rfl⟩
    cases stepped (e := .modify inum image []) hp
    rfl
  | startSync inum =>
    rcases map_eq_some_iff.mp hstep with ⟨p, hp, rfl⟩
    cases stepped (e := .startSync inum) hp
    rfl
  | finishSync i =>
    rcases bind_eq_some_iff.mp hstep with ⟨t, -, hfinish⟩
    rcases map_eq_some_iff.mp hfinish with ⟨p, hp, rfl⟩
    cases stepped (e := .finishSync t.inum) hp
    rfl

end RenamingProxy

/-- Whatever the order of the steps, as long as every synchronization holds the lock of its inode:
what a step appends to the cloud log that is data or an inode was committed to the journal before
the step, and so was everything that it links to. -/
theorem write_ahead (disableAggregation : Bool) (s : RenamingProxy)
    (hs : Reachable RenamingProxy.step (fun _ e => e.isLocked = true) (.start disableAggregation) s)
    (e : RenamingProxy.Event) (s' : RenamingProxy) (hstep : s.step e = some s') :
    AppendsCommitted s.proxy s'.proxy := by
  cases hlocked : e.isLocked with
  | false =>
    refine ⟨[], ?_, nofun⟩
    rw [RenamingProxy.log_eq_of_unlocked hlocked hstep, append_nil]
  | true =>
    cases e with
    | locked e =>
      rcases map_eq_some_iff.mp hstep with ⟨p, hp, rfl⟩
      exact (RenamingProxy.writeAheadInv_of_reachable hs).appendsCommitted hp
    | rename inum image => cases hlocked
    | startSync inum => cases hlocked
    | finishSync i => cases hlocked

/-- An inode with new blocks is changed and synchronized, and `flushd_cloud` begins. -/
def syncedThenFlushed (image : InodeImage) (blocks : List MemBlock) : List Event :=
  [.modify 2 image blocks, .startSync 2, .logWrite] ++ blocks.map (fun _ => .logWrite) ++
    [.logCommit, .finishSync 2, .getCommitPoint, .readSeqNum]

/-- A file of three bytes is synchronized and goes to the cloud log with its block. -/
theorem write_ahead_file :
    ∃ s s' : RenamingProxy,
      Reachable RenamingProxy.step (fun _ e => e.isLocked = true) (.start false) s ∧
      s.step (.locked (.drain 2)) = some s' ∧ s.proxy.cloud.log = [] ∧
      s'.proxy.cloud.log.map CloudObject.id = [0, 1] ∧ AppendsCommitted s.proxy s'.proxy := by
  have hfacts : ∃ s ∈ runWhile RenamingProxy.step (fun _ e => e.isLocked = true) (.start false)
      ((syncedThenFlushed { emptyDirectory with body := .regular 3 } [.dirty [1, 2, 3]]).map
        .locked),
      ∃ s' ∈ s.step (.locked (.drain 2)), s.proxy.cloud.log = [] ∧
        s'.proxy.cloud.log.map CloudObject.id = [0, 1] := by
    decide +kernel
  rcases hfacts with ⟨s, hrun, s', hstep, hbefore, hafter⟩
  have hreach := reachable_of_runWhile .start hrun
  exact ⟨s, s', hreach, hstep, hbefore, hafter, write_ahead false s hreach _ s' hstep⟩

/-- A RENAME within a directory that is on the dirty list publishes a new version, and the flush
daemon appends it while the log thread has not written it. -/
theorem renamed_directory_ahead :
    ∃ s s' : RenamingProxy,
      Reachable RenamingProxy.step (fun _ _ => True) (.start false) s ∧
      s.step (.locked (.drain 2)) = some s' ∧ ¬ AppendsCommitted s.proxy s'.proxy := by
  have hfacts : ∃ s ∈ runWhile RenamingProxy.step (fun _ _ => True) (.start false)
      ((syncedThenFlushed emptyDirectory []).map .locked ++
        [.rename 2 emptyDirectory, .startSync 2]),
      ∃ s' ∈ s.step (.locked (.drain 2)), s.proxy.cloud.log = [] ∧
        ∃ object ∈ s'.proxy.cloud.log, object.payload.isDataOrInode = true ∧
          s.proxy.log.isCommitted object.id = false := by
    decide +kernel
  rcases hfacts with ⟨s, hrun, s', hstep, hbefore, object, hobject, hfile, hcommitted⟩
  refine ⟨s, s', reachable_of_runWhile .start hrun, hstep, ?_⟩
  rintro ⟨objects, hlog, hobjects⟩
  rw [hbefore, nil_append] at hlog
  rw [hlog] at hobject
  rw [(hobjects object hobject hfile).1] at hcommitted
  cases hcommitted

end BlueSky
