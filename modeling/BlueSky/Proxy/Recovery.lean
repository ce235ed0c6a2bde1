import BlueSky.Proxy.Synced

/-!
# Recovery after a crash

`bluesky_init_fs` loads the last checkpoint from the store and replays the journal from the
last commit point; if the store is empty, it creates a new file system and does not look at
the journal.

Main results:

- Definition {lit}`initFs`: what a reader of an inode sees after recovery.
- Theorem {lit}`initFs_synced`: the versions that have been synchronized are recovered,
  under conditions on the crash, on blocks and on holes.
- Theorem {lit}`reachable_recoverable_of_sequential`: the runs in which flushes and
  synchronizations do not overlap meet the conditions on the run.
-/

namespace BlueSky

open List Option PrecedenceLib ProxyState TransitionLib ByteLib

/-! ## Recovery -/

/-- The records that `bluesky_replay` comes to: those from the start on, in files up to the
first one that is missing. -/
def replayed (items : List Item) (log : JournalLog) (entries : List JournalEntry) :
    List JournalEntry :=
  let start := replayStart items log entries
  entries.filter fun entry => ¬ entry.Before start ∧
    (List.range' start.1 (entry.seq + 1 - start.1)).all fun n => n ∉ log.unlinked

/-- Whether an item is a version of an inode. -/
def isVersion (items : List Item) (k id : Nat) : Bool :=
  (items[id]?).any fun item => item.payload.isInode ∧ item.inum = k

/-- The version of an inode that replay leaves in memory, which is the last one. -/
def replayedVersion (items : List Item) (entries : List JournalEntry) (k : Nat) : Option Nat :=
  ((entries.filter fun entry => isVersion items k entry.id).getLast?).map JournalEntry.id

/-- What a reader of a replayed version sees.  Its blocks cannot be read: `reload_item`
leaves a link null or finds an item whose record lies elsewhere. -/
def replayView (item : Item) : Option InodeView :=
  match item.payload with
  | .inode image => if item.links = [] then some { image := image, contents := [] } else none
  | _ => none

/-- The blocks of an inode that was read from the store.  A block without an item makes
`bluesky_block_fetch` crash. -/
def readBlocks (c : CloudLogState) : List (Option (Nat × Location)) → Option (List Bytes)
  | [] => some []
  | none :: _ => none
  | some (_, l) :: links =>
    match c.storeGet l with
    | some ⟨_, .data bytes, _, _⟩ => (readBlocks c links).map (bytes :: ·)
    | _ => none

/-- `bluesky_deserialize_inode` on an object of the store, and the blocks. -/
def objectView (c : CloudLogState) (object : CloudObject) : Option InodeView :=
  match object.payload with
  | .inode image =>
    match image.body with
    | .regular size =>
      if object.links.length = ChunkLib.chunkCount blockSize size then
        (readBlocks c object.links).map fun contents => { image := image, contents := contents }
      else none
    | _ => some { image := image, contents := [] }
  | _ => none

/-- `bluesky_inode_fetch`. -/
def inodeFetch (c : CloudLogState) (r : LoadedMap) (k : Nat) : Option InodeView :=
  (inodeMapLookup r.inodeMap k).bind fun id =>
    (r.location id).bind fun l => (c.storeGet l).bind (objectView c)

/-- The root directory of a new file system. -/
def freshRoot (now : Int) : InodeView where
  image :=
    { mode := 493, uid := 0, gid := 0, nlink := 1, changeCount := 2, atime := 0, ctime := now
      mtime := now, ntime := 0, body := .directory [] }
  contents := []

/-- What a reader of an inode sees after `bluesky_init_fs` on the store and the records that
a crash has left.  The inode may be missing, or it cannot be read, or there is no file
system at all. -/
def initFs (s : ProxyState) (entries : List JournalEntry) (now : Int) (k : Nat) :
    Option InodeView :=
  match checkpointLoad s.cloud with
  | .fresh => if k = 1 then some (freshRoot now) else none
  | .fatal => none
  | .checkpoint object =>
    (inodeMapDeserialize s.cloud.storeGet object).bind fun r =>
      match replayedVersion s.items (replayed s.items s.log entries) k with
      | some id => (s.items[id]?).bind replayView
      | none => inodeFetch s.cloud r k

/-! ## Replay -/

theorem isVersion_iff {items : List Item} {k id : Nat} :
    isVersion items k id ↔ IsInodeOf items k id := by
  unfold isVersion IsInodeOf
  simp [Option.any_eq_true]

/-- The scan of a file ends at a commit point, if it finds one. -/
theorem scanRecord_foldl_cases (items : List Item) (entries : List JournalEntry)
    (position : Nat × Nat) :
    entries.foldl (scanRecord items) position = position ∨
      ∃ entry ∈ entries, commitPosition items entry.id =
        some (entries.foldl (scanRecord items) position) := by
  induction entries generalizing position with
  | nil => exact Or.inl rfl
  | cons entry entries ih =>
    rw [foldl_cons]
    rcases ih (scanRecord items position entry) with heq | ⟨e, he, hpoint⟩
    · rw [heq]
      unfold scanRecord
      cases hpoint : commitPosition items entry.id with
      | none => exact Or.inl rfl
      | some p => exact Or.inr ⟨entry, mem_cons_self, hpoint⟩
    · exact Or.inr ⟨e, mem_cons_of_mem _ he, hpoint⟩

/-- Replay starts at the beginning, or where a commit point says. -/
theorem replayStart_cases (items : List Item) (log : JournalLog) (entries : List JournalEntry) :
    replayStart items log entries = (0, 0) ∨
      ∃ entry ∈ entries, IsCommitPoint items entry.id (replayStart items log entries).1
        (replayStart items log entries).2 := by
  unfold replayStart
  generalize ((List.range (log.seqNum + 1)).reverse.filter fun seq => seq ∉ log.unlinked) = files
  induction files with
  | nil => exact Or.inl rfl
  | cons seq files ih =>
    rw [findStart]
    split_ifs with hzero
    · rcases scanRecord_foldl_cases items (entries.filter fun entry => entry.seq = seq) (0, 0)
        with heq | ⟨e, he, hpoint⟩
      · exact absurd heq hzero
      · exact Or.inr ⟨e, (mem_filter.mp he).1, hpoint⟩
    · exact ih

/-- The last element of a list. -/
theorem getLast?_of_not_precedes {α : Type*} {l : List α} {a : α} (ha : a ∈ l)
    (hlast : ∀ b, ¬ Precedes l a b) : l.getLast? = some a := by
  rcases append_of_mem ha with ⟨front, rest, rfl⟩
  cases rest with
  | nil => simp
  | cons b rest =>
    refine absurd ?_ (hlast b)
    exact precedes_append.mpr (Or.inr (Or.inr
      (List.Sublist.cons_cons _ (singleton_sublist.mpr mem_cons_self))))

/-! ## What is recovered -/

/-- The invariants of the runs in which the markers are current and no synchronization is
caught before one. -/
structure RecoveryInv (s : ProxyState) : Prop extends ProxyInv s where
  watermark : WatermarkInv s
  synced : SyncedInv s

/-- The condition on the steps of a run. -/
def recoverable (s : ProxyState) (e : Event) : Prop :=
  markerCurrent s e ∧ syncsBehindMarker s e

instance (s : ProxyState) (e : Event) : Decidable (recoverable s e) :=
  inferInstanceAs (Decidable (_ ∧ _))

/-- The invariants hold in every run whose steps meet the condition. -/
theorem recoveryInv_reachable {disableAggregation : Bool} {s : ProxyState}
    (hs : Reachable step recoverable (start disableAggregation) s) : RecoveryInv s :=
  hs.invariant
    ⟨proxyInv_start _, watermarkInv_start _, syncedInv_start _⟩
    fun _ _ _ h hok hstep =>
      ⟨proxyInv_step h.toProxyInv hok.2 hstep,
        watermarkInv_step h.core h.positions h.watermark hok.1 hstep,
        syncedInv_step h.core h.positions h.synced hstep⟩

section Recovery

variable {s : ProxyState} {entries : List JournalEntry}

variable {e : JournalEntry}

/-- No file is missing from which replay reads. -/
theorem mem_replayed (h : RecoveryInv s) (hdurable : s.log.durable <+: entries)
    (hentries : entries <+: s.log.entries) :
    e ∈ replayed s.items s.log entries ↔
      e ∈ entries ∧ ¬ e.Before (replayStart s.items s.log entries) := by
  unfold replayed
  rw [mem_filter]
  refine and_congr_right fun _ => ?_
  simp only [Bool.decide_and, Bool.and_eq_true, decide_eq_true_eq, List.all_eq_true,
    List.mem_range'_1, decide_not, Bool.not_eq_true', decide_eq_false_iff_not]
  refine and_iff_left_of_imp fun _ n hn hgone => ?_
  have hlt := (watermark_bounds h.positions h.watermark hdurable hentries).2 n hgone
  omega

variable {k : Nat} {item : Item}

/-- The last version of an inode is the last of its records. -/
theorem not_isInodeOf_of_precedes (hentries : entries <+: s.log.entries) {id : Nat}
    (hlast : LastVersion s k id item) {e' : JournalEntry} (he : e.id = id)
    (hprec : Precedes entries e e') : ¬ IsInodeOf s.items k e'.id := by
  intro hinode
  refine hlast.last ⟨e'.id, hinode, ?_⟩
  rw [← he]
  exact precedes_order_of_entries hentries hprec

/-- A last version from the start of replay on is the one that replay leaves. -/
theorem replayedVersion_of_not_before (h : RecoveryInv s) (hdurable : s.log.durable <+: entries)
    (hentries : entries <+: s.log.entries) {id : Nat} (hlast : LastVersion s k id item)
    (he : e ∈ entries) (hid : e.id = id) (hstart : ¬ e.Before (replayStart s.items s.log entries)) :
    replayedVersion s.items (replayed s.items s.log entries) k = some id := by
  have hmem : e ∈ (replayed s.items s.log entries).filter fun entry =>
      isVersion s.items k entry.id := by
    refine mem_filter.mpr ⟨(mem_replayed h hdurable hentries).mpr ⟨he, hstart⟩, ?_⟩
    rw [isVersion_iff, hid]
    exact hlast.isInodeOf
  unfold replayedVersion
  rw [getLast?_of_not_precedes hmem, map_some, hid]
  intro e' hprec
  have hversion := isVersion_iff.mp (mem_filter.mp hprec.right_mem).2
  have hsub : Precedes entries e e' :=
    List.Sublist.trans hprec (filter_sublist.trans filter_sublist)
  exact not_isInodeOf_of_precedes hentries hlast hid hsub hversion

/-- If the last version lies before the start, replay comes to no version. -/
theorem replayedVersion_of_before (h : RecoveryInv s) (hdurable : s.log.durable <+: entries)
    (hentries : entries <+: s.log.entries) {id : Nat} (hlast : LastVersion s k id item)
    (he : e ∈ entries) (hid : e.id = id) (hstart : e.Before (replayStart s.items s.log entries)) :
    replayedVersion s.items (replayed s.items s.log entries) k = none := by
  unfold replayedVersion
  rw [map_eq_none_iff, getLast?_eq_none_iff, filter_eq_nil_iff]
  intro e' he' hversion
  rcases (mem_replayed h hdurable hentries).mp he' with ⟨hmem, hnot⟩
  have hne : e ≠ e' := by
    rintro rfl
    exact hnot hstart
  rcases precedes_total he hmem hne with hprec | hprec
  · exact not_isInodeOf_of_precedes hentries hlast hid hprec (isVersion_iff.mp hversion)
  · have hprec' : Precedes s.log.entries e' e := List.Sublist.trans hprec hentries.sublist
    exact hnot ((h.positions.before_of hprec').trans hstart)

/-! ## Versions in the store -/

variable {checkpoint : CloudObject}

theorem lastCheckpoint_append_some {objects rest : List CloudObject}
    (h : lastCheckpoint rest = some checkpoint) :
    lastCheckpoint (objects ++ rest) = some checkpoint := by
  unfold lastCheckpoint at h ⊢
  rw [filter_append, getLast?_append, h]
  rfl

theorem lastCheckpoint_take {segments : List CloudSegment} {n : Nat} {segment : CloudSegment}
    (hsegment : segments[n]? = some segment) (hlast : lastCheckpoint segment = some checkpoint) :
    lastCheckpoint (segments.take (n + 1)).flatten = some checkpoint := by
  rw [take_add_one, hsegment, flatten_append]
  refine lastCheckpoint_append_some ?_
  simpa using hlast

/-- The loader finds a checkpoint, and it can be loaded. -/
theorem checkpointLoad_loads (h : RecoveryInv s) (hflushed : 0 < s.flushBase)
    (hcrash : NoneOrAllStored s) :
    ∃ checkpoint r, checkpointLoad s.cloud = .checkpoint checkpoint ∧
      inodeMapDeserialize s.cloud.storeGet checkpoint = some r := by
  rcases exists_last_segment h.core h.flush hflushed hcrash with
    ⟨n, segment, checkpoint, hsegment, hlast, hstored, hn⟩
  have htake := lastCheckpoint_take hsegment hlast
  have hload := checkpointLoad_of_last hsegment hlast hstored
  rcases hn with hbase | ⟨⟨marker, start, hflushd⟩, hlength⟩
  · rcases h.reload.base hflushed with ⟨checkpoint', r, hlast', hrun⟩
    rw [← hbase, htake] at hlast'
    exact ⟨checkpoint, r, hload, some.inj hlast' ▸ hrun⟩
  · have hphase := h.flush.phase
    rw [hflushd] at hphase
    rcases h.reload.loads_last h.core hphase.1 hphase.2.1
      (fun m hm => (hstored m).mpr (by omega)) (by omega) with ⟨checkpoint', r, hlast', hrun⟩
    rw [hlength, take_length] at htake
    rw [htake] at hlast'
    exact ⟨checkpoint, r, hload, some.inj hlast' ▸ hrun⟩

/-- The loader finds a checkpoint that gives a settled version, and the store has no gap. -/
theorem checkpointLoad_listedIn (h : RecoveryInv s) (hflushed : 0 < s.flushBase)
    (hcrash : NoneOrAllStored s) {id : Nat} (hentry : MapEntry s.cloud.inodeMap k id)
    (hin : InBase s k id) :
    ∃ checkpoint, checkpointLoad s.cloud = .checkpoint checkpoint ∧
      ListedIn s.cloud checkpoint k id ∧ ∃ n, ∀ m, m ∈ s.cloud.stored ↔ m ≤ n := by
  rcases exists_last_segment h.core h.flush hflushed hcrash with
    ⟨n, segment, checkpoint, hsegment, hlast, hstored, hn⟩
  have htake := lastCheckpoint_take hsegment hlast
  refine ⟨checkpoint, checkpointLoad_of_last hsegment hlast hstored, ?_, n, hstored⟩
  rcases hn with hbase | ⟨⟨marker, start, hflushd⟩, hlength⟩
  · rcases hin with ⟨checkpoint', hlast', hlisted⟩
    rw [← hbase, htake] at hlast'
    rw [some.inj hlast']
    exact hlisted
  · have hphase := h.flush.phase
    rw [hflushd] at hphase
    rcases listedIn_of_mapEntry h.core h.flush h.reload hphase.1 hphase.2.1
      (fun m hm => (hstored m).mpr (by omega)) hentry with ⟨checkpoint', hlast', hlisted⟩
    rw [hlength, take_length] at htake
    rw [htake] at hlast'
    rw [some.inj hlast']
    exact hlisted

/-- The object of a version that a checkpoint gives is in the store. -/
theorem storeGet_of_listedIn (hcore : CoreInv s) {id : Nat}
    (hlisted : ListedIn s.cloud checkpoint k id) {l : Location}
    (hl : s.cloud.location id = some l) : l.sequence ∈ s.cloud.stored := by
  rcases hlisted with ⟨⟨l', o, -, hget, hid⟩, -⟩
  rcases at_of_storeGet hget with ⟨segment, hsegment, hfind⟩
  rcases hcore.cloud.listed hsegment (segmentGet_mem hfind) with ⟨l'', hl'', hseq, -⟩
  rw [hid, hl] at hl''
  rw [some.inj hl'', hseq]
  unfold CloudLogState.storeGet CloudLogState.storedSegment at hget
  split_ifs at hget with hdir hstored
  · exact hstored
  · cases hget

/-- The data blocks of a version are read from the store. -/
theorem readBlocks_spec {links : List (Option Nat)} (hnone : none ∉ links)
    (hstore : ∀ j, some j ∈ links → ∃ l target bytes, s.cloud.location j = some l ∧
      s.items[j]? = some target ∧ target.payload = .data bytes ∧
      s.cloud.storeGet l = some (s.cloud.object j target)) (size : Nat) :
    readBlocks s.cloud (links.map (Option.map s.cloud.linkTo)) =
      some (links.mapIdx (linkContents s.items size)) := by
  have hshift : ∀ links : List (Option Nat), none ∉ links → ∀ n,
      links.mapIdx (fun i => linkContents s.items size (i + n)) =
        links.map fun link => itemBytes s.items (link.getD 0) := by
    intro links hnone n
    rw [mapIdx_eq_iff]
    intro i
    rw [getElem?_map]
    cases hlink : links[i]? with
    | none => rfl
    | some link =>
      cases link with
      | none => exact absurd (mem_of_getElem? hlink) hnone
      | some j => rfl
  rw [show links.mapIdx (linkContents s.items size) =
    links.map fun link => itemBytes s.items (link.getD 0) from hshift links hnone 0]
  induction links with
  | nil => rfl
  | cons link links ih =>
    cases link with
    | none => exact absurd mem_cons_self hnone
    | some j =>
      rcases hstore j mem_cons_self with ⟨l, target, bytes, hl, htarget, hdata, hget⟩
      have hbytes : itemBytes s.items j = bytes := by
        rcases target with ⟨payload, inum, tlinks⟩
        dsimp only at hdata
        subst hdata
        rw [itemBytes, htarget]
      rw [map_cons, map_some, ← Prod.eta (s.cloud.linkTo j), readBlocks,
        show (s.cloud.linkTo j).2 = l by simp [CloudLogState.linkTo, hl], hget]
      rcases target with ⟨payload, inum, tlinks⟩
      dsimp only at hdata
      subst hdata
      simp only [CloudLogState.object]
      rw [ih (fun hmem => hnone (mem_cons_of_mem _ hmem))
        (fun i hi => hstore i (mem_cons_of_mem _ hi))]
      simp [hbytes]

/-- A version that the checkpoint gives is read from the store. -/
theorem inodeFetch_spec (hcore : CoreInv s) {id : Nat} (hlast : LastVersion s k id item)
    (hlisted : ListedIn s.cloud checkpoint k id) (hstored : ∃ n, ∀ m, m ∈ s.cloud.stored ↔ m ≤ n)
    (hlt : ∀ m ∈ s.cloud.stored, m < s.cloud.segments.length) (hholes : none ∉ item.links) :
    ∃ r, inodeMapDeserialize s.cloud.storeGet checkpoint = some r ∧
      inodeFetch s.cloud r k = itemView s.items item := by
  rcases hstored with ⟨n, hstored⟩
  have hgap : ∀ {a b : Nat}, a ∈ s.cloud.stored → b ≤ a → b ∈ s.cloud.stored := by
    intro a b ha hb
    exact (hstored b).mpr (Nat.le_trans hb ((hstored a).mp ha))
  have hlisted' := hlisted
  rcases hlisted with ⟨-, r, l, hrun, hok, hentry, hr, hl⟩
  have hseq := storeGet_of_listedIn hcore hlisted' hl
  rcases hcore.cloud.placed hl with ⟨item', hitem', hdir, hat, hlinks⟩
  rw [hlast.found] at hitem'
  rw [← some.inj hitem'] at hat hlinks
  have hget := storeGet_of_at hat hdir (hlt _ hseq) hseq
  refine ⟨r, hrun, ?_⟩
  unfold inodeFetch
  rw [inodeMapLookup_of_mapEntry hok hentry, bind_some, hr, bind_some, hget, bind_some]
  rcases hlast.fits with ⟨image, hpayload, hregular, hother⟩
  have hread := readBlocks_spec hholes (s := s) (fun j hj => by
    rcases hlinks hj with ⟨lj, hlj, hle⟩
    rcases hcore.cloud.placed hlj with ⟨target, htarget, hdirj, hatj, -⟩
    have hmay := hcore.heap.mayLink hlast.found hj htarget
    rw [hpayload] at hmay
    cases hdata : target.payload with
    | data bytes =>
      have hstoredj := hgap hseq hle
      exact ⟨lj, target, bytes, hlj, htarget, hdata,
        storeGet_of_at hatj hdirj (hlt _ hstoredj) hstoredj⟩
    | _ =>
      rw [hdata] at hmay
      cases hmay) image.size
  unfold objectView itemView
  simp only [CloudLogState.object, hpayload]
  cases hbody : image.body with
  | regular size =>
    simp only [length_map, hregular size hbody, if_true, hread, map_some]
  | directory dirents => simp [hother (by simp [hbody])]
  | symlink contents => simp [hother (by simp [hbody])]

/-! ## Recovery of what has been synchronized -/

/-- The last version of the inode can be read after recovery: it has no blocks if replay comes
to it, and no holes if it is read from the store. -/
def Recoverable (s : ProxyState) (entries : List JournalEntry) (k : Nat) : Prop :=
  ∀ e ∈ entries, ∀ item, s.items[e.id]? = some item → IsInodeOf s.items k e.id →
    ¬ Superseded s k e.id →
    if e.Before (replayStart s.items s.log entries) then none ∉ item.links else item.links = []

/-- A version before the start of replay is given by the checkpoint. -/
theorem settled_of_before (h : RecoveryInv s) (hentries : entries <+: s.log.entries) {id : Nat}
    (hlast : LastVersion s k id item) (he : e ∈ entries) (hid : e.id = id)
    (hstart : e.Before (replayStart s.items s.log entries)) :
    MapEntry s.cloud.inodeMap k id ∧ InBase s k id := by
  rcases replayStart_cases s.items s.log entries with hzero | ⟨c, -, hcommit⟩
  · rw [hzero] at hstart
    unfold JournalEntry.Before at hstart
    omega
  · rcases h.commit.points _ _ _ hcommit with
      ⟨hseq, hoffset⟩ | ⟨marker, hmarker, hseq, hoffset, hsettled⟩
    · unfold JournalEntry.Before at hstart
      omega
    · have hbefore : e.Before (marker.seq, marker.offset) := by
        rw [hseq, hoffset]
        exact hstart
      have hprec := precedes_of_before h.positions (hentries.subset he) hmarker hbefore
      rw [hid] at hprec
      rcases hsettled k id hlast.isInodeOf hprec with ⟨x, hx, hxprec, -⟩ | hin
      · exact absurd ⟨x, hx, hxprec⟩ hlast.last
      · exact hin

end Recovery

/-- In every run whose markers are current and in which no synchronization is caught before a
marker: if a flush has completed and a crash between two operations leaves none or all of the
segments of the flush that runs, then the last version of an inode that has been synchronized
is recovered, if it has no blocks or replay does not come to it, and then no holes. -/
theorem initFs_synced (disableAggregation : Bool) (s : ProxyState)
    (hs : Reachable step recoverable (start disableAggregation) s) (hquiet : s.syncs = [])
    (hflushed : 0 < s.flushBase) (hcrash : NoneOrAllStored s) (entries : List JournalEntry)
    (hdurable : s.log.durable <+: entries) (hentries : entries <+: s.log.entries) (now : Int)
    (k : Nat) (v : InodeView) (hsynced : s.synced k = some v)
    (hrecoverable : Recoverable s entries k) : initFs s entries now k = some v := by
  have h := recoveryInv_reachable hs
  rcases h.synced.synced hsynced (by simp [ProxyState.locked, hquiet]) with
    ⟨id, item, hlast, hview⟩
  rcases List.any_eq_true.mp hlast.committed with ⟨e, he, hid⟩
  have hid : e.id = id := by simpa using hid
  have he := hdurable.subset he
  have hcond := hrecoverable e he item (hid ▸ hlast.found) (hid ▸ hlast.isInodeOf)
    (hid ▸ hlast.last)
  unfold initFs
  split_ifs at hcond with hstart
  · rcases settled_of_before h hentries hlast he hid hstart with ⟨hentry, hin⟩
    rcases checkpointLoad_listedIn h hflushed hcrash hentry hin with
      ⟨checkpoint, hload, hlisted, hstored⟩
    rcases inodeFetch_spec h.core hlast hlisted hstored h.flush.stored_lt hcond with
      ⟨r, hrun, hfetch⟩
    rw [hload]
    dsimp only
    rw [hrun, bind_some, replayedVersion_of_before h hdurable hentries hlast he hid hstart]
    dsimp only
    rw [hfetch, hview]
  · rcases checkpointLoad_loads h hflushed hcrash with ⟨checkpoint, r, hload, hrun⟩
    rw [hload]
    dsimp only
    rw [hrun, bind_some, replayedVersion_of_not_before h hdurable hentries hlast he hid hstart]
    dsimp only
    rw [hlast.found, bind_some]
    rcases hlast.fits with ⟨image, hpayload, -⟩
    simp only [itemView, replayView, hpayload, hcond, mapIdx_nil, if_true] at hview ⊢
    exact hview

/-- A file of three bytes. -/
def threeBytes : InodeImage :=
  { emptyDirectory with mode := 420, body := .regular 3 }

/-- Write the file and synchronize it. -/
def syncFile : List Event :=
  [.modify 2 threeBytes [.dirty [1, 2, 3]], .startSync 2, .logWrite, .logWrite, .logCommit,
    .finishSync 2]

/-- A flush of the file. -/
def flushFile : List Event :=
  [.getCommitPoint, .logWrite, .logCommit, .readSeqNum, .drain 2, .endDrain, .writeMap,
    .putComplete 0, .writeCommitPoint, .logWrite, .logCommit, .finishFlush]

/-- A file that has been flushed is read from the store. -/
theorem initFs_synced_file :
    ∃ s, Reachable step recoverable (start false) s ∧
      initFs s s.log.durable 0 2 =
        some { image := { threeBytes with changeCount := 2 }, contents := [[1, 2, 3]] } := by
  have hfacts : ∃ s ∈ runWhile step recoverable (start false) (syncFile ++ flushFile),
      s.syncs = [] ∧ 0 < s.flushBase ∧ (∀ n ∈ s.cloud.stored, n < s.flushBase) ∧
        s.synced 2 =
          some { image := { threeBytes with changeCount := 2 }, contents := [[1, 2, 3]] } ∧
        ∀ e ∈ s.log.durable, ∀ item ∈ s.items[e.id]?,
          if e.Before (replayStart s.items s.log s.log.durable) then none ∉ item.links
          else item.links = [] := by
    decide +kernel
  rcases hfacts with ⟨s, hrun, hquiet, hflushed, hstored, hsynced, hlinks⟩
  have hs := reachable_of_runWhile .start hrun
  have hrecoverable : Recoverable s s.log.durable 2 :=
    fun e he item hitem _ _ => hlinks e he item hitem
  exact ⟨s, hs, initFs_synced false s hs hquiet hflushed (Or.inl hstored) _ prefix_rfl
    (List.take_prefix _ _) 0 2 _ hsynced hrecoverable⟩

/-- Before the first flush the journal is not looked at: a file whose synchronization has
returned is gone after a crash. -/
theorem initFs_loses_synced :
    ∃ s v, Reachable step recoverable (start false) s ∧ s.syncs = [] ∧ s.synced 2 = some v ∧
      ∀ now, initFs s s.log.durable now 2 = none := by
  have hfacts : ∃ s ∈ runWhile step recoverable (start false) syncFile,
      s.syncs = [] ∧ checkpointLoad s.cloud = .fresh ∧ ∃ v ∈ s.synced 2, True := by
    decide +kernel
  rcases hfacts with ⟨s, hrun, hquiet, hfresh, v, hv, -⟩
  refine ⟨s, v, reachable_of_runWhile .start hrun, hquiet, hv, fun now => ?_⟩
  unfold initFs
  rw [hfresh]
  rfl

/-! ## Sequential runs -/

/-- No synchronization starts or runs while a flush does, and the flush waits until the log
thread has written the marker. -/
def sequential (s : ProxyState) : Event → Bool
  | .startSync _ => s.flushd = .idle
  | .getCommitPoint => s.syncs = []
  | .readSeqNum => s.log.queue = []
  | _ => true

/-- Where the marker of a flush is: at the end of the journal or of the queue, and in the
journal once the flush has waited for it. -/
def MarkerPlaced (s : ProxyState) : Flushd → Prop
  | .waiting marker => ∃ ids, s.log.order = ids ++ [marker] ∧ marker ∉ ids
  | .draining marker _ | .serializing marker _ | .uploading marker _ =>
    ∃ entry ∈ s.log.entries, entry.id = marker
  | _ => True

/-- What holds in sequential runs. -/
structure SequentialInv (s : ProxyState) : Prop where
  alone : s.flushd ≠ .idle → s.syncs = []
  placed : MarkerPlaced s s.flushd
  last : ∀ entry, s.log.entries.getLast? = some entry → entry.seq = s.log.seqNum

section Sequential

variable {s s' : ProxyState} {e : Event}

/-- Sequential steps meet the conditions of recovery. -/
theorem recoverable_of_sequential (h : SequentialInv s) (hok : sequential s e) :
    recoverable s e := by
  have hplaced := h.placed
  cases e with
  | readSeqNum =>
    refine ⟨?_, rfl⟩
    cases hflushd : s.flushd with
    | waiting marker =>
      rw [hflushd] at hplaced
      rcases hplaced with ⟨ids, horder, hnew⟩
      have hqueue : s.log.queue = [] := of_decide_eq_true hok
      -- the marker is the last record
      rw [JournalLog.order, hqueue, append_nil] at horder
      rcases map_eq_append_iff.mp horder with ⟨before, last, hentries, hids, hlast⟩
      rcases map_eq_singleton_iff.mp hlast with ⟨entry, rfl, hid⟩
      have hseq := h.last entry (by rw [hentries, getLast?_concat])
      simp only [markerCurrent, hflushd, hentries, all_append, all_cons, all_nil,
        Bool.and_true, Bool.and_eq_true, List.all_eq_true, decide_eq_true_eq]
      refine ⟨fun x hx => Or.inl fun hxid => ?_, Or.inr hseq⟩
      exact hnew (hids ▸ hxid ▸ List.mem_map_of_mem hx)
    | _ => simp only [markerCurrent, hflushd]
  | endDrain =>
    refine ⟨rfl, ?_⟩
    cases hflushd : s.flushd with
    | draining marker start =>
      have hquiet : s.syncs = [] := h.alone (by simp [hflushd])
      simp only [syncsBehindMarker, hflushd, hquiet, all_nil]
    | _ => simp only [syncsBehindMarker, hflushd]
  | writeCommitPoint =>
    refine ⟨?_, rfl⟩
    cases hflushd : s.flushd with
    | uploading marker start =>
      rw [hflushd] at hplaced
      rcases hplaced with ⟨entry, hentry, hid⟩
      simp only [markerCurrent, hflushd, decide_eq_true_eq]
      exact Or.inr (List.any_eq_true.mpr ⟨entry, hentry, decide_eq_true hid⟩)
    | _ => simp only [markerCurrent, hflushd]
  | _ => exact ⟨rfl, rfl⟩

/-- The last record stays in the open file. -/
theorem last_seq_step (h : SequentialInv s) (hstep : step s e = some s') :
    ∀ entry, s'.log.entries.getLast? = some entry → entry.seq = s'.log.seqNum := by
  rcases journal_step hstep with hsame | ⟨-, hwrite⟩ | hcommit
  · rw [hsame.entries, hsame.seqNum]
    exact h.last
  · rcases writeNext_cases hwrite with
      ⟨id, queue, size, seq, offset, committed, -, -, -, -, hentries, hseq, -⟩
    rw [hentries, hseq, getLast?_concat]
    rintro entry ⟨⟩
    rfl
  · rw [hcommit]
    exact h.last

/-- During a flush no synchronization runs. -/
theorem syncs_eq_nil_step (h : SequentialInv s) (hok : sequential s e)
    (hstep : step s e = some s') : s'.flushd ≠ .idle → s'.syncs = [] := by
  intro hbusy
  cases stepped hstep with
  | startSync => exact absurd (of_decide_eq_true hok) hbusy
  | finishSync => exact (congrArg (List.erase · _) (h.alone hbusy)).trans rfl
  | getCommitPoint => exact of_decide_eq_true hok
  | readSeqNum _ hflushd | endDrain _ _ hflushd | writeMap _ _ hflushd | keepMap _ _ hflushd
  | writeCommitPoint _ _ hflushd => exact h.alone (by simp [hflushd])
  | finishFlush => exact absurd rfl hbusy
  | _ => exact h.alone hbusy

/-- The log thread leaves the marker in its place. -/
theorem MarkerPlaced.logWrite {log : JournalLog} (h : MarkerPlaced s s.flushd)
    (hlog : s.log.writeNext s.items = some log) :
    MarkerPlaced { s with log := log } s.flushd := by
  rcases writeNext_cases hlog with ⟨_, _, _, _, _, _, -, -, -, -, hentries, -⟩
  have hkept : ∀ {marker}, (∃ entry ∈ s.log.entries, entry.id = marker) →
      ∃ entry ∈ log.entries, entry.id = marker := by
    rintro marker ⟨entry, hentry, hid⟩
    exact ⟨entry, hentries ▸ mem_append_left _ hentry, hid⟩
  cases hflushd : s.flushd with
  | waiting marker =>
    rw [hflushd] at h
    rcases h with ⟨ids, horder, hnew⟩
    exact ⟨ids, (order_writeNext hlog).trans horder, hnew⟩
  | draining marker | serializing marker | uploading marker =>
    rw [hflushd] at h
    exact hkept h
  | _ => exact trivial

/-- A sequential step keeps the marker in its place. -/
theorem markerPlaced_step (h : SequentialInv s) (hcore : CoreInv s) (hok : sequential s e)
    (hstep : step s e = some s') : MarkerPlaced s' s'.flushd := by
  have hplaced := h.placed
  cases stepped hstep with
  | startSync =>
    have hidle : s.flushd = .idle := of_decide_eq_true hok
    simp only [hidle, MarkerPlaced]
  | logWrite log hlog => exact hplaced.logWrite hlog
  | getCommitPoint =>
    refine ⟨s.log.order, order_submit _ _, fun hmem => ?_⟩
    exact Nat.lt_irrefl _ (hcore.order_lt hmem)
  | readSeqNum marker hflushd =>
    rw [hflushd] at hplaced
    rcases hplaced with ⟨ids, horder, -⟩
    have hqueue : s.log.queue = [] := of_decide_eq_true hok
    rw [JournalLog.order, hqueue, append_nil] at horder
    have hmem : marker ∈ s.log.entries.map JournalEntry.id := by
      rw [horder]
      exact mem_append_right _ mem_cons_self
    exact List.mem_map.mp hmem
  | endDrain _ _ hflushd | writeMap _ _ hflushd | keepMap _ _ hflushd =>
    rw [hflushd] at hplaced
    exact hplaced
  | writeCommitPoint | finishFlush => exact trivial
  | _ => exact hplaced

/-- The runs in which flushes and synchronizations do not overlap, and in which a flush waits
for its marker, are among those whose synchronized versions are recovered. -/
theorem reachable_recoverable_of_sequential {disableAggregation : Bool}
    (hs : Reachable step (fun s e => sequential s e) (start disableAggregation) s) :
    Reachable step recoverable (start disableAggregation) s := by
  have hstart : SequentialInv (start disableAggregation) :=
    ⟨fun hbusy => absurd rfl hbusy, trivial, nofun⟩
  refine And.right (hs.invariant (I := fun s =>
    SequentialInv s ∧ Reachable step recoverable (start disableAggregation) s)
    ⟨hstart, .start⟩ ?_)
  intro s e s' h hok hstep
  have hcore := (recoveryInv_reachable h.2).core
  exact ⟨⟨syncs_eq_nil_step h.1 hok hstep, markerPlaced_step h.1 hcore hok hstep,
      last_seq_step h.1 hstep⟩,
    h.2.next e (recoverable_of_sequential h.1 hok) hstep⟩

end Sequential

end BlueSky
