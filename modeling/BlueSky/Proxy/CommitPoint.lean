import BlueSky.Proxy.Listing
import BlueSky.Proxy.Watermark

/-!
# The soundness of commit points

A commit point in the journal says that replay need not look before the marker.  That is
right if every version before the marker is superseded or reachable from the latest
checkpoint in the cloud.  A synchronization can have its version in the journal and not
yet its inode on the dirty list; if none does so before the marker when the loop over the
dirty list ends, then every commit point is right.

Main results:

- Structure {lit}`CommitInv`: what holds of the versions before a marker.
- Theorem {lit}`commitPoint_sound`: the commit points on disk are right.
-/

namespace BlueSky

open List PrecedenceLib ProxyState TableLib TransitionLib

/-- When the loop over the dirty list ends, no synchronization that runs has a version
before the marker. -/
def syncsBehindMarker (s : ProxyState) : Event → Bool
  | .endDrain =>
    match s.flushd with
    | .draining marker _ => s.syncs.all fun t => ¬ Precedes s.log.order t.item marker
    | _ => true
  | _ => true

/-! ## The invariant -/

/-- The checkpoint of the last flush that has completed gives the version of the inode. -/
def InBase (s : ProxyState) (k id : Nat) : Prop :=
  ∃ checkpoint, lastCheckpoint (s.cloud.segments.take s.flushBase).flatten = some checkpoint ∧
    ListedIn s.cloud checkpoint k id

/-- A later version of the inode is on disk, or will be when the given item is. -/
def SupersededBy (s : ProxyState) (commit k id : Nat) : Prop :=
  ∃ x, IsInodeOf s.items k x ∧ Precedes s.log.order id x ∧
    (Precedes s.log.order x commit ∨ s.log.isCommitted x)

/-- The version need not be replayed. -/
def Settled (s : ProxyState) (commit k id : Nat) : Prop :=
  SupersededBy s commit k id ∨ (MapEntry s.cloud.inodeMap k id ∧ InBase s k id)

/-- What a flush that runs knows of the versions before its marker. -/
def MarkerPhase (s : ProxyState) : Flushd → Prop
  | .idle | .committing _ _ => True
  | .waiting marker | .draining marker _ => marker ∈ s.log.order
  | .serializing marker _ | .uploading marker _ =>
    marker ∈ s.log.order ∧ ∀ k id, IsInodeOf s.items k id → Precedes s.log.order id marker →
      Superseded s k id ∨ MapEntry s.cloud.inodeMap k id

/-- What holds of the versions before a marker. -/
structure CommitInv (s : ProxyState) : Prop where
  synced : ∀ {k x : Nat} {inode : MemInode}, s.inodes k = some inode →
    inode.committedItem = some x → s.locked k = false → s.log.isCommitted x
  points : ∀ commit seq offset, IsCommitPoint s.items commit seq offset →
    (seq = 0 ∧ offset = 0) ∨ ∃ marker ∈ s.log.entries, marker.seq = seq ∧
      marker.offset = offset ∧ ∀ k id, IsInodeOf s.items k id →
        Precedes s.log.order id marker.id → Settled s commit k id
  phase : MarkerPhase s s.flushd

variable {s : ProxyState}

theorem CommitInv.phase_of (h : CommitInv s) {flushd : Flushd} (hflushd : s.flushd = flushd) :
    MarkerPhase s flushd :=
  hflushd ▸ h.phase

theorem commitInv_start (disableAggregation : Bool) : CommitInv (start disableAggregation) where
  synced := by simp [start]
  points := by simp [start, IsCommitPoint, commitPosition]
  phase := trivial

/-! ## Steps -/

section Steps

variable {s s' : ProxyState}

theorem Advances.precedes (hadv : Advances s s') {a b : Nat} (h : Precedes s.log.order a b) :
    Precedes s'.log.order a b := by
  rcases hadv.order with ⟨ids, horder, -⟩
  rw [horder]
  exact h.append_right ids

theorem Advances.mem_order (hadv : Advances s s') {a : Nat} (h : a ∈ s.log.order) :
    a ∈ s'.log.order := by
  rcases hadv.order with ⟨ids, horder, -⟩
  rw [horder]
  exact mem_append_left _ h

/-- A version before an item that was there is an old version. -/
theorem isInodeOf_of_precedes (hcore : CoreInv s) (hadv : Advances s s') {k id marker : Nat}
    (hmarker : marker ∈ s.log.order) (hid : IsInodeOf s'.items k id)
    (hprec : Precedes s'.log.order id marker) :
    IsInodeOf s.items k id ∧ Precedes s.log.order id marker := by
  have hprec := precedes_of_step hadv (hcore.order_lt hmarker) hprec
  rcases hid with ⟨item, hitem, hinode⟩
  refine ⟨⟨item, ?_, hinode⟩, hprec⟩
  rw [← getElem?_of_prefix_of_lt hadv.items (hcore.order_lt hprec.left_mem), hitem]

theorem SupersededBy.advance (hadv : Advances s s') {commit k id : Nat}
    (h : SupersededBy s commit k id) : SupersededBy s' commit k id := by
  rcases h with ⟨x, hx, hprec, hbefore⟩
  exact ⟨x, hx.mono hadv.items, hadv.precedes hprec,
    hbefore.imp hadv.precedes (isCommitted_mono hadv)⟩

theorem Superseded.advance (hadv : Advances s s') {k id : Nat} (h : Superseded s k id) :
    Superseded s' k id := by
  rcases h with ⟨x, hx, hprec⟩
  exact ⟨x, hx.mono hadv.items, hadv.precedes hprec⟩

theorem InBase.advance (hcloud : CloudAdvances s.cloud s'.cloud)
    (hle : s.flushBase ≤ s.cloud.segments.length) (hbase : s'.flushBase = s.flushBase)
    {k id : Nat} (h : InBase s k id) : InBase s' k id := by
  rcases h with ⟨checkpoint, hlast, hlisted⟩
  refine ⟨checkpoint, ?_, hlisted.advance hcloud⟩
  rw [hbase, take_of_prefix hcloud.segments hle, hlast]

theorem MarkerPhase.advance (hcore : CoreInv s) (hadv : Advances s s')
    (hmap : ∀ {k id}, MapEntry s.cloud.inodeMap k id → MapEntry s'.cloud.inodeMap k id)
    {flushd : Flushd} (h : MarkerPhase s flushd) : MarkerPhase s' flushd := by
  cases flushd with
  | idle | committing => trivial
  | waiting marker | draining marker start => exact hadv.mem_order h
  | serializing marker start | uploading marker start =>
    refine ⟨hadv.mem_order h.1, fun k id hid hprec => ?_⟩
    rcases isInodeOf_of_precedes hcore hadv h.1 hid hprec with ⟨hid, hprec⟩
    exact (h.2 k id hid hprec).imp (Superseded.advance hadv) hmap

/-- The commit points after a step that creates none. -/
theorem CommitInv.points_advance (h : CommitInv s) (hcore : CoreInv s) (hadv : Advances s s')
    {e : Event} (hstep : step s e = some s') (he : e ≠ .writeCommitPoint)
    (hkept : ∀ {k id : Nat}, MapEntry s.cloud.inodeMap k id → InBase s k id →
      (MapEntry s'.cloud.inodeMap k id ∧ InBase s' k id) ∨ ∀ commit, SupersededBy s' commit k id) :
    ∀ commit seq offset, IsCommitPoint s'.items commit seq offset →
      (seq = 0 ∧ offset = 0) ∨ ∃ marker ∈ s'.log.entries, marker.seq = seq ∧
        marker.offset = offset ∧ ∀ k id, IsInodeOf s'.items k id →
          Precedes s'.log.order id marker.id → Settled s' commit k id := by
  intro commit seq offset hcommit
  refine (h.points commit seq offset ((isCommitPoint_step hstep he).mp hcommit)).imp_right ?_
  rintro ⟨marker, hmarker, hseq, hoffset, hsettled⟩
  refine ⟨marker, hadv.entries.subset hmarker, hseq, hoffset, fun k id hid hprec => ?_⟩
  have hmem : marker.id ∈ s.log.order :=
    mem_append_left _ (mem_map.mpr ⟨marker, hmarker, rfl⟩)
  rcases isInodeOf_of_precedes hcore hadv hmem hid hprec with ⟨hid, hprec⟩
  rcases hsettled k id hid hprec with hsup | ⟨hmap, hin⟩
  · exact Or.inl (hsup.advance hadv)
  · rcases hkept hmap hin with hin | hsup
    · exact Or.inr hin
    · exact Or.inl (hsup commit)

theorem locked_eq_false_iff {inum : Nat} :
    s.locked inum = false ↔ ∀ t ∈ s.syncs, t.inum ≠ inum := by
  simp [ProxyState.locked]

/-- The inode of a thread that ends is the only one that is unlocked. -/
theorem locked_of_erase {t : SyncThread} {k : Nat} (hk : k ≠ t.inum)
    (h : ∀ t' ∈ s.syncs.erase t, t'.inum ≠ k) : s.locked k = false := by
  refine locked_eq_false_iff.mpr fun t' ht' => ?_
  by_cases htt : t' = t
  · rw [htt]
    exact Ne.symm hk
  · exact h t' ((mem_erase_of_ne htt).mpr ht')

/-- An inode that no thread synchronizes has been committed. -/
theorem CommitInv.synced_step (h : CommitInv s) (hcore : CoreInv s) {e : Event}
    (hstep : step s e = some s') {k x : Nat} {inode : MemInode}
    (hinode : s'.inodes k = some inode) (hx : inode.committedItem = some x)
    (hlocked : s'.locked k = false) : s.log.isCommitted x := by
  cases stepped hstep with
  | modify _ _ _ _ new _ _ hcommitted =>
    rcases update_eq_some_iff.mp hinode with ⟨rfl, rfl⟩ | ⟨-, hinode⟩
    · rw [hcommitted] at hx
      rcases Option.bind_eq_some_iff.mp hx with ⟨old, hold, hx⟩
      exact h.synced hold hx hlocked
    · exact h.synced hinode hx hlocked
  | startSync old r =>
    rcases forall_mem_cons.mp (locked_eq_false_iff.mp hlocked) with ⟨hne, hlocked⟩
    rcases update_eq_some_iff.mp hinode with ⟨rfl, -⟩ | ⟨-, hinode⟩
    · exact absurd rfl hne
    · exact h.synced hinode hx (locked_eq_false_iff.mpr hlocked)
  | finishSync t old ht hinum hold hcommitted =>
    subst hinum
    rcases update_eq_some_iff.mp hinode with ⟨rfl, rfl⟩ | ⟨hk, hinode⟩
    · rcases hcore.sync_item ht with ⟨old', hold', hitem⟩
      rw [hold] at hold'
      rw [← Option.some.inj hold', show old.committedItem = some x from hx] at hitem
      rw [Option.some.inj hitem]
      exact hcommitted t.item (by simp)
    · exact h.synced hinode hx (locked_of_erase hk (locked_eq_false_iff.mp hlocked))
  | drain marker start old =>
    rcases update_eq_some_iff.mp hinode with ⟨-, rfl⟩ | ⟨-, hinode⟩
    · cases hx
    · exact h.synced hinode hx hlocked
  | _ => exact h.synced hinode hx hlocked

/-- A step that keeps the entries of the map and the checkpoint, and creates no commit
point. -/
theorem CommitInv.advance (h : CommitInv s) (hcore : CoreInv s) (hflush : FlushInv s)
    (hadv : Advances s s') {e : Event} (hstep : step s e = some s') (he : e ≠ .writeCommitPoint)
    (hmap : ∀ {k id}, MapEntry s.cloud.inodeMap k id → MapEntry s'.cloud.inodeMap k id)
    (hbase : s'.flushBase = s.flushBase) (hphase : MarkerPhase s s'.flushd) : CommitInv s' where
  synced := fun hinode hx hlocked =>
    isCommitted_mono hadv (h.synced_step hcore hstep hinode hx hlocked)
  points := h.points_advance hcore hadv hstep he fun hentry hin =>
    Or.inl ⟨hmap hentry, hin.advance (cloud_step hcore hstep) hflush.base_le hbase⟩
  phase := hphase.advance hcore hadv hmap

/-- The loop over the dirty list replaces an entry by a version that is on disk. -/
theorem commitInv_drain {inum : Nat} (h : CommitInv s) (hcore : CoreInv s)
    (hflush : FlushInv s) (hadv : Advances s s') (hstep : step s (.drain inum) = some s') :
    CommitInv s' := by
  have hsynced := @CommitInv.synced_step s s' h hcore _ hstep
  have hpoints := @CommitInv.points_advance s s' h hcore hadv _ hstep (by simp)
  have hcloud := cloud_step hcore hstep
  cases stepped hstep with | drain marker start old hflushd hold _ hlocked => ?_
  refine ⟨fun hinode hx hlocked => isCommitted_mono hadv (hsynced hinode hx hlocked),
    hpoints ?_, ?_⟩
  · intro k id hentry hin
    have hin := hin.advance hcloud hflush.base_le rfl
    cases hx : old.committedItem with
    | none => exact Or.inl ⟨hentry, by rwa [hx] at hin⟩
    | some x =>
      by_cases hk : k = inum
      · subst hk
        exact Or.inr fun commit => ⟨x, (hcore.committed hold hx).1,
          hcore.precedes_of_mapEntry hold hx hentry, Or.inr (h.synced hold hx hlocked)⟩
      · refine Or.inl ⟨?_, by rwa [hx] at hin⟩
        dsimp only [Option.elim]
        rw [(hcore.drained hold hx).2]
        exact (mapEntry_inodeMapInsert hcore.cloud.mapOk (hcore.blocks hold).1 x).mpr
          (Or.inr ⟨hk, hentry⟩)
  · dsimp only
    rw [hflushd]
    exact (h.phase_of hflushd :)

/-- When the loop over the dirty list ends, every version before the marker is superseded or
in the map. -/
theorem markerPhase_endDrain (h : CommitInv s) (hcore : CoreInv s)
    (hok : syncsBehindMarker s .endDrain) {marker start : Nat}
    (hflushd : s.flushd = .draining marker start) (hdirty : s.dirtyList = []) :
    MarkerPhase s (.serializing marker start) := by
  refine ⟨h.phase_of hflushd, fun k id hid hprec => ?_⟩
  rcases hcore.tracked hid with hsup | ⟨t, ht, -, rfl⟩ | ⟨hmem, -⟩ | hentry
  · exact Or.inl hsup
  · unfold syncsBehindMarker at hok
    rw [hflushd] at hok
    have hbehind := all_eq_true.mp hok t ht
    simp only [decide_eq_true_eq] at hbehind
    exact absurd hprec hbehind
  · rw [hdirty] at hmem
    cases hmem
  · exact Or.inr hentry

/-- The versions before the marker are settled by the new commit point. -/
theorem commitInv_writeCommitPoint (h : CommitInv s) (hcore : CoreInv s) (hflush : FlushInv s)
    (hreload : ReloadInv s) (hadv : Advances s s') (hstep : Stepped s .writeCommitPoint s') :
    CommitInv s' := by
  cases hstep with | writeCommitPoint marker start hflushd hstored => ?_
  rcases h.phase_of hflushd with ⟨hmarkerMem, hbefore⟩
  rcases hflush.phase_of hflushd with ⟨hdata, hcurrent, -⟩
  have hin : ∀ {k id : Nat}, MapEntry s.cloud.inodeMap k id → InBase { s with
      items := s.items ++
        [{ payload := .journalCheckpoint (s.log.position marker).1 (s.log.position marker).2
           inum := 0, links := [] }]
      log := s.log.submit [s.items.length]
      flushd := .committing start s.items.length
      flushBase := s.cloud.segments.length } k id := by
    intro k id hentry
    rcases listedIn_of_mapEntry hcore hflush hreload hdata hcurrent hstored hentry with
      ⟨checkpoint, hlast, hlisted⟩
    refine ⟨checkpoint, ?_, hlisted⟩
    dsimp only
    rw [take_length, hlast]
  refine ⟨fun hinode hx hlocked => isCommitted_mono hadv (h.synced hinode hx hlocked), ?_, trivial⟩
  intro commit seq offset hcommit
  rcases isCommitPoint_snoc.mp hcommit with hold | ⟨rfl, hseq, hoffset⟩
  · refine (h.points commit seq offset hold).imp_right ?_
    rintro ⟨m, hm, hmseq, hmoffset, hsettled⟩
    refine ⟨m, hm, hmseq, hmoffset, fun k id hid hprec => ?_⟩
    have hmem : m.id ∈ s.log.order :=
      mem_append_left _ (mem_map.mpr ⟨m, hm, rfl⟩)
    rcases isInodeOf_of_precedes hcore hadv hmem hid hprec with ⟨hid, hprec⟩
    exact (hsettled k id hid hprec).imp (SupersededBy.advance hadv)
      fun hentry => ⟨hentry.1, hin hentry.1⟩
  · unfold JournalLog.position JournalLog.entryOf at hseq hoffset
    cases hfind : s.log.entries.find? fun entry => entry.id = marker with
    | none =>
      rw [hfind] at hseq hoffset
      exact Or.inl ⟨hseq, hoffset⟩
    | some m =>
      rw [hfind] at hseq hoffset
      have hid : m.id = marker := by simpa using find?_some hfind
      refine Or.inr ⟨m, mem_of_find?_eq_some hfind, hseq.symm, hoffset.symm,
        fun k id hidk hprec => ?_⟩
      rw [hid] at hprec
      rcases isInodeOf_of_precedes hcore hadv hmarkerMem hidk hprec with ⟨hidk, hprec⟩
      rcases hbefore k id hidk hprec with ⟨x, hx, hxprec⟩ | hentry
      · refine Or.inl ⟨x, hx.mono hadv.items, hadv.precedes hxprec, Or.inl ?_⟩
        dsimp only
        rw [order_submit]
        exact precedes_of_mem hxprec.right_mem (by simp)
      · exact Or.inr ⟨hentry, hin hentry⟩

/-- Every step keeps the invariant. -/
theorem commitInv_step {e : Event} (hcore : CoreInv s) (hflush : FlushInv s)
    (hreload : ReloadInv s) (hpositions : PositionsOk s.items s.log) (h : CommitInv s)
    (hok : syncsBehindMarker s e)
    (hstep : step s e = some s') : CommitInv s' := by
  have hadv := advances_step hpositions.committed hstep
  have hplain := fun he => h.advance (e := e) hcore hflush hadv hstep he
  have hstepped := stepped hstep
  cases e with
  | drain inum => exact commitInv_drain h hcore hflush hadv hstep
  | writeCommitPoint => exact commitInv_writeCommitPoint h hcore hflush hreload hadv hstepped
  | getCommitPoint =>
    cases hstepped
    refine ⟨h.synced, h.points_advance hcore hadv hstep (by simp) fun hentry hin =>
      Or.inl ⟨hentry, hin⟩, ?_⟩
    show s.items.length ∈ (s.log.submit [s.items.length]).order
    rw [order_submit]
    simp
  | readSeqNum =>
    cases hstepped with | readSeqNum marker hflushd => ?_
    exact hplain (by simp) id rfl (h.phase_of hflushd :)
  | endDrain =>
    cases hstepped with | endDrain marker start hflushd hdirty => ?_
    exact hplain (by simp) id rfl (markerPhase_endDrain h hcore hok hflushd hdirty)
  | writeMap =>
    have hmap := fun {k id} => (@mapEntry_writeMap _ _ hcore hstepped k id).mpr
    cases hstepped with
    | writeMap marker start hflushd | keepMap marker start hflushd =>
      exact hplain (by simp) hmap rfl (h.phase_of hflushd :)
  | finishFlush =>
    cases hstepped
    exact hplain (by simp) id rfl trivial
  | _ =>
    cases hstepped
    exact hplain (by simp) id rfl h.phase

end Steps

/-! ## Runs -/

/-- The invariants that commit points rest on. -/
structure ProxyInv (s : ProxyState) : Prop where
  core : CoreInv s
  flush : FlushInv s
  reload : ReloadInv s
  positions : PositionsOk s.items s.log
  commit : CommitInv s

theorem proxyInv_start (disableAggregation : Bool) : ProxyInv (start disableAggregation) :=
  ⟨coreInv_start _, flushInv_start _, reloadInv_start _, positionsOk_start _, commitInv_start _⟩

theorem proxyInv_step {s' : ProxyState} {e : Event} (h : ProxyInv s) (hok : syncsBehindMarker s e)
    (hstep : step s e = some s') : ProxyInv s' :=
  ⟨coreInv_step h.core hstep, flushInv_step h.core h.flush hstep,
    reloadInv_step h.core h.flush h.reload hstep,
    positionsOk_step (coreInv_step h.core hstep) h.positions hstep,
    commitInv_step h.core h.flush h.reload h.positions h.commit hok hstep⟩

theorem proxyInv_reachable {disableAggregation : Bool}
    (hs : Reachable step (fun s e => syncsBehindMarker s e) (start disableAggregation) s) :
    ProxyInv s :=
  hs.invariant (proxyInv_start disableAggregation) fun _ _ _ h hok hstep =>
    proxyInv_step h hok hstep

/-- The latest checkpoint is the one of the last flush that has completed, as long as the
segment with that of the flush that runs is missing. -/
theorem latestCheckpoint_eq_base (hcore : CoreInv s) (hflush : FlushInv s)
    (hmissing : (∃ marker start, s.flushd = .uploading marker start) →
      s.cloud.storedPrefix < s.cloud.segments.length) :
    s.cloud.latestCheckpoint = lastCheckpoint (s.cloud.segments.take s.flushBase).flatten := by
  have hle : s.flushBase ≤ s.cloud.storedPrefix :=
    le_storedPrefix hflush.base_le hflush.base_stored
  have hsplit : s.cloud.segments.take s.cloud.storedPrefix =
      s.cloud.segments.take s.flushBase ++
        (s.cloud.segments.take s.cloud.storedPrefix).drop s.flushBase := by
    rw [← take_append_drop s.flushBase (s.cloud.segments.take s.cloud.storedPrefix),
      take_take, Nat.min_eq_left hle, drop_append]
    simp [length_take, Nat.min_eq_left hflush.base_le]
  unfold CloudLogState.latestCheckpoint
  rw [hsplit, flatten_append, lastCheckpoint_append_plain]
  intro object hobject
  rcases mem_flatten.mp hobject with ⟨segment, hsegment, hobject⟩
  rcases getElem?_of_mem hsegment with ⟨i, hi⟩
  rw [getElem?_drop, getElem?_take] at hi
  split_ifs at hi with hlt
  exact plain_of_segment hcore hflush hi (Nat.le_add_right _ _)
    (fun hup => by
      have := hmissing hup
      omega) object hobject

/-- A settled version is given by the latest checkpoint, if it is not superseded. -/
theorem listedIn_latestCheckpoint (h : ProxyInv s) {k id : Nat}
    (hentry : MapEntry s.cloud.inodeMap k id) (hin : InBase s k id) :
    ∃ checkpoint, s.cloud.latestCheckpoint = some checkpoint ∧
      ListedIn s.cloud checkpoint k id := by
  by_cases hall : (∃ marker start, s.flushd = .uploading marker start) ∧
      s.cloud.storedPrefix = s.cloud.segments.length
  · rcases hall with ⟨⟨marker, start, hflushd⟩, hpre⟩
    have hphase := h.flush.phase_of hflushd
    rcases listedIn_of_mapEntry h.core h.flush h.reload hphase.1 hphase.2.1
      (fun n hn => mem_stored_of_lt (hpre ▸ hn)) hentry with ⟨checkpoint, hlast, hlisted⟩
    refine ⟨checkpoint, ?_, hlisted⟩
    unfold CloudLogState.latestCheckpoint
    rw [hpre, take_length, hlast]
  · rcases hin with ⟨checkpoint, hlast, hlisted⟩
    refine ⟨checkpoint, ?_, hlisted⟩
    rw [latestCheckpoint_eq_base h.core h.flush, hlast]
    intro hup
    exact Nat.lt_of_le_of_ne (storedPrefix_le _) fun heq => hall ⟨hup, heq⟩

/-- Records in the order of their items. -/
theorem before_of_precedes (hcore : CoreInv s) (hpositions : PositionsOk s.items s.log)
    {a b : JournalEntry} (ha : a ∈ s.log.entries) (hb : b ∈ s.log.entries)
    (h : Precedes s.log.order a.id b.id) :
    a.Before (b.seq, b.offset) := by
  have hne : a ≠ b := by
    rintro rfl
    exact h.ne hcore.order_nodup rfl
  rcases precedes_total ha hb hne with hprec | hprec
  · exact hpositions.before_of hprec
  · exact absurd (precedes_order_of_entries prefix_rfl hprec) (h.asymm hcore.order_nodup)

theorem precedes_of_before (hpositions : PositionsOk s.items s.log) {a b : JournalEntry}
    (ha : a ∈ s.log.entries) (hb : b ∈ s.log.entries) (h : a.Before (b.seq, b.offset)) :
    Precedes s.log.order a.id b.id := by
  have hne : a ≠ b := by
    rintro rfl
    unfold JournalEntry.Before at h
    omega
  rcases precedes_total ha hb hne with hprec | hprec
  · exact precedes_order_of_entries prefix_rfl hprec
  · have haa := h.trans (hpositions.before_of hprec)
    unfold JournalEntry.Before at haa
    omega

/-- An item before one that is on disk is on disk. -/
theorem exists_durable_of_precedes (hcore : CoreInv s) {c : JournalEntry} (hc : c ∈ s.log.durable)
    {x : Nat} (hx : Precedes s.log.order x c.id ∨ s.log.isCommitted x) :
    ∃ entry ∈ s.log.durable, entry.id = x := by
  rcases hx with hprec | hcommitted
  · have hsplit : s.log.order = s.log.durable.map JournalEntry.id ++
        ((s.log.entries.drop s.log.committed).map JournalEntry.id ++ s.log.queue) := by
      unfold JournalLog.order JournalLog.durable
      rw [← append_assoc, ← map_append, take_append_drop]
    have hnodup := hcore.order_nodup
    rw [hsplit] at hprec hnodup
    have hfront := hprec.of_append hnodup (mem_map.mpr ⟨c, hc, rfl⟩)
    rcases mem_map.mp hfront.left_mem with ⟨entry, hentry, hid⟩
    exact ⟨entry, hentry, hid⟩
  · rcases any_eq_true.mp hcommitted with ⟨entry, hentry, hid⟩
    exact ⟨entry, hentry, by simpa using hid⟩

/-- In every run in which no synchronization is caught between the journal and the dirty
list, each inode record before the position that a commit point on disk names is followed
by a later record of the inode on disk, or is in the cloud and reachable from the latest
checkpoint. -/
theorem commitPoint_sound (disableAggregation : Bool) (s : ProxyState)
    (hs : Reachable step (fun s e => syncsBehindMarker s e) (start disableAggregation) s)
    (c : JournalEntry) (hc : c ∈ s.log.durable) (seq offset : Nat)
    (hcommit : IsCommitPoint s.items c.id seq offset) (e : JournalEntry)
    (he : e ∈ s.log.entries) (k : Nat) (hinode : IsInodeOf s.items k e.id)
    (hbefore : e.Before (seq, offset)) :
    (∃ e' ∈ s.log.durable, IsInodeOf s.items k e'.id ∧ e.Before (e'.seq, e'.offset)) ∨
      ∃ checkpoint, s.cloud.latestCheckpoint = some checkpoint ∧
        Reaches s.cloud.storeGet checkpoint e.id := by
  have hinv := proxyInv_reachable hs
  have hcore := hinv.core
  have hpositions := hinv.positions
  rcases hinv.commit.points c.id seq offset hcommit with
    ⟨rfl, rfl⟩ | ⟨marker, hmarker, rfl, rfl, hsettled⟩
  · unfold JournalEntry.Before at hbefore
    omega
  · have hprec := precedes_of_before hpositions he hmarker hbefore
    rcases hsettled k e.id hinode hprec with ⟨x, hx, hxprec, hdurable⟩ | ⟨hentry, hin⟩
    · rcases exists_durable_of_precedes hcore hc hdurable with ⟨e', he', rfl⟩
      exact Or.inl ⟨e', he', hx,
        before_of_precedes hcore hpositions he (mem_of_mem_take he') hxprec⟩
    · rcases listedIn_latestCheckpoint hinv hentry hin with ⟨checkpoint, hlatest, hlisted⟩
      exact Or.inr ⟨checkpoint, hlatest, hlisted.1⟩

/-- A synchronization and a flush, one after the other. -/
theorem commitPoint_sound_flush :
    ∃ s, Reachable step (fun s e => syncsBehindMarker s e) (start false) s ∧
      ⟨0, 186, 4⟩ ∈ s.log.durable ∧ IsCommitPoint s.items 4 0 133 ∧
      ((∃ e' ∈ s.log.durable, IsInodeOf s.items 1 e'.id ∧
          JournalEntry.Before ⟨0, 0, 0⟩ (e'.seq, e'.offset)) ∨
        ∃ checkpoint, s.cloud.latestCheckpoint = some checkpoint ∧
          Reaches s.cloud.storeGet checkpoint 0) := by
  have hfacts : ∃ s ∈ runWhile step (fun s e => syncsBehindMarker s e) (start false)
      (syncRoot ++ flushRoot ++ [.putComplete 0] ++ endFlush),
      ⟨0, 186, 4⟩ ∈ s.log.durable ∧ ⟨0, 0, 0⟩ ∈ s.log.entries ∧
        commitPosition s.items 4 = some (0, 133) ∧
        ∃ item ∈ s.items[0]?, item.payload.isInode = true ∧ item.inum = 1 := by
    decide +kernel
  rcases hfacts with ⟨s, hrun, hc, he, hcommit, hroot⟩
  have hs := reachable_of_runWhile .start hrun
  exact ⟨s, hs, hc, hcommit, commitPoint_sound false s hs ⟨0, 186, 4⟩ hc 0 133 hcommit
    ⟨0, 0, 0⟩ he 1 hroot (by decide)⟩

/-! ## A synchronization between the journal and the dirty list -/

/-- The version is in the journal before the marker, and its inode gets on the dirty list
when the loop over it has ended; the commit point that follows gives the version up. -/
theorem commitPoint_loses_version :
    ∃ s, Reachable step anyStep (start false) s ∧
      ⟨0, 186, 2⟩ ∈ s.log.durable ∧ IsCommitPoint s.items 2 0 133 ∧
      ⟨0, 0, 0⟩ ∈ s.log.durable ∧ IsInodeOf s.items 1 0 ∧
      ¬ ((∃ e' ∈ s.log.durable, IsInodeOf s.items 1 e'.id ∧
          JournalEntry.Before ⟨0, 0, 0⟩ (e'.seq, e'.offset)) ∨
        ∃ checkpoint, s.cloud.latestCheckpoint = some checkpoint ∧
          Reaches s.cloud.storeGet checkpoint 0) := by
  have hfacts : ∃ s ∈ runWhile step anyStep (start false)
      [.modify 1 emptyDirectory [], .startSync 1, .logWrite, .logCommit, .getCommitPoint,
        .logWrite, .logCommit, .readSeqNum, .endDrain, .finishSync 1, .writeMap,
        .writeCommitPoint, .logWrite, .logCommit],
      ⟨0, 186, 2⟩ ∈ s.log.durable ∧ ⟨0, 0, 0⟩ ∈ s.log.durable ∧
        commitPosition s.items 2 = some (0, 133) ∧
        (∃ item ∈ s.items[0]?, item.payload.isInode = true ∧ item.inum = 1) ∧
        (∀ e ∈ s.log.durable, e = ⟨0, 0, 0⟩ ∨
          ∀ item ∈ s.items[e.id]?, item.payload.isInode = false) ∧
        s.cloud.latestCheckpoint = none := by
    decide +kernel
  rcases hfacts with ⟨s, hrun, hc, he, hcommit, hroot, honly, hnone⟩
  refine ⟨s, reachable_of_runWhile .start hrun, hc, hcommit, he, hroot, ?_⟩
  rintro (⟨e', he', ⟨item', hitem', hisInode', -⟩, hbefore⟩ | ⟨checkpoint, hlatest, -⟩)
  · rcases honly e' he' with rfl | hplain
    · exact absurd hbefore (by decide)
    · rw [hplain item' hitem'] at hisInode'
      cases hisInode'
  · rw [hnone] at hlatest
    cases hlatest

end BlueSky
