import BlueSky.Proxy.Checkpoint

/-!
# Where the versions of an inode are

Every version of an inode that was given to the log thread is superseded by a later one,
or its synchronization still runs, or its inode is on the dirty list, or it is in the
inode map.  This holds in every state of the proxy, whatever the order of the steps.

Main results:

- Structure {lit}`CoreInv`: the invariant of the items, the journal order, the inodes and
  the cloud log.
- Theorem {lit}`coreInv_step`: every step keeps it.
-/

namespace BlueSky

open Function List Option PrecedenceLib ProxyState TableLib

/-! ## The invariant -/

/-- A later version of the inode has been given to the log thread. -/
def Superseded (s : ProxyState) (inum id : Nat) : Prop :=
  ∃ id', IsInodeOf s.items inum id' ∧ Precedes s.log.order id id'

/-- The inode is on the dirty list with this version. -/
def OnDirtyList (s : ProxyState) (inum id : Nat) : Prop :=
  inum ∈ s.dirtyList ∧ ∃ inode, s.inodes inum = some inode ∧ inode.committedItem = some id

/-- The invariant of the items, the journal order, the inodes and the cloud log. -/
structure CoreInv (s : ProxyState) : Prop where
  heap : HeapOk s.items
  cloud : CloudOk s.items s.cloud
  sections : SectionsOk s.items s.cloud.inodeMap
  order_lt : ∀ {id : Nat}, id ∈ s.log.order → id < s.items.length
  order_nodup : s.log.order.Nodup
  inode_mem : ∀ {k id : Nat}, IsInodeOf s.items k id → id ∈ s.log.order
  blocks : ∀ {k : Nat} {inode : MemInode}, s.inodes k = some inode →
    k < 2 ^ 64 ∧ inode.image.fits inode.blocks ∧
      ∀ {id : Nat}, .ref id ∈ inode.blocks → IsLeaf s.items id
  syncs_nodup : (s.syncs.map SyncThread.inum).Nodup
  sync_item : ∀ {t : SyncThread}, t ∈ s.syncs →
    ∃ inode, s.inodes t.inum = some inode ∧ inode.committedItem = some t.item
  committed : ∀ {k id : Nat} {inode : MemInode}, s.inodes k = some inode →
    inode.committedItem = some id →
      IsInodeOf s.items k id ∧ s.cloud.location id = none ∧ ¬ Superseded s k id
  tracked : ∀ {k id : Nat}, IsInodeOf s.items k id →
    Superseded s k id ∨ (∃ t ∈ s.syncs, t.inum = k ∧ t.item = id) ∨ OnDirtyList s k id ∨
      MapEntry s.cloud.inodeMap k id

theorem coreInv_start (disableAggregation : Bool) :
    CoreInv (ProxyState.start disableAggregation) where
  heap := HeapOk.nil
  cloud := CloudOk.start [] disableAggregation
  sections := by
    intro r hr
    cases hr
  order_lt := by simp [ProxyState.start, JournalLog.order]
  order_nodup := by simp [ProxyState.start, JournalLog.order]
  inode_mem := by simp [ProxyState.start, IsInodeOf]
  blocks := by simp [ProxyState.start]
  syncs_nodup := by simp [ProxyState.start]
  sync_item := by simp [ProxyState.start]
  committed := by simp [ProxyState.start]
  tracked := by simp [ProxyState.start, IsInodeOf]

/-! ## Steps that create no version -/

variable {s : ProxyState} {k : Nat}

theorem Superseded.mono {s' : ProxyState} (hitems : s.items <+: s'.items)
    (horder : s.log.order <+: s'.log.order) {id : Nat} (h : Superseded s k id) :
    Superseded s' k id := by
  rcases h with ⟨id', hinode, hprec⟩
  rcases horder with ⟨rest, hrest⟩
  exact ⟨id', hinode.mono hitems, hrest ▸ hprec.append_right rest⟩

/-- A later version that was there before was given to the log thread before. -/
theorem Superseded.of_append {s' : ProxyState} {ids : List Nat} {id : Nat}
    (horder : s'.log.order = s.log.order ++ ids) (hnew : ∀ id ∈ ids, s.items.length ≤ id)
    (hversion : ∀ {id' : Nat}, IsInodeOf s'.items k id' → IsInodeOf s.items k id')
    (h : Superseded s' k id) : Superseded s k id := by
  rcases h with ⟨id', hid', hprec⟩
  rw [horder] at hprec
  exact ⟨id', hversion hid', hprec.of_not_mem fun hmem =>
    Nat.not_lt.mpr (hnew id' hmem) (hversion hid').lt_length⟩

/-- Writing a version of an inode that has not been written. -/
theorem CoreInv.drained (h : CoreInv s) {x : Nat} {inode : MemInode}
    (hinode : s.inodes k = some inode) (hx : inode.committedItem = some x) :
    Serializes s.items (fun j => j = x ∨ IsLeaf s.items j) s.cloud x
        (cloudlogSerialize s.items s.items.length s.cloud x) ∧
      (cloudlogSerialize s.items s.items.length s.cloud x).inodeMap =
        inodeMapInsert s.cloud.inodeMap k x := by
  rcases h.committed hinode hx with ⟨hxk, hloc, -⟩
  exact drained_spec h.heap h.cloud hxk hloc

/-- Writing the inode map. -/
theorem CoreInv.mapWritten (h : CoreInv s) {r : List Item × InodeMap}
    (hr : SectionsWritten s.items s.cloud.inodeMap r) :
    MapWritten r.1 r.2 (r.1 ++ [checkpointItem s.cloud.latestCleanerSeqSeen r.2])
      { s.cloud with inodeMap := r.2 }
      (cloudlogSerialize (r.1 ++ [checkpointItem s.cloud.latestCleanerSeqSeen r.2])
        (r.1.length + 1) { s.cloud with inodeMap := r.2 } r.1.length) :=
  mapWritten_spec h.heap h.cloud h.sections hr _

/-- A step that changes none of the parts that the invariant speaks about. -/
theorem CoreInv.congr (h : CoreInv s) {log : JournalLog} {cloud : CloudLogState} {flushd : Flushd}
    {flushBase : Nat} (horder : log.order = s.log.order) (hcloud : CloudOk s.items cloud)
    (hlocation : cloud.location = s.cloud.location) (hmap : cloud.inodeMap = s.cloud.inodeMap) :
    CoreInv { s with log := log, cloud := cloud, flushd := flushd, flushBase := flushBase } := by
  refine ⟨h.heap, hcloud, hmap ▸ h.sections, ?_, ?_, ?_, h.blocks, h.syncs_nodup, h.sync_item,
    ?_, ?_⟩
  all_goals simp only [Superseded, OnDirtyList, horder, hlocation, hmap]
  · exact h.order_lt
  · exact h.order_nodup
  · exact h.inode_mem
  · exact h.committed
  · exact h.tracked

/-- New items that come last in the order. -/
theorem CoreInv.order_append (h : CoreInv s) (n : Nat) :
    (∀ id ∈ s.log.order ++ List.range' s.items.length n, id < s.items.length + n) ∧
      (s.log.order ++ List.range' s.items.length n).Nodup := by
  constructor
  · refine forall_mem_append.mpr ⟨fun id hid => Nat.lt_add_right n (h.order_lt hid), ?_⟩
    intro id hid
    exact (List.mem_range'_1.mp hid).2
  · refine nodup_append.mpr ⟨h.order_nodup, nodup_range', ?_⟩
    rintro a ha b hb rfl
    exact Nat.not_lt.mpr (List.mem_range'_1.mp hb).1 (h.order_lt ha)

/-- A step that creates a record which is no version of an inode. -/
theorem CoreInv.submit (h : CoreInv s) {item : Item} {flushd : Flushd} {flushBase : Nat}
    (hlinks : item.links = []) (hplain : item.payload.isInode = false) :
    CoreInv { s with
      items := s.items ++ [item]
      log := s.log.submit [s.items.length]
      flushd := flushd
      flushBase := flushBase } := by
  have hpre : s.items <+: s.items ++ [item] := prefix_append _ _
  have hinode : ∀ {k id : Nat}, IsInodeOf (s.items ++ [item]) k id ↔ IsInodeOf s.items k id := by
    intro k id
    rw [isInodeOf_snoc, hplain]
    simp
  rcases h.order_append 1 with ⟨hlt, hnodup⟩
  refine ⟨h.heap.snoc (by simp [hlinks]) (by simp [hplain]), h.cloud.mono hpre,
    h.sections.mono hpre, ?_, ?_, ?_, ?_, h.syncs_nodup, h.sync_item, ?_, ?_⟩
  · intro id hid
    rw [order_submit] at hid
    simpa using hlt id hid
  · rwa [order_submit]
  · intro k id hid
    rw [order_submit]
    exact mem_append_left _ (h.inode_mem (hinode.mp hid))
  · intro k inode hinode'
    rcases h.blocks hinode' with ⟨hk, hfits, hrefs⟩
    exact ⟨hk, hfits, fun hid => (hrefs hid).mono hpre⟩
  · intro k id inode hinode' hcommitted
    rcases h.committed hinode' hcommitted with ⟨hid, hloc, hnot⟩
    exact ⟨hinode.mpr hid, hloc, fun hsup =>
      hnot (hsup.of_append (order_submit _ _) (by simp) hinode.mp)⟩
  · intro k id hid
    refine (h.tracked (hinode.mp hid)).imp_left (Superseded.mono hpre ?_)
    rw [order_submit]
    exact prefix_append _ _

/-! ## Steps of file-system operations and synchronizations -/

section Steps

variable {s s' : ProxyState}

variable {inum : Nat}

theorem ne_of_locked_false (h : s.locked inum = false) {t : SyncThread} (ht : t ∈ s.syncs) :
    t.inum ≠ inum := by
  simp only [ProxyState.locked, List.any_eq_false, decide_eq_true_eq] at h
  exact h t ht

theorem coreInv_modify {image : InodeImage} {blocks : List MemBlock} (h : CoreInv s)
    (hstep : Stepped s (.modify inum image blocks) s') : CoreInv s' := by
  cases hstep with | modify hinum hlocked hfits hrefs inode hblocks hbody hcommitted => ?_
  refine ⟨h.heap, h.cloud, h.sections, h.order_lt, h.order_nodup, h.inode_mem, ?_,
    h.syncs_nodup, ?_, ?_, ?_⟩
  · intro k inode' hinode'
    rcases update_eq_some_iff.mp hinode' with ⟨rfl, rfl⟩ | ⟨-, hold⟩
    · refine ⟨hinum, ?_, ?_⟩
      · unfold InodeImage.fits at hfits ⊢
        rw [hbody, hblocks]
        exact hfits
      · intro id hid
        rw [hblocks] at hid
        rcases hrefs id hid with ⟨old, hold, hid⟩
        exact (h.blocks hold).2.2 hid
    · exact h.blocks hold
  · intro t ht
    rcases h.sync_item ht with ⟨old, hold, hitem⟩
    exact ⟨old, update_eq_some_iff.mpr (Or.inr ⟨ne_of_locked_false hlocked ht, hold⟩), hitem⟩
  · intro k id inode' hinode' hid
    rcases update_eq_some_iff.mp hinode' with ⟨rfl, rfl⟩ | ⟨-, hold⟩
    · rw [hcommitted] at hid
      rcases bind_eq_some_iff.mp hid with ⟨old, hold, hid⟩
      exact h.committed hold hid
    · exact h.committed hold hid
  · intro k id hid
    refine (h.tracked hid).imp_right (Or.imp_right (Or.imp_left ?_))
    rintro ⟨hdirty, old, hold, hcommitted'⟩
    refine ⟨hdirty, ?_⟩
    by_cases hk : k = inum
    · subst hk
      refine ⟨inode, update_self _ _ _, ?_⟩
      rw [hcommitted, hold]
      exact hcommitted'
    · exact ⟨old, update_eq_some_iff.mpr (Or.inr ⟨hk, hold⟩), hcommitted'⟩

theorem coreInv_startSync (h : CoreInv s) (hstep : Stepped s (.startSync inum) s') :
    CoreInv s' := by
  cases hstep with | startSync inode r hinode hlocked hr hflushed => ?_
  rcases h.blocks hinode with ⟨hinum, hfits, hrefs⟩
  have hpre : s.items <+: r.1 ++ [serializeInode inum inode.image r.2.1] :=
    hflushed.isPrefix.trans (prefix_append _ _)
  have hlen : s.items.length ≤ r.1.length := hflushed.isPrefix.length_le
  -- The only new version is that of the inode that is synchronized.
  have hversion : ∀ {k id : Nat},
      IsInodeOf (r.1 ++ [serializeInode inum inode.image r.2.1]) k id ↔
        IsInodeOf s.items k id ∨ (id = r.1.length ∧ k = inum) := by
    intro k id
    rw [isInodeOf_snoc]
    constructor
    · rintro (hold | ⟨hid, -, hk⟩)
      · exact Or.inl (hflushed.inode hold)
      · exact Or.inr ⟨hid, hk.symm⟩
    · rintro (hold | ⟨hid, hk⟩)
      · exact Or.inl (hold.mono hflushed.isPrefix)
      · exact Or.inr ⟨hid, rfl, hk.symm⟩
  have hids : r.2.2 ++ [r.1.length] =
      List.range' s.items.length (r.1.length + 1 - s.items.length) := by
    rw [hflushed.ids, Nat.sub_add_comm hlen, List.range'_1_concat, Nat.add_sub_cancel' hlen]
  have horder := order_submit s.log (r.2.2 ++ [r.1.length])
  have hnew : ∀ id ∈ r.2.2 ++ [r.1.length], s.items.length ≤ id := by
    rw [hids]
    exact fun id hid => (List.mem_range'_1.mp hid).1
  rcases h.order_append (r.1.length + 1 - s.items.length) with ⟨hlt, hnodup⟩
  rw [← hids] at hlt hnodup
  refine ⟨?_, h.cloud.mono hpre, h.sections.mono hpre, ?_, ?_, ?_, ?_, ?_, ?_, ?_, ?_⟩
  · refine (hflushed.heap h.heap).snoc ?_ fun _ => hinum
    intro j hj
    rcases List.mem_map.mp hj with ⟨block, hblock, hlink⟩
    cases block with
    | ref id =>
      rw [← some.inj hlink]
      rcases hflushed.leaf hrefs hblock with ⟨target, bytes, htarget, hdata⟩
      refine ⟨target, htarget, ?_⟩
      rw [hdata]
      rfl
    | zero => cases hlink
    | dirty bytes => cases hlink
  · intro id hid
    rw [horder] at hid
    have := hlt id hid
    simp only [length_append, length_singleton]
    omega
  · rwa [horder]
  · intro k id hid
    rw [horder]
    rcases hversion.mp hid with hold | ⟨rfl, -⟩
    · simp [h.inode_mem hold]
    · simp
  · intro k inode' hinode'
    rcases update_eq_some_iff.mp hinode' with ⟨rfl, rfl⟩ | ⟨-, hold⟩
    · exact ⟨hinum, hflushed.fits hfits,
        fun hid => (hflushed.leaf hrefs hid).mono (prefix_append _ _)⟩
    · rcases h.blocks hold with ⟨hk, hfits', hrefs'⟩
      exact ⟨hk, hfits', fun hid => (hrefs' hid).mono hpre⟩
  · refine nodup_cons.mpr ⟨?_, h.syncs_nodup⟩
    intro hmem
    rcases List.mem_map.mp hmem with ⟨t, ht, heq⟩
    exact ne_of_locked_false hlocked ht heq
  · intro t ht
    rcases mem_cons.mp ht with rfl | ht
    · exact ⟨_, update_self _ _ _, rfl⟩
    · rcases h.sync_item ht with ⟨old, hold, hitem⟩
      exact ⟨old, update_eq_some_iff.mpr (Or.inr ⟨ne_of_locked_false hlocked ht, hold⟩), hitem⟩
  · intro k id inode' hinode' hcommitted
    rcases update_eq_some_iff.mp hinode' with ⟨rfl, rfl⟩ | ⟨hk, hold⟩
    · rw [← some.inj hcommitted]
      refine ⟨hversion.mpr (Or.inr ⟨rfl, rfl⟩), h.cloud.location_eq_none hlen, ?_⟩
      -- The new version comes last.
      rintro ⟨id', -, hprec⟩
      rw [horder, ← append_assoc] at hprec
      rw [← append_assoc, nodup_append] at hnodup
      exact hnodup.2.2 _ hprec.mem_of_concat _ (mem_singleton_self _) rfl
    · rcases h.committed hold hcommitted with ⟨hid, hloc, hnot⟩
      refine ⟨hid.mono hpre, hloc, fun hsup => hnot (hsup.of_append horder hnew ?_)⟩
      intro id' hid'
      exact (hversion.mp hid').resolve_right fun hnew => hk hnew.2
  · intro k id hid
    rcases hversion.mp hid with hold | ⟨rfl, rfl⟩
    · by_cases hk : k = inum
      · subst hk
        refine Or.inl ⟨r.1.length, hversion.mpr (Or.inr ⟨rfl, rfl⟩), ?_⟩
        rw [horder]
        exact precedes_of_mem (h.inode_mem hold) (by simp)
      · rcases h.tracked hold with hsup | ⟨t, ht, hk', hid'⟩ | ⟨hdirty, old, hold', hid'⟩ | hmap
        · refine Or.inl (hsup.mono hpre ?_)
          rw [horder]
          exact prefix_append _ _
        · exact Or.inr (Or.inl ⟨t, mem_cons_of_mem _ ht, hk', hid'⟩)
        · exact Or.inr (Or.inr (Or.inl
            ⟨hdirty, old, update_eq_some_iff.mpr (Or.inr ⟨hk, hold'⟩), hid'⟩))
        · exact Or.inr (Or.inr (Or.inr hmap))
    · exact Or.inr (Or.inl ⟨_, mem_cons_self, rfl, rfl⟩)

/-- Threads that synchronize one inode are one thread. -/
theorem CoreInv.sync_unique (h : CoreInv s) {t t' : SyncThread} (ht : t ∈ s.syncs)
    (ht' : t' ∈ s.syncs) (hinum : t.inum = t'.inum) : t = t' :=
  inj_on_of_nodup_map h.syncs_nodup ht ht' hinum

theorem coreInv_finishSync (h : CoreInv s) (hstep : Stepped s (.finishSync inum) s') :
    CoreInv s' := by
  cases hstep with | finishSync t inode ht hinum hinode => ?_
  subst hinum
  have hnodup : s.syncs.Nodup := h.syncs_nodup.of_map
  -- The version of the inode that is now on the dirty list.
  have hdirtied : ∀ {old : MemInode} {id : Nat}, s.inodes t.inum = some old →
      old.committedItem = some id → inode.committedItem = some id := by
    intro old id hold hid
    rw [hinode] at hold
    rwa [some.inj hold]
  refine ⟨h.heap, h.cloud, h.sections, h.order_lt, h.order_nodup, h.inode_mem, ?_, ?_, ?_, ?_, ?_⟩
  · intro k inode' hinode'
    rcases update_eq_some_iff.mp hinode' with ⟨rfl, rfl⟩ | ⟨-, hold⟩
    · exact (h.blocks hinode :)
    · exact h.blocks hold
  · exact h.syncs_nodup.sublist ((erase_sublist).map _)
  · intro t' ht'
    rcases hnodup.mem_erase_iff.mp ht' with ⟨hne, hmem⟩
    rcases h.sync_item hmem with ⟨old, hold, hitem⟩
    exact ⟨old, update_eq_some_iff.mpr (Or.inr
      ⟨fun heq => hne (h.sync_unique hmem ht heq), hold⟩), hitem⟩
  · intro k id inode' hinode' hid
    rcases update_eq_some_iff.mp hinode' with ⟨rfl, rfl⟩ | ⟨-, hold⟩
    · exact h.committed hinode hid
    · exact h.committed hold hid
  · intro k id hid
    rcases h.tracked hid with hsup | ⟨t', ht', rfl, rfl⟩ | ⟨hdirty, old, hold, hid'⟩ | hmap
    · exact Or.inl hsup
    · by_cases htt : t' = t
      · subst htt
        rcases h.sync_item ht with ⟨old, hold, hid'⟩
        exact Or.inr (Or.inr (Or.inl ⟨mem_cons_self, _, update_self _ _ _, hdirtied hold hid'⟩))
      · exact Or.inr (Or.inl ⟨t', hnodup.mem_erase_iff.mpr ⟨htt, ht'⟩, rfl, rfl⟩)
    · refine Or.inr (Or.inr (Or.inl ?_))
      by_cases hk : k = t.inum
      · subst hk
        exact ⟨mem_cons_self, _, update_self _ _ _, hdirtied hold hid'⟩
      · exact ⟨mem_cons_of_mem _ ((mem_erase_of_ne hk).mpr hdirty), old,
          update_eq_some_iff.mpr (Or.inr ⟨hk, hold⟩), hid'⟩
    · exact Or.inr (Or.inr (Or.inr hmap))

/-! ## Steps of the flush daemon -/

variable {inode : MemInode}

/-- An inode leaves the dirty list without a version to write. -/
theorem coreInv_drain_none (h : CoreInv s) (hinode : s.inodes inum = some inode)
    (hlocked : s.locked inum = false) (hnone : inode.committedItem = none) :
    CoreInv { s with
      dirtyList := s.dirtyList.erase inum
      inodes := update s.inodes inum (some { inode with committedItem := none }) } := by
  have hsame : update s.inodes inum (some { inode with committedItem := none }) =
      s.inodes := by
    rw [← hnone, ← hinode]
    exact update_eq_self _ _
  rw [hsame]
  refine ⟨h.heap, h.cloud, h.sections, h.order_lt, h.order_nodup, h.inode_mem, h.blocks,
    h.syncs_nodup, h.sync_item, h.committed, ?_⟩
  intro k id hid
  refine (h.tracked hid).imp_right (Or.imp_right (Or.imp_left ?_))
  rintro ⟨hdirty, old, hold, hid'⟩
  refine ⟨(mem_erase_of_ne ?_).mpr hdirty, old, hold, hid'⟩
  rintro rfl
  rw [hinode] at hold
  rw [← some.inj hold, hnone] at hid'
  cases hid'

/-- The entry that an insertion into the inode map replaces is an older version. -/
theorem CoreInv.precedes_of_mapEntry (h : CoreInv s) {k x y : Nat}
    (hinode : s.inodes k = some inode) (hx : inode.committedItem = some x)
    (hy : MapEntry s.cloud.inodeMap k y) : Precedes s.log.order y x := by
  rcases h.committed hinode hx with ⟨hxk, hloc, hnot⟩
  rcases h.cloud.mapped hy with ⟨⟨l, hl⟩, hyk⟩
  have hne : y ≠ x := by
    rintro rfl
    rw [hl] at hloc
    cases hloc
  rcases precedes_total (h.inode_mem hyk) (h.inode_mem hxk) hne with hprec | hprec
  · exact hprec
  · exact absurd ⟨y, hyk, hprec⟩ hnot

theorem coreInv_drain_some {x : Nat} (h : CoreInv s) (hinode : s.inodes inum = some inode)
    (hlocked : s.locked inum = false) (hx : inode.committedItem = some x) :
    CoreInv { s with
      dirtyList := s.dirtyList.erase inum
      inodes := update s.inodes inum (some { inode with committedItem := none })
      cloud := cloudlogSerialize s.items s.items.length s.cloud x } := by
  have hxk := (h.committed hinode hx).1
  rcases h.drained hinode hx with ⟨hspec, hmap⟩
  have hinum := (h.blocks hinode).1
  refine ⟨h.heap, hspec.ok, ?_, h.order_lt, h.order_nodup, h.inode_mem, ?_, h.syncs_nodup,
    ?_, ?_, ?_⟩
  · dsimp only
    rw [hmap]
    intro range hrange id hid
    have hold := (serialized_inodeMapInsert h.cloud.mapOk hinum x).1 range hrange
      (by rw [hid]; exact some_ne_none id)
    exact h.sections range hold id hid
  · intro k inode' hinode'
    rcases update_eq_some_iff.mp hinode' with ⟨rfl, rfl⟩ | ⟨-, hold⟩
    · exact (h.blocks hinode :)
    · exact h.blocks hold
  · intro t ht
    rcases h.sync_item ht with ⟨old, hold, hitem⟩
    exact ⟨old, update_eq_some_iff.mpr (Or.inr ⟨ne_of_locked_false hlocked ht, hold⟩), hitem⟩
  · intro k id inode' hinode' hid
    rcases update_eq_some_iff.mp hinode' with ⟨-, rfl⟩ | ⟨hk, hold⟩
    · cases hid
    · rcases h.committed hold hid with ⟨hidk, hidloc, hnot⟩
      refine ⟨hidk, ?_, hnot⟩
      -- Only the version that is written and data items enter the log.
      cases hnew : (cloudlogSerialize s.items s.items.length s.cloud x).location id with
      | none => rfl
      | some l =>
        rcases hspec.grows.fresh hidloc hnew with rfl | hleaf
        · exact absurd (hidk.inum_eq hxk) hk
        · exact absurd hleaf hidk.not_isLeaf
  · intro k id hid
    have hentry : ∀ {k y : Nat}, MapEntry
        (cloudlogSerialize s.items s.items.length s.cloud x).inodeMap k y ↔
          (k = inum ∧ y = x) ∨ (k ≠ inum ∧ MapEntry s.cloud.inodeMap k y) := by
      intro k y
      rw [hmap]
      exact mapEntry_inodeMapInsert h.cloud.mapOk hinum x
    by_cases hk : k = inum
    · subst hk
      rcases h.tracked hid with hsup | hsync | ⟨-, old, hold, hid'⟩ | hold
      · exact Or.inl hsup
      · exact Or.inr (Or.inl hsync)
      · rw [hinode] at hold
        rw [← some.inj hold, hx] at hid'
        exact Or.inr (Or.inr (Or.inr (hentry.mpr (Or.inl ⟨rfl, (some.inj hid').symm⟩))))
      · exact Or.inl ⟨x, hxk, h.precedes_of_mapEntry hinode hx hold⟩
    · refine (h.tracked hid).imp_right (Or.imp_right (Or.imp ?_ fun hold =>
        hentry.mpr (Or.inr ⟨hk, hold⟩)))
      rintro ⟨hdirty, old, hold, hid'⟩
      exact ⟨(mem_erase_of_ne hk).mpr hdirty, old, update_eq_some_iff.mpr (Or.inr ⟨hk, hold⟩), hid'⟩

theorem coreInv_drain (h : CoreInv s) (hstep : Stepped s (.drain inum) s') : CoreInv s' := by
  cases hstep with | drain marker start inode hflushd hinode hdirty hlocked => ?_
  cases hx : inode.committedItem with
  | none => exact coreInv_drain_none h hinode hlocked hx
  | some x => exact coreInv_drain_some h hinode hlocked hx

theorem coreInv_writeMap (h : CoreInv s) (hstep : Stepped s .writeMap s') : CoreInv s' := by
  cases hstep with
  | keepMap =>
    exact h.congr rfl h.cloud.flush (location_cloudlogFlush _) (inodeMap_cloudlogFlush _)
  | writeMap marker start hflushd r hchanged hr hsec => ?_
  have hwritten := h.mapWritten hsec
  generalize hitems : r.1 ++ [checkpointItem s.cloud.latestCleanerSeqSeen r.2] = items'
    at hwritten ⊢
  generalize cloudlogSerialize items' (r.1.length + 1) { s.cloud with inodeMap := r.2 }
    r.1.length = c at hwritten ⊢
  have hpre : s.items <+: items' := hitems ▸ hsec.isPrefix.trans (prefix_append _ _)
  have hsections : SectionsOk items' r.2 :=
    hitems ▸ (hsec.sections h.sections).mono (prefix_append _ _)
  have hinode : ∀ {k id : Nat}, IsInodeOf items' k id → IsInodeOf s.items k id := by
    intro k id hid
    rw [← hitems, isInodeOf_snoc] at hid
    rcases hid with hid | ⟨-, hid, -⟩
    · exact hsec.inode hid
    · cases hid
  have hentry : ∀ {k x : Nat}, MapEntry c.inodeMap k x ↔ MapEntry s.cloud.inodeMap k x := by
    intro k x
    rw [hwritten.inodeMap]
    exact mapEntry_of_ranges hsec.ranges
  refine ⟨hwritten.heap, hwritten.ok.flush, ?_, ?_, h.order_nodup,
    fun hid => h.inode_mem (hinode hid), ?_, h.syncs_nodup, h.sync_item, ?_, ?_⟩
  · dsimp only
    rw [inodeMap_cloudlogFlush, hwritten.inodeMap]
    exact hsections
  · exact fun hid => Nat.lt_of_lt_of_le (h.order_lt hid) hpre.length_le
  · intro k inode' hinode'
    rcases h.blocks hinode' with ⟨hk, hfits, hrefs⟩
    exact ⟨hk, hfits, fun hid => (hrefs hid).mono hpre⟩
  · intro k id inode' hinode' hid
    rcases h.committed hinode' hid with ⟨hidk, hidloc, hnot⟩
    refine ⟨hidk.mono hpre, ?_, fun ⟨id', hid', hprec⟩ => hnot ⟨id', hinode hid', hprec⟩⟩
    -- Only the checkpoint and the sections enter the log, and they are no inodes.
    dsimp only
    rw [location_cloudlogFlush]
    cases hnew : c.location id with
    | none => rfl
    | some l =>
      exfalso
      rcases hidk with ⟨item, hitem, hisInode, -⟩
      have hitem' := getElem?_mono hpre hitem
      rcases hwritten.grows.fresh hidloc hnew with rfl | ⟨range, hrange, hsec'⟩
      · rw [← hitems] at hitem'
        simp only [getElem?_concat_length] at hitem'
        rw [← some.inj hitem'] at hisInode
        cases hisInode
      · rw [hsections range hrange id hsec'] at hitem'
        rw [← some.inj hitem'] at hisInode
        cases hisInode
  · intro k id hid
    dsimp only
    rw [inodeMap_cloudlogFlush, hentry]
    refine (h.tracked (hinode hid)).imp_left ?_
    rintro ⟨id', hid', hprec⟩
    exact ⟨id', hid'.mono hpre, hprec⟩

/-! ## All steps -/

theorem coreInv_step (h : CoreInv s) {e : Event} (hstep : s.step e = some s') :
    CoreInv s' := by
  have hstepped := stepped hstep
  cases e with
  | modify inum image blocks => exact coreInv_modify h hstepped
  | startSync inum => exact coreInv_startSync h hstepped
  | finishSync inum => exact coreInv_finishSync h hstepped
  | drain inum => exact coreInv_drain h hstepped
  | writeMap => exact coreInv_writeMap h hstepped
  | getCommitPoint =>
    cases hstepped
    exact h.submit rfl rfl
  | writeCommitPoint =>
    cases hstepped
    exact h.submit rfl rfl
  | logWrite =>
    cases hstepped with | logWrite log hlog => ?_
    exact h.congr (order_writeNext hlog) h.cloud rfl rfl
  | putComplete n =>
    cases hstepped
    exact h.congr rfl
      ⟨h.cloud.placed, h.cloud.listed, h.cloud.nonempty, h.cloud.mapOk, h.cloud.mapped⟩ rfl rfl
  | _ =>
    cases hstepped
    exact h.congr rfl h.cloud rfl rfl

end Steps

end BlueSky
