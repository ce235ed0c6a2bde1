import BlueSky.Proxy.CommitPoint

/-!
# The versions that have been synchronized

The version of an inode whose synchronization has returned is the last one that was given
to the log thread, and it is on disk, as long as no other synchronization of the inode
runs.

Main results:

- Definition {lit}`itemView`: what a reader of a version sees.
- Theorem {lit}`syncedInv_step`: every step keeps the relation of the versions that have
  been synchronized to the journal.
-/

namespace BlueSky

open Function List Option PrecedenceLib ProxyState TableLib ByteLib

/-! ## Versions -/

/-- The contents of a block of a version. -/
def linkContents (items : List Item) (size i : Nat) : Option Nat → Bytes
  | none => zeros (ChunkLib.chunkLen blockSize size i)
  | some id => itemBytes items id

/-- What a reader of a version sees. -/
def itemView (items : List Item) (item : Item) : Option InodeView :=
  match item.payload with
  | .inode image =>
    some { image := image, contents := item.links.mapIdx (linkContents items image.size) }
  | _ => none

/-- The version has as many links as its file has blocks. -/
def LinksFit (item : Item) : Prop :=
  ∃ image, item.payload = .inode image ∧
    (∀ size, image.body = .regular size → item.links.length = ChunkLib.chunkCount blockSize size) ∧
    ((∀ size, image.body ≠ .regular size) → item.links = [])

theorem linksFit_serializeInode {inum : Nat} {image : InodeImage} {blocks : List MemBlock}
    (h : image.fits blocks) : LinksFit (serializeInode inum image blocks) := by
  refine ⟨image, rfl, ?_, ?_⟩
  · intro size hbody
    unfold InodeImage.fits at h
    rw [hbody] at h
    simpa [serializeInode] using h
  · intro hbody
    unfold InodeImage.fits at h
    cases hcase : image.body with
    | regular size => exact absurd hcase (hbody size)
    | _ =>
      rw [hcase] at h
      simp only [decide_eq_true_eq] at h
      simp [serializeInode, h]

/-- The version that is written when no block is dirty shows the inode. -/
theorem itemView_serializeInode {items : List Item} {inum : Nat} {inode : MemInode}
    (hclean : ∀ block ∈ inode.blocks, block.link = none → block = .zero) :
    itemView items (serializeInode inum inode.image inode.blocks) = some (inode.view items) := by
  have hcontents : (inode.blocks.map MemBlock.link).mapIdx
      (linkContents items inode.image.size) =
        inode.blocks.mapIdx fun i block => block.contents items inode.image.size i := by
    rw [mapIdx_eq_iff]
    intro i
    rw [getElem?_mapIdx, getElem?_map]
    cases hblock : inode.blocks[i]? with
    | none => rfl
    | some block =>
      cases block with
      | zero => rfl
      | ref id => rfl
      | dirty bytes =>
        have := hclean _ (mem_of_getElem? hblock) rfl
        cases this
  simp only [itemView, serializeInode, MemInode.view, hcontents]

/-- A version shows the same when items are added. -/
theorem itemView_mono {items items' : List Item} (h : items <+: items') {id : Nat}
    (hheap : HeapOk items) {item : Item} (hitem : items[id]? = some item) :
    itemView items' item = itemView items item := by
  have hcontents : ∀ size, item.links.mapIdx (linkContents items' size) =
      item.links.mapIdx (linkContents items size) := by
    intro size
    rw [mapIdx_eq_iff]
    intro i
    rw [getElem?_mapIdx]
    cases hlink : item.links[i]? with
    | none => rfl
    | some link =>
      cases link with
      | none => rfl
      | some j =>
        have hlt := hheap.link_lt hitem (mem_of_getElem? hlink)
        have hj := lt_trans hlt (lt_length_of_getElem? hitem)
        simp only [map_some, linkContents, itemBytes_mono h hj]
  unfold itemView
  cases item.payload with
  | inode image => simp only [hcontents]
  | _ => rfl

/-! ## The invariant -/

/-- The version is the last one of the inode, and it is on disk. -/
structure LastVersion (s : ProxyState) (k id : Nat) (item : Item) : Prop where
  found : s.items[id]? = some item
  inum : item.inum = k
  fits : LinksFit item
  last : ¬ Superseded s k id
  committed : s.log.isCommitted id

/-- What a synchronization that runs has written is the inode; and what has been
synchronized last is the last version. -/
structure SyncedInv (s : ProxyState) : Prop where
  running : ∀ {t : SyncThread}, t ∈ s.syncs → ∃ inode, s.inodes t.inum = some inode ∧
    s.items[t.item]? = some (serializeInode t.inum inode.image inode.blocks) ∧
    ∀ block ∈ inode.blocks, block.link = none → block = .zero
  synced : ∀ {k : Nat} {v : InodeView}, s.synced k = some v → s.locked k = false →
    ∃ id item, LastVersion s k id item ∧ itemView s.items item = some v

theorem syncedInv_start (disableAggregation : Bool) : SyncedInv (start disableAggregation) where
  running := by simp [start]
  synced := by simp [start]

section Steps

variable {s s' : ProxyState}

theorem LastVersion.isInodeOf {k id : Nat} {item : Item} (h : LastVersion s k id item) :
    IsInodeOf s.items k id := by
  rcases h.fits with ⟨image, hpayload, -⟩
  exact ⟨item, h.found, by rw [hpayload]; rfl, h.inum⟩

/-- A new version of an inode comes only from a synchronization of it. -/
theorem isInodeOf_step {e : Event} (hstep : step s e = some s') {k id : Nat}
    (he : e ≠ .startSync k) (h : IsInodeOf s'.items k id) : IsInodeOf s.items k id := by
  cases stepped hstep with
  | startSync inode r _ _ _ hflushed =>
    rcases isInodeOf_snoc.mp h with hold | ⟨-, -, hk⟩
    · exact hflushed.inode hold
    · exact absurd (congrArg Event.startSync hk) he
  | writeMap marker start _ r _ _ hsec =>
    rcases isInodeOf_snoc.mp h with hold | ⟨-, hnew, -⟩
    · exact hsec.inode hold
    · cases hnew
  | getCommitPoint | writeCommitPoint =>
    rcases isInodeOf_snoc.mp h with hold | ⟨-, hnew, -⟩
    · exact hold
    · cases hnew
  | _ => exact h

/-- The last version of an inode stays the last one, unless a synchronization starts. -/
theorem LastVersion.advance (hadv : Advances s s') {e : Event}
    (hstep : step s e = some s') {k id : Nat} {item : Item} (he : e ≠ .startSync k)
    (h : LastVersion s k id item) : LastVersion s' k id item where
  found := getElem?_mono hadv.items h.found
  inum := h.inum
  fits := h.fits
  last := by
    rintro ⟨x, hx, hprec⟩
    have hold := isInodeOf_step hstep he hx
    exact h.last ⟨x, hold, precedes_of_step hadv hold.lt_length hprec⟩
  committed := isCommitted_mono hadv h.committed

/-- A step that changes neither the threads nor what has been synchronized. -/
theorem SyncedInv.advance (h : SyncedInv s) (hcore : CoreInv s) (hadv : Advances s s')
    {e : Event} (hstep : step s e = some s') (he : ∀ k, e ≠ .startSync k)
    (hsyncs : s'.syncs = s.syncs) (hsynced : s'.synced = s.synced)
    (hinodes : ∀ t ∈ s.syncs, s'.inodes t.inum = s.inodes t.inum) : SyncedInv s' where
  running := by
    intro t ht
    rw [hsyncs] at ht
    rcases h.running ht with ⟨inode, hinode, hitem, hclean⟩
    exact ⟨inode, (hinodes t ht).trans hinode, getElem?_mono hadv.items hitem, hclean⟩
  synced := by
    intro k v hv hlocked
    rw [hsynced] at hv
    have hlocked' : s.locked k = false := by
      unfold ProxyState.locked at hlocked ⊢
      rwa [hsyncs] at hlocked
    rcases h.synced hv hlocked' with ⟨id, item, hlast, hview⟩
    refine ⟨id, item, hlast.advance hadv hstep (he k), ?_⟩
    rw [itemView_mono hadv.items hcore.heap hlast.found, hview]

theorem syncedInv_startSync {inum : Nat} (h : SyncedInv s) (hcore : CoreInv s)
    (hadv : Advances s s') (hstep : step s (.startSync inum) = some s') : SyncedInv s' := by
  have hlast := @LastVersion.advance s s' hadv _ hstep
  have hitems := hadv.items
  cases stepped hstep with | startSync inode r hinode hlocked hr hflushed => ?_
  rcases hcore.blocks hinode with ⟨-, -, hrefs⟩
  constructor
  · intro t ht
    rcases mem_cons.mp ht with rfl | ht
    · refine ⟨_, update_self _ _ _, getElem?_concat_length, ?_⟩
      intro block hblock hnone
      rcases getElem?_of_mem hblock with ⟨i, hi⟩
      have hi' : i < inode.blocks.length := by
        rw [← hflushed.length]
        exact (List.getElem?_eq_some_iff.mp hi).1
      have hlt : ∀ id, .ref id ∈ inode.blocks → id < s.items.length := by
        intro id hid
        rcases hrefs hid with ⟨target, bytes, htarget, -⟩
        exact lt_length_of_getElem? htarget
      rcases hflushed.contents hlt (getElem?_eq_getElem hi') with ⟨block', hblock', hclean, -⟩
      rw [hi] at hblock'
      rw [some.inj hblock'] at hnone ⊢
      exact hclean hnone
    · rcases h.running ht with ⟨old, hold, hitem, hclean⟩
      exact ⟨old, (update_of_ne (ne_of_locked_false hlocked ht) _ _).trans hold,
        getElem?_mono hitems hitem, hclean⟩
  · intro k v hv hlocked'
    rcases forall_mem_cons.mp (locked_eq_false_iff.mp hlocked') with ⟨hk, hlocked'⟩
    rcases h.synced hv (locked_eq_false_iff.mpr hlocked') with ⟨id, item, hold, hview⟩
    refine ⟨id, item, hlast (by simpa using hk) hold, ?_⟩
    rw [itemView_mono hitems hcore.heap hold.found, hview]

theorem syncedInv_finishSync {inum : Nat} (h : SyncedInv s) (hcore : CoreInv s)
    (hstep : Stepped s (.finishSync inum) s') : SyncedInv s' := by
  cases hstep with | finishSync t inode ht heq hinode hcommitted _ => ?_
  subst heq
  have hnodup : s.syncs.Nodup := hcore.syncs_nodup.of_map
  constructor
  · intro t' ht'
    rcases hnodup.mem_erase_iff.mp ht' with ⟨hne, hmem⟩
    have hinum : t'.inum ≠ t.inum := fun heq => hne (hcore.sync_unique hmem ht heq)
    rcases h.running hmem with ⟨old, hold, hitem, hclean⟩
    exact ⟨old, (update_of_ne hinum _ _).trans hold, hitem, hclean⟩
  · intro k v hv hlocked
    rcases update_eq_some_iff.mp hv with ⟨rfl, rfl⟩ | ⟨hk, hv⟩
    · rcases h.running ht with ⟨inode', hinode', hitem, hclean⟩
      rw [hinode] at hinode'
      rw [← some.inj hinode'] at hitem hclean
      rcases hcore.sync_item ht with ⟨inode'', hinode'', hcom⟩
      rw [hinode] at hinode''
      rw [← some.inj hinode''] at hcom
      exact ⟨t.item, _, ⟨hitem, rfl, linksFit_serializeInode (hcore.blocks hinode).2.1,
        (hcore.committed hinode hcom).2.2, hcommitted t.item (by simp)⟩,
        itemView_serializeInode hclean⟩
    · rcases h.synced hv (locked_of_erase hk (locked_eq_false_iff.mp hlocked)) with
        ⟨id, item, hold, hview⟩
      exact ⟨id, item, ⟨hold.found, hold.inum, hold.fits, hold.last, hold.committed⟩, hview⟩

/-- Every step keeps the invariant. -/
theorem syncedInv_step {e : Event} (hcore : CoreInv s) (hpositions : PositionsOk s.items s.log)
    (h : SyncedInv s) (hstep : step s e = some s') : SyncedInv s' := by
  have hadv := advances_step hpositions.committed hstep
  have hplain := fun he => h.advance (e := e) hcore hadv hstep he
  have hstepped := stepped hstep
  cases e with
  | startSync inum => exact syncedInv_startSync h hcore hadv hstep
  | finishSync inum => exact syncedInv_finishSync h hcore hstepped
  | modify inum image blocks =>
    cases hstepped with | modify _ hlocked => ?_
    exact hplain (by simp) rfl rfl fun t ht =>
      update_of_ne (ne_of_locked_false hlocked ht) _ _
  | drain inum =>
    cases hstepped with | drain marker start inode _ _ _ hlocked => ?_
    exact hplain (by simp) rfl rfl fun t ht =>
      update_of_ne (ne_of_locked_false hlocked ht) _ _
  | _ =>
    cases hstepped
    all_goals exact hplain (by simp) rfl rfl fun _ _ => rfl

end Steps

end BlueSky
