import BlueSky.Proxy.Model
import BlueSky.Lib.Precedence

/-!
# What the steps of the proxy do

One lemma for each step that says when it is enabled and what it changes, and the
specifications of the functions that create log items.

Main results:

- Theorem {lit}`fileFlushBlocks_spec`: flushing the blocks of a file creates data items
  and leaves the contents of the file as they are.
- Theorem {lit}`serializeSections_spec`: after the serialization of the inode map each
  range has a section that lists its entries.
- Theorem {lit}`order_writeNext`: the log thread keeps the order of the items.
-/

namespace BlueSky

open Function List Option PrecedenceLib ProxyState

/-! ## Items -/

variable {items items' : List Item}

/-- Items stay what they are when others are created. -/
theorem getElem?_mono (h : items <+: items') {id : Nat} {item : Item}
    (hitem : items[id]? = some item) : items'[id]? = some item := by
  rcases h with ⟨rest, rfl⟩
  rw [getElem?_append_left (lt_length_of_getElem? hitem), hitem]

theorem getElem?_of_prefix_of_lt (h : items <+: items') {id : Nat} (hlt : id < items.length) :
    items'[id]? = items[id]? := by
  rcases h with ⟨rest, rfl⟩
  rw [getElem?_append_left hlt]

theorem IsLeaf.mono (h : items <+: items') {id : Nat} (hleaf : IsLeaf items id) :
    IsLeaf items' id := by
  rcases hleaf with ⟨item, bytes, hitem, hdata⟩
  exact ⟨item, bytes, getElem?_mono h hitem, hdata⟩

/-- The item holds a version of the inode. -/
def IsInodeOf (items : List Item) (inum id : Nat) : Prop :=
  ∃ item, items[id]? = some item ∧ item.payload.isInode ∧ item.inum = inum

variable {inum : Nat}

theorem IsInodeOf.mono (h : items <+: items') {id : Nat} (hinode : IsInodeOf items inum id) :
    IsInodeOf items' inum id := by
  rcases hinode with ⟨item, hitem, hrest⟩
  exact ⟨item, getElem?_mono h hitem, hrest⟩

theorem IsInodeOf.lt_length {id : Nat} (hinode : IsInodeOf items inum id) : id < items.length := by
  rcases hinode with ⟨item, hitem, -⟩
  exact lt_length_of_getElem? hitem

/-- An item is a version of one inode. -/
theorem IsInodeOf.inum_eq {k k' id : Nat} (h : IsInodeOf items k id) (h' : IsInodeOf items k' id) :
    k = k' := by
  rcases h with ⟨item, hitem, -, rfl⟩
  rcases h' with ⟨item', hitem', -, rfl⟩
  rw [hitem] at hitem'
  rw [some.inj hitem']

theorem IsInodeOf.not_isLeaf {id : Nat} (hinode : IsInodeOf items inum id) : ¬ IsLeaf items id := by
  rintro ⟨item, bytes, hitem, hdata⟩
  rcases hinode with ⟨item', hitem', hinode', -⟩
  rw [hitem] at hitem'
  rw [← some.inj hitem', hdata] at hinode'
  cases hinode'

/-- An inode item among old items and one new one. -/
theorem isInodeOf_snoc {item : Item} {id : Nat} :
    IsInodeOf (items ++ [item]) inum id ↔
      IsInodeOf items inum id ∨ (id = items.length ∧ item.payload.isInode ∧ item.inum = inum) := by
  constructor
  · rintro ⟨it, hit, hinode, hinum⟩
    rcases Nat.lt_or_ge id items.length with hlt | hge
    · rw [getElem?_append_left hlt] at hit
      exact Or.inl ⟨it, hit, hinode, hinum⟩
    · rw [getElem?_append_right hge, getElem?_singleton] at hit
      split_ifs at hit with hid
      rw [← some.inj hit] at hinode hinum
      exact Or.inr ⟨by omega, hinode, hinum⟩
  · rintro (hinode | ⟨rfl, hinode, hinum⟩)
    · exact hinode.mono (prefix_append _ _)
    · exact ⟨item, by simp, hinode, hinum⟩

/-- A well-formed log stays so when items are created. -/
theorem CloudOk.mono (h : items <+: items') {c : CloudLogState} (hc : CloudOk items c) :
    CloudOk items' c where
  placed := by
    intro id l hl
    rcases hc.placed hl with ⟨item, hitem, hrest⟩
    exact ⟨item, getElem?_mono h hitem, hrest⟩
  listed := hc.listed
  nonempty := hc.nonempty
  mapOk := hc.mapOk
  mapped := by
    intro k x hentry
    rcases hc.mapped hentry with ⟨hloc, item, hitem, hrest⟩
    exact ⟨hloc, item, getElem?_mono h hitem, hrest⟩

/-- A new item is not in the cloud. -/
theorem CloudOk.location_eq_none {c : CloudLogState} (hc : CloudOk items c) {id : Nat}
    (hid : items.length ≤ id) : c.location id = none := by
  cases hloc : c.location id with
  | none => rfl
  | some l =>
    rcases hc.placed hloc with ⟨item, hitem, -⟩
    exact absurd (lt_length_of_getElem? hitem) (Nat.not_lt.mpr hid)

/-! ## Flushing the blocks of a file -/

theorem itemBytes_mono (h : items <+: items') {id : Nat} (hlt : id < items.length) :
    itemBytes items' id = itemBytes items id := by
  unfold itemBytes
  rw [getElem?_of_prefix_of_lt h hlt]

/-- The contents of a block do not change when items are created. -/
theorem contents_mono (h : items <+: items') {block : MemBlock}
    (hlt : ∀ id, block = .ref id → id < items.length) (size n : Nat) :
    block.contents items' size n = block.contents items size n := by
  cases block with
  | zero => rfl
  | ref id => exact itemBytes_mono h (hlt id rfl)
  | dirty bytes => rfl

/-- What flushing the blocks of a file does. -/
structure FlushedBlocks (items : List Item) (blocks : List MemBlock)
    (r : List Item × List MemBlock × List Nat) : Prop where
  heap : HeapOk items → HeapOk r.1
  isPrefix : items <+: r.1
  ids : r.2.2 = List.range' items.length (r.1.length - items.length)
  inode : ∀ {k id : Nat}, IsInodeOf r.1 k id → IsInodeOf items k id
  refs : ∀ {id : Nat}, .ref id ∈ r.2.1 → .ref id ∈ blocks ∨ IsLeaf r.1 id
  length : r.2.1.length = blocks.length
  contents : (∀ id, .ref id ∈ blocks → id < items.length) →
    ∀ {i : Nat} {block : MemBlock}, blocks[i]? = some block →
      ∃ block', r.2.1[i]? = some block' ∧ (block'.link = none → block' = .zero) ∧
        ∀ size n, block'.contents r.1 size n = block.contents items size n

theorem fileFlushBlocks_nil (inum : Nat) (items : List Item) :
    FlushedBlocks items [] (fileFlushBlocks inum items []) where
  heap := fun h => h
  isPrefix := prefix_rfl
  ids := by simp [fileFlushBlocks]
  inode := fun h => h
  refs := by simp [fileFlushBlocks]
  length := rfl
  contents := by simp

variable {blocks : List MemBlock} {r : List Item × List MemBlock × List Nat}

/-- A block that is not dirty stays as it is. -/
theorem FlushedBlocks.cons_clean {block : MemBlock} (h : FlushedBlocks items blocks r)
    (hclean : block.link = none → block = .zero) :
    FlushedBlocks items (block :: blocks) (r.1, block :: r.2.1, r.2.2) where
  heap := h.heap
  isPrefix := h.isPrefix
  ids := h.ids
  inode := h.inode
  refs := by
    intro id hid
    rcases mem_cons.mp hid with hid | hid
    · exact Or.inl (mem_cons.mpr (Or.inl hid))
    · exact (h.refs hid).imp_left (mem_cons_of_mem _)
  length := by simp [h.length]
  contents := by
    intro hrefs i b hb
    cases i with
    | zero =>
      rw [getElem?_cons_zero] at hb
      rw [← some.inj hb]
      refine ⟨block, rfl, hclean, fun size n => ?_⟩
      exact contents_mono h.isPrefix
        (fun id hid => hrefs id (mem_cons.mpr (Or.inl hid.symm))) size n
    | succ i =>
      rw [getElem?_cons_succ] at hb ⊢
      exact h.contents (fun id hid => hrefs id (mem_cons_of_mem _ hid)) hb

/-- A dirty block becomes a reference to a new data item. -/
theorem FlushedBlocks.cons_dirty {bytes : ByteLib.Bytes}
    (h : FlushedBlocks (items ++ [{ payload := .data bytes, inum := inum, links := [] }])
      blocks r) :
    FlushedBlocks items (.dirty bytes :: blocks)
      (r.1, .ref items.length :: r.2.1, items.length :: r.2.2) where
  heap := fun hheap => h.heap (hheap.snoc (by simp) (by simp [Payload.isInode]))
  isPrefix := (prefix_append _ _).trans h.isPrefix
  ids := by
    have hlen := h.isPrefix.length_le
    rw [length_append, length_singleton] at hlen
    have hsub : r.1.length - items.length = r.1.length - (items.length + 1) + 1 := by omega
    rw [hsub, range'_succ, h.ids, length_append, length_singleton]
  inode := by
    intro k id hinode
    rcases isInodeOf_snoc.mp (h.inode hinode) with hold | ⟨-, hnew, -⟩
    · exact hold
    · cases hnew
  refs := by
    intro id hid
    rcases mem_cons.mp hid with hid | hid
    · refine Or.inr (IsLeaf.mono h.isPrefix
        ⟨{ payload := .data bytes, inum := inum, links := [] }, bytes, ?_, rfl⟩)
      rw [MemBlock.ref.inj hid]
      simp
    · exact (h.refs hid).imp_left (mem_cons_of_mem _)
  length := by simp [h.length]
  contents := by
    intro hrefs i b hb
    have hlt : ∀ id, .ref id ∈ blocks → id < items.length :=
      fun id hid => hrefs id (mem_cons_of_mem _ hid)
    cases i with
    | zero =>
      rw [getElem?_cons_zero] at hb
      rw [← some.inj hb]
      refine ⟨.ref items.length, rfl, by simp [MemBlock.link], fun size n => ?_⟩
      simp only [MemBlock.contents]
      rw [itemBytes_mono h.isPrefix (by simp)]
      simp [itemBytes]
    | succ i =>
      rw [getElem?_cons_succ] at hb ⊢
      rcases h.contents (fun id hid => by
        rw [length_append]
        exact Nat.lt_of_lt_of_le (hlt id hid) (Nat.le_add_right _ _)) hb with
        ⟨b', hb', hclean, hcontents⟩
      refine ⟨b', hb', hclean, fun size n => ?_⟩
      rw [hcontents]
      refine contents_mono (prefix_append _ _) ?_ size n
      intro id hid
      exact hlt id (hid ▸ mem_of_getElem? hb)

/-- A flushed file has as many blocks as before. -/
theorem FlushedBlocks.fits {image : InodeImage} (h : FlushedBlocks items blocks r)
    (hfits : image.fits blocks) : image.fits r.2.1 := by
  have hlength := h.length
  unfold InodeImage.fits at hfits ⊢
  cases hbody : image.body with
  | regular size => simpa [hbody, hlength] using hfits
  | _ =>
    have hnil : blocks = [] := by simpa [hbody] using hfits
    rw [hnil] at hlength
    simpa using eq_nil_of_length_eq_zero hlength

/-- The blocks of a flushed file are in data items. -/
theorem FlushedBlocks.leaf (h : FlushedBlocks items blocks r)
    (hrefs : ∀ {id : Nat}, .ref id ∈ blocks → IsLeaf items id) {id : Nat} (hid : .ref id ∈ r.2.1) :
    IsLeaf r.1 id := by
  rcases h.refs hid with hold | hleaf
  · exact (hrefs hold).mono h.isPrefix
  · exact hleaf

/-- Flushing the blocks of a file creates data items and leaves the contents of the file as
they are. -/
theorem fileFlushBlocks_spec (inum : Nat) (items : List Item) (blocks : List MemBlock) :
    FlushedBlocks items blocks (fileFlushBlocks inum items blocks) := by
  induction blocks generalizing items with
  | nil => exact fileFlushBlocks_nil inum items
  | cons block blocks ih =>
    cases block with
    | zero => exact (ih items).cons_clean fun _ => rfl
    | ref id => exact (ih items).cons_clean (by simp [MemBlock.link])
    | dirty bytes => exact (ih _).cons_dirty

/-! ## Sections of the inode map -/

/-- The sections that the ranges keep list their entries. -/
def SectionsOk (items : List Item) (m : InodeMap) : Prop :=
  ∀ r ∈ m, ∀ id, r.serialized = some id → items[id]? = some (sectionItem r)

variable {m : InodeMap}

theorem SectionsOk.mono (h : items <+: items') (hm : SectionsOk items m) : SectionsOk items' m :=
  fun r hr id hid => getElem?_mono h (hm r hr id hid)

/-- What the serialization of the ranges does. -/
structure SectionsWritten (items : List Item) (m : InodeMap)
    (r : List Item × InodeMap) : Prop where
  isPrefix : items <+: r.1
  heap : HeapOk items → (∀ {k x : Nat}, MapEntry m k x → IsInodeOf items k x) → HeapOk r.1
  inode : ∀ {k id : Nat}, IsInodeOf r.1 k id → IsInodeOf items k id
  sections : SectionsOk items m → SectionsOk r.1 r.2
  written : ∀ r' ∈ r.2, ∃ id, r'.serialized = some id
  kept : ∀ r' ∈ r.2, ∀ id, r'.serialized = some id → id < items.length → r' ∈ m
  ranges : r.2.map (fun r' => (r'.start, r'.stop, r'.entries)) =
    m.map fun r' => (r'.start, r'.stop, r'.entries)

theorem SectionsWritten.nil (items : List Item) :
    SectionsWritten items [] (serializeSections items []) where
  isPrefix := prefix_rfl
  heap := fun h _ => h
  inode := fun h => h
  sections := fun h => h
  written := by simp [serializeSections]
  kept := by simp [serializeSections]
  ranges := rfl

/-- A range with a current section is left alone. -/
theorem SectionsWritten.cons_current {range : InodeMapRange} {r : List Item × InodeMap}
    (h : SectionsWritten items m r) {id : Nat} (hid : range.serialized = some id) :
    SectionsWritten items (range :: m) (r.1, range :: r.2) where
  isPrefix := h.isPrefix
  heap := fun hheap hentry => h.heap hheap fun ⟨r', hr', he⟩ =>
    hentry ⟨r', mem_cons_of_mem _ hr', he⟩
  inode := h.inode
  sections := by
    intro hm r' hr' id' hid'
    rcases mem_cons.mp hr' with rfl | hr'
    · exact getElem?_mono h.isPrefix (hm r' mem_cons_self id' hid')
    · exact h.sections (fun r'' hr'' => hm r'' (mem_cons_of_mem _ hr'')) r' hr' id' hid'
  written := by
    intro r' hr'
    rcases mem_cons.mp hr' with rfl | hr'
    · exact ⟨id, hid⟩
    · exact h.written r' hr'
  kept := by
    intro r' hr' id' hid' hlt
    rcases mem_cons.mp hr' with rfl | hr'
    · exact mem_cons_self
    · exact mem_cons_of_mem _ (h.kept r' hr' id' hid' hlt)
  ranges := by rw [map_cons, map_cons, h.ranges]

/-- A range without a current section gets a new one. -/
theorem SectionsWritten.cons_new {range : InodeMapRange} {r : List Item × InodeMap}
    (h : SectionsWritten (items ++ [sectionItem range]) m r) :
    SectionsWritten items (range :: m)
      (r.1, { range with serialized := some items.length } :: r.2) where
  isPrefix := (prefix_append _ _).trans h.isPrefix
  heap := by
    intro hheap hentry
    apply h.heap
    · refine hheap.snoc ?_ (by simp [sectionItem, Payload.isInode])
      intro j hj
      rcases List.mem_map.mp hj with ⟨entry, hentry', hj⟩
      rcases hentry ⟨range, mem_cons_self, hentry'⟩ with ⟨target, htarget, hinode, -⟩
      rw [← some.inj hj]
      refine ⟨target, htarget, ?_⟩
      cases hpayload : target.payload with
      | inode image => rfl
      | _ =>
        rw [hpayload] at hinode
        cases hinode
    · rintro k x ⟨r', hr', he⟩
      exact (hentry ⟨r', mem_cons_of_mem _ hr', he⟩).mono (prefix_append _ _)
  inode := by
    intro k id hinode
    rcases isInodeOf_snoc.mp (h.inode hinode) with hold | ⟨-, hnew, -⟩
    · exact hold
    · cases hnew
  sections := by
    intro hm r' hr' id' hid'
    rcases mem_cons.mp hr' with rfl | hr'
    · rw [← some.inj hid']
      exact getElem?_mono h.isPrefix (by simp; rfl)
    · refine h.sections (fun r'' hr'' id'' hid'' => ?_) r' hr' id' hid'
      exact getElem?_mono (prefix_append _ _) (hm r'' (mem_cons_of_mem _ hr'') id'' hid'')
  written := by
    intro r' hr'
    rcases mem_cons.mp hr' with rfl | hr'
    · exact ⟨items.length, rfl⟩
    · exact h.written r' hr'
  kept := by
    intro r' hr' id' hid' hlt
    rcases mem_cons.mp hr' with rfl | hr'
    · rw [← some.inj hid'] at hlt
      exact absurd hlt (lt_irrefl _)
    · refine mem_cons_of_mem _ (h.kept r' hr' id' hid' ?_)
      rw [length_append]
      exact Nat.lt_of_lt_of_le hlt (Nat.le_add_right _ _)
  ranges := by rw [map_cons, map_cons, h.ranges]

/-- After the serialization of the inode map each range has a section that lists its
entries. -/
theorem serializeSections_spec (items : List Item) (m : InodeMap) :
    SectionsWritten items m (serializeSections items m) := by
  induction m generalizing items with
  | nil => exact SectionsWritten.nil items
  | cons range m ih =>
    rw [serializeSections]
    cases hserialized : range.serialized with
    | some id => exact (ih items).cons_current hserialized
    | none => exact (ih _).cons_new

/-- Sections do not matter for the shape of the map. -/
theorem mapEntry_of_ranges {m' : InodeMap} (h : m'.map (fun r => (r.start, r.stop, r.entries)) =
      m.map fun r => (r.start, r.stop, r.entries)) {k x : Nat} :
    MapEntry m' k x ↔ MapEntry m k x := by
  have hentries : m'.map InodeMapRange.entries = m.map InodeMapRange.entries := by
    have := congrArg (List.map fun p : Nat × Nat × List (Nat × Nat) => p.2.2) h
    simpa [List.map_map, Function.comp_def] using this
  have hmem : ∀ n : InodeMap, MapEntry n k x ↔ ∃ es ∈ n.map InodeMapRange.entries, (k, x) ∈ es := by
    intro n
    simp [MapEntry]
  rw [hmem, hmem, hentries]

theorem InodeMapOk.of_ranges {m' : InodeMap} (hm : InodeMapOk m)
    (h : m'.map (fun r => (r.start, r.stop, r.entries)) =
      m.map fun r => (r.start, r.stop, r.entries)) : InodeMapOk m' := by
  have hmem : ∀ r' ∈ m', ∃ r ∈ m, r.start = r'.start ∧ r.stop = r'.stop ∧
      r.entries = r'.entries := by
    intro r' hr'
    have := List.mem_map_of_mem (f := fun r : InodeMapRange => (r.start, r.stop, r.entries)) hr'
    rw [h] at this
    rcases List.mem_map.mp this with ⟨r, hr, heq⟩
    exact ⟨r, hr, congrArg (·.1) heq, congrArg (·.2.1) heq, congrArg (·.2.2) heq⟩
  have hstarts : m'.map InodeMapRange.start = m.map InodeMapRange.start := by
    have := congrArg (List.map fun p : Nat × Nat × List (Nat × Nat) => p.1) h
    simpa [List.map_map, Function.comp_def] using this
  constructor
  · intro r' hr'
    rcases hmem r' hr' with ⟨r, hr, hstart, -, -⟩
    rw [← hstart]
    exact hm.start_aligned r hr
  · intro r' hr'
    rcases hmem r' hr' with ⟨r, hr, hstart, hstop, -⟩
    rw [← hstart, ← hstop]
    exact hm.stop_eq r hr
  · have hpairs := hm.sorted
    rw [← pairwise_map, ← hstarts, pairwise_map] at hpairs
    exact hpairs
  · intro r' hr'
    rcases hmem r' hr' with ⟨r, hr, hstart, hstop, hentries⟩
    rw [← hstart, ← hstop, ← hentries]
    exact hm.inside r hr
  · intro r' hr'
    rcases hmem r' hr' with ⟨r, hr, -, -, hentries⟩
    rw [← hentries]
    exact hm.keys r hr

/-! ## The journal -/

/-- The log thread keeps the order of the items. -/
theorem order_writeNext {log log' : JournalLog} (h : log.writeNext items = some log') :
    log'.order = log.order := by
  unfold JournalLog.writeNext at h
  cases hqueue : log.queue with
  | nil =>
    rw [hqueue] at h
    cases h
  | cons id queue =>
    rw [hqueue] at h
    dsimp only at h
    rw [← some.inj h]
    split_ifs <;>
      simp [JournalLog.order, JournalLog.append, JournalLog.open, JournalLog.commit, hqueue]

@[simp]
theorem order_submit (log : JournalLog) (ids : List Nat) :
    (log.submit ids).order = log.order ++ ids := by
  simp [JournalLog.order, JournalLog.submit]

/-! ## When steps are enabled, and what they change -/

/-- The steps of the threads, with the conditions under which they are enabled.  The inode map is
only written if one of its ranges has changed. -/
inductive Stepped (s : ProxyState) : Event → ProxyState → Prop
  | modify {inum : Nat} {image : InodeImage} {blocks : List MemBlock} (hinum : inum < 2 ^ 64)
      (hlocked : s.locked inum = false) (hfits : image.fits blocks)
      (hrefs : ∀ id, .ref id ∈ blocks → ∃ old, s.inodes inum = some old ∧ .ref id ∈ old.blocks)
      (inode : MemInode) (hblocks : inode.blocks = blocks) (hbody : inode.image.body = image.body)
      (hcommitted : inode.committedItem = (s.inodes inum).bind MemInode.committedItem) :
      Stepped s (.modify inum image blocks) { s with inodes := update s.inodes inum (some inode) }
  | startSync {inum : Nat} (inode : MemInode) (r : List Item × List MemBlock × List Nat)
      (hinode : s.inodes inum = some inode) (hlocked : s.locked inum = false)
      (hr : r = fileFlushBlocks inum s.items inode.blocks)
      (hflushed : FlushedBlocks s.items inode.blocks r) :
      Stepped s (.startSync inum) { s with
        items := r.1 ++ [serializeInode inum inode.image r.2.1]
        inodes := update s.inodes inum (some { inode with
          blocks := r.2.1, committedItem := some r.1.length })
        syncs := { inum := inum, blockItems := r.2.2, item := r.1.length } :: s.syncs
        log := s.log.submit (r.2.2 ++ [r.1.length]) }
  | finishSync {inum : Nat} (t : SyncThread) (inode : MemInode) (ht : t ∈ s.syncs)
      (hinum : t.inum = inum) (hinode : s.inodes inum = some inode)
      (hcommitted : ∀ id ∈ t.blockItems ++ [t.item], s.log.isCommitted id)
      (hflushd : ∀ marker, s.flushd ≠ .waiting marker) :
      Stepped s (.finishSync inum) { s with
        inodes := update s.inodes inum (some { inode with
          changeCommit := inode.image.changeCount, changeCloud := inode.image.changeCount })
        syncs := s.syncs.erase t
        dirtyList := inum :: s.dirtyList.erase inum
        synced := update s.synced inum (some (inode.view s.items)) }
  | logWrite (log : JournalLog) (hlog : s.log.writeNext s.items = some log) :
      Stepped s .logWrite { s with log := log }
  | logCommit : Stepped s .logCommit { s with log := s.log.commit }
  | getCommitPoint (hflushd : s.flushd = .idle) :
      Stepped s .getCommitPoint { s with
        items := s.items ++ [{ payload := .journalMarker, inum := 0, links := [] }]
        log := s.log.submit [s.items.length]
        flushd := .waiting s.items.length }
  | readSeqNum (marker : Nat) (hflushd : s.flushd = .waiting marker)
      (hmarker : marker ∈ s.log.queue ∨ s.log.isCommitted marker) :
      Stepped s .readSeqNum { s with flushd := .draining marker s.log.seqNum }
  | drain {inum : Nat} (marker start : Nat) (inode : MemInode)
      (hflushd : s.flushd = .draining marker start) (hinode : s.inodes inum = some inode)
      (hdirty : inum ∈ s.dirtyList) (hlocked : s.locked inum = false) :
      Stepped s (.drain inum) { s with
        dirtyList := s.dirtyList.erase inum
        inodes := update s.inodes inum (some { inode with committedItem := none })
        cloud := inode.committedItem.elim s.cloud
          (cloudlogSerialize s.items s.items.length s.cloud) }
  | endDrain (marker start : Nat) (hflushd : s.flushd = .draining marker start)
      (hdirty : s.dirtyList = []) :
      Stepped s .endDrain { s with flushd := .serializing marker start }
  | writeMap (marker start : Nat) (hflushd : s.flushd = .serializing marker start)
      (r : List Item × InodeMap) (hchanged : ∃ range ∈ s.cloud.inodeMap, range.serialized = none)
      (hr : r = serializeSections s.items s.cloud.inodeMap)
      (hsec : SectionsWritten s.items s.cloud.inodeMap r) :
      Stepped s .writeMap { s with
        items := r.1 ++ [checkpointItem s.cloud.latestCleanerSeqSeen r.2]
        cloud := cloudlogFlush (cloudlogSerialize
          (r.1 ++ [checkpointItem s.cloud.latestCleanerSeqSeen r.2]) (r.1.length + 1)
          { s.cloud with inodeMap := r.2 } r.1.length)
        flushd := .uploading marker start }
  | keepMap (marker start : Nat) (hflushd : s.flushd = .serializing marker start)
      (hsame : ∀ range ∈ s.cloud.inodeMap, range.serialized ≠ none) :
      Stepped s .writeMap { s with
        cloud := cloudlogFlush s.cloud
        flushd := .uploading marker start }
  | putComplete {n : Nat} (hn : n < s.cloud.segments.length) (hnew : n ∉ s.cloud.stored) :
      Stepped s (.putComplete n) { s with
        cloud := { s.cloud with stored := n :: s.cloud.stored } }
  | writeCommitPoint (marker start : Nat) (hflushd : s.flushd = .uploading marker start)
      (hstored : ∀ n < s.cloud.segments.length, n ∈ s.cloud.stored) :
      Stepped s .writeCommitPoint { s with
        items := s.items ++
          [{ payload := .journalCheckpoint (s.log.position marker).1 (s.log.position marker).2
             inum := 0, links := [] }]
        log := s.log.submit [s.items.length]
        flushd := .committing start s.items.length
        flushBase := s.cloud.segments.length }
  | finishFlush (start commit : Nat) (hflushd : s.flushd = .committing start commit)
      (hcommit : s.log.isCommitted commit) :
      Stepped s .finishFlush { s with
        log := { s.log with journalWatermark := start }
        flushd := .idle }
  | gc {n : Nat} (hn : n < s.log.journalWatermark) :
      Stepped s (.gc n) { s with log := { s.log with unlinked := n :: s.log.unlinked } }

section Cases

variable {s s' : ProxyState} {inum : Nat}

theorem stepped_modify {image : InodeImage} {blocks : List MemBlock}
    (h : s.modify inum image blocks = some s') : Stepped s (.modify inum image blocks) s' := by
  unfold ProxyState.modify at h
  dsimp only at h
  split_ifs at h with hguard
  rcases hguard with ⟨hinum, hlocked, hfits, hrefs⟩
  rw [← some.inj h]
  refine .modify hinum hlocked hfits ?_ _ rfl rfl ?_
  · intro id hid
    have hmem := hrefs (.ref id) hid (by simp [MemBlock.link])
    cases hold : s.inodes inum with
    | none =>
      rw [hold] at hmem
      cases hmem
    | some old =>
      rw [hold] at hmem
      exact ⟨old, rfl, hmem⟩
  · cases s.inodes inum with
    | none => rfl
    | some old => rfl

/-- The new blocks and the inode become items and are queued. -/
theorem stepped_startSync (h : s.startSync inum = some s') : Stepped s (.startSync inum) s' := by
  unfold ProxyState.startSync at h
  cases hinode : s.inodes inum with
  | none =>
    rw [hinode] at h
    cases h
  | some inode =>
    rw [hinode] at h
    dsimp only at h
    split_ifs at h with hlocked
    rw [← some.inj h]
    exact .startSync inode _ hinode (by simpa using hlocked) rfl (fileFlushBlocks_spec _ _ _)

theorem stepped_finishSync (h : s.finishSync inum = some s') :
    Stepped s (.finishSync inum) s' := by
  unfold ProxyState.finishSync at h
  split at h
  · rename_i t inode hfind hinode
    dsimp only at h
    split_ifs at h with hguard
    rw [← some.inj h]
    refine .finishSync t inode (mem_of_find?_eq_some hfind)
      (by simpa using find?_some hfind) hinode (List.all_eq_true.mp hguard.1) ?_
    intro marker hwaiting
    rw [hwaiting] at hguard
    exact absurd hguard.2 (by simp)
  · cases h

/-- The daemon takes an inode that nobody has locked. -/
theorem stepped_drain (h : s.drain inum = some s') : Stepped s (.drain inum) s' := by
  unfold ProxyState.drain at h
  split at h
  · rename_i marker start inode hflushd hinode
    split_ifs at h with hguard
    rw [← some.inj h]
    exact .drain marker start inode hflushd hinode hguard.1 hguard.2.1
  · cases h

theorem stepped_writeMap (h : s.writeMap = some s') : Stepped s .writeMap s' := by
  unfold ProxyState.writeMap at h
  split at h
  · rename_i marker start hflushd
    split_ifs at h with hany
    · have hwritten := Stepped.writeMap marker start hflushd _ (by simpa using hany) rfl
        (serializeSections_spec _ _)
      rw [← some.inj h]
      simpa using hwritten
    · rw [← some.inj h]
      exact .keepMap marker start hflushd (by simpa [eq_none_iff_forall_not_mem] using hany)
  · cases h

/-- What a step does. -/
theorem stepped {e : Event} (h : step s e = some s') : Stepped s e s' := by
  cases e with
  | modify inum image blocks => exact stepped_modify h
  | startSync inum => exact stepped_startSync h
  | finishSync inum => exact stepped_finishSync h
  | logWrite =>
    rcases map_eq_some_iff.mp h with ⟨log, hlog, rfl⟩
    exact .logWrite log hlog
  | logCommit =>
    rw [← some.inj h]
    exact .logCommit
  | drain inum => exact stepped_drain h
  | writeMap => exact stepped_writeMap h
  | getCommitPoint =>
    rw [step, getCommitPoint] at h
    split at h
    · rename_i hflushd
      rw [← some.inj h]
      exact .getCommitPoint hflushd
    · cases h
  | readSeqNum =>
    rw [step, readSeqNum] at h
    split at h
    · rename_i marker hflushd
      split_ifs at h with hguard
      rw [← some.inj h]
      exact .readSeqNum marker hflushd hguard
    · cases h
  | endDrain =>
    rw [step, endDrain] at h
    split at h
    · rename_i marker start hflushd
      split_ifs at h with hguard
      rw [← some.inj h]
      exact .endDrain marker start hflushd hguard
    · cases h
  | putComplete n =>
    rw [step, putComplete] at h
    split_ifs at h with hguard
    rw [← some.inj h]
    exact .putComplete hguard.1 hguard.2
  | writeCommitPoint =>
    rw [step, writeCommitPoint] at h
    split at h
    · rename_i marker start hflushd
      split_ifs at h with hguard
      rw [← some.inj h]
      exact .writeCommitPoint marker start hflushd (by simpa [ProxyState.uploaded] using hguard)
    · cases h
  | finishFlush =>
    rw [step, finishFlush] at h
    split at h
    · rename_i start commit hflushd
      split_ifs at h with hguard
      rw [← some.inj h]
      exact .finishFlush start commit hflushd hguard
    · cases h
  | gc n =>
    rw [step, gc] at h
    split_ifs at h with hguard
    rw [← some.inj h]
    exact .gc hguard.1

end Cases

end BlueSky
