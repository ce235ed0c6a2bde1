import BlueSky.Proxy.Steps

/-!
# What the flush daemon adds to the cloud log

The flush daemon writes the versions of inodes, each behind its blocks, and at the end the
sections of the inode map that have changed and a checkpoint that leads to all sections.

Main results:

- Theorem {lit}`drained_spec`: writing a version of an inode.
- Theorem {lit}`mapWritten_spec`: writing the inode map.
-/

namespace BlueSky

open List Option ProxyState

/-! ## Inodes -/

/-- Serializing a version of an inode that is not in the cloud log. -/
theorem drained_spec {items : List Item} (hheap : HeapOk items) {c : CloudLogState}
    (hc : CloudOk items c) {k x : Nat} (hx : IsInodeOf items k x)
    (hnone : c.location x = none) :
    Serializes items (fun j => j = x ∨ IsLeaf items j) c x
        (cloudlogSerialize items items.length c x) ∧
      (cloudlogSerialize items items.length c x).inodeMap = inodeMapInsert c.inodeMap k x := by
  rcases hx with ⟨item, hitem, hinode, rfl⟩
  have hlt := lt_length_of_getElem? hitem
  exact ⟨cloudlogSerialize_spec hheap _ hc (linkClosed_inode hheap c hitem hinode)
      (Or.inl rfl) hlt hlt,
    cloudlogSerialize_inode hheap hc hitem hinode hnone hlt⟩

/-! ## The inode map -/

/-- The items that the serialization of a checkpoint may add: the checkpoint and the sections
of the inode map. -/
def MapItem (items : List Item) (m : InodeMap) (id : Nat) : Prop :=
  id = items.length ∨ ∃ r ∈ m, r.serialized = some id

/-- What writing the inode map does. -/
structure MapWritten (items : List Item) (m : InodeMap) (items' : List Item)
    (c c' : CloudLogState) : Prop where
  heap : HeapOk items'
  ok : CloudOk items' c'
  grows : Grows items' (MapItem items m) c c'
  inodeMap : c'.inodeMap = m
  last : ∃ rest checkpoint, c'.log = c.log ++ rest ++ [checkpoint] ∧
    (∀ object ∈ rest, object.payload.isCheckpoint = false) ∧
    checkpoint.payload.isCheckpoint ∧ checkpoint.id = items.length ∧
    ∀ r ∈ m, ∀ id, r.serialized = some id → ∃ l, some (id, l) ∈ checkpoint.links

section Checkpoint

variable {items : List Item} {c : CloudLogState} {r : List Item × InodeMap}

/-- The checkpoint can be created. -/
theorem SectionsWritten.heap_checkpoint (hr : SectionsWritten items c.inodeMap r)
    (hheap : HeapOk items) (hc : CloudOk items c) (hsections : SectionsOk items c.inodeMap)
    (seen : Int) : HeapOk (r.1 ++ [checkpointItem seen r.2]) := by
  refine (hr.heap hheap fun hentry => (hc.mapped hentry).2).snoc ?_
    (by simp [checkpointItem, Payload.isInode])
  intro j hj
  rcases List.mem_map.mp hj with ⟨range, hrange, hj⟩
  exact ⟨sectionItem range, hr.sections hsections range hrange j hj, rfl⟩

theorem SectionsWritten.cloudOk (hr : SectionsWritten items c.inodeMap r)
    (hc : CloudOk items c) (seen : Int) :
    CloudOk (r.1 ++ [checkpointItem seen r.2]) { c with inodeMap := r.2 } := by
  have hc' := hc.mono (hr.isPrefix.trans (prefix_append r.1 [checkpointItem seen r.2]))
  exact ⟨hc'.placed, hc'.listed, hc'.nonempty, hc'.mapOk.of_ranges hr.ranges,
    fun hentry => hc'.mapped ((mapEntry_of_ranges hr.ranges).mp hentry)⟩

/-- The checkpoint leads to the sections, and the sections to inodes that are in the log. -/
theorem SectionsWritten.linkClosed (hr : SectionsWritten items c.inodeMap r)
    (hc : CloudOk items c) (hsections : SectionsOk items c.inodeMap) (seen : Int) :
    LinkClosed (r.1 ++ [checkpointItem seen r.2])
      (fun j => MapItem r.1 r.2 j ∨ ∃ l, c.location j = some l)
      { c with inodeMap := r.2 } := by
  intro id item hid hnone hitem j hj
  rcases hid with (rfl | ⟨range, hrange, hid⟩) | ⟨l, hl⟩
  · rw [getElem?_concat_length] at hitem
    rw [← some.inj hitem] at hj
    rcases List.mem_map.mp hj with ⟨range, hrange, hj⟩
    exact Or.inl (Or.inr ⟨range, hrange, hj⟩)
  · have hsection := getElem?_mono (prefix_append r.1 [checkpointItem seen r.2])
      (hr.sections hsections range hrange id hid)
    rw [hitem] at hsection
    rw [some.inj hsection] at hj
    rcases List.mem_map.mp hj with ⟨entry, hentry, hj⟩
    rw [← some.inj hj]
    have hold : MapEntry c.inodeMap entry.1 entry.2 :=
      (mapEntry_of_ranges hr.ranges).mp ⟨range, hrange, hentry⟩
    exact Or.inr (hc.mapped hold).1
  · rw [hl] at hnone
    cases hnone

/-- The sections are neither inodes nor checkpoints. -/
theorem SectionsWritten.section_plain (hr : SectionsWritten items c.inodeMap r)
    (hsections : SectionsOk items c.inodeMap) {seen : Int} {range : InodeMapRange}
    (hrange : range ∈ r.2) {id : Nat} (hid : range.serialized = some id) {item : Item}
    (hitem : (r.1 ++ [checkpointItem seen r.2])[id]? = some item) :
    item.payload.isInode = false ∧ item.payload.isCheckpoint = false := by
  have hsection := getElem?_mono (prefix_append r.1 [checkpointItem seen r.2])
    (hr.sections hsections range hrange id hid)
  rw [hitem] at hsection
  rw [some.inj hsection]
  exact ⟨rfl, rfl⟩

theorem mapWritten_spec (hheap : HeapOk items) (hc : CloudOk items c)
    (hsections : SectionsOk items c.inodeMap) (hr : SectionsWritten items c.inodeMap r)
    (seen : Int) :
    MapWritten r.1 r.2 (r.1 ++ [checkpointItem seen r.2]) { c with inodeMap := r.2 }
      (cloudlogSerialize (r.1 ++ [checkpointItem seen r.2]) (r.1.length + 1)
        { c with inodeMap := r.2 } r.1.length) := by
  have hheap' := hr.heap_checkpoint hheap hc hsections seen
  have hok := hr.cloudOk hc seen
  have hclosed := hr.linkClosed hc hsections seen
  have hck : (r.1 ++ [checkpointItem seen r.2])[r.1.length]? =
      some (checkpointItem seen r.2) := getElem?_concat_length
  have hnone : c.location r.1.length = none :=
    hc.location_eq_none hr.isPrefix.length_le
  have hspec := cloudlogSerialize_spec hheap' (r.1.length + 1) hok hclosed
    (Or.inl (Or.inl rfl)) (Nat.lt_succ_self _) (by simp)
  rcases cloudlogSerialize_targets hheap' hok hclosed (Or.inl (Or.inl rfl))
    (Nat.lt_succ_self _) hck hnone with ⟨c₁, htargets, heq⟩
  have hfresh : ∀ {id : Nat}, c.location id = none →
      (MapItem r.1 r.2 id ∨ ∃ l, c.location id = some l) → MapItem r.1 r.2 id := by
    intro id hidnone hid
    rcases hid with hid | ⟨l, hl⟩
    · exact hid
    · rw [hl] at hidnone
      cases hidnone
  have hgrows : Grows (r.1 ++ [checkpointItem seen r.2]) (MapItem r.1 r.2)
      { c with inodeMap := r.2 }
      (cloudlogSerialize (r.1 ++ [checkpointItem seen r.2]) (r.1.length + 1)
        { c with inodeMap := r.2 } r.1.length) := by
    have h := hspec.grows
    refine ⟨h.stored, h.seen, h.disable, h.closed, h.segments, h.location,
      fun hnone hsome => hfresh hnone (h.fresh hnone hsome), ?_⟩
    rcases h.objects with ⟨objects, hlog, hmap, hobjects⟩
    exact ⟨objects, hlog, hmap, fun object hobject =>
      ⟨hfresh (hobjects object hobject).2.1 (hobjects object hobject).1,
        (hobjects object hobject).2⟩⟩
  refine ⟨hheap', hspec.ok, hgrows, ?_, ?_⟩
  · rcases hgrows.objects with ⟨objects, -, hmap, hobjects⟩
    rw [hmap]
    apply foldl_noteObject_of_not_inode
    intro object hobject
    rcases hobjects object hobject with ⟨hid, -, item, hitem, hpayload, -⟩
    rw [hpayload]
    rcases hid with hid | ⟨range, hrange, hid⟩
    · rw [hid, hck] at hitem
      rw [← some.inj hitem]
      rfl
    · exact (hr.section_plain hsections hrange hid hitem).1
  · rcases htargets.grows.objects with ⟨objects, hlog, -, hobjects⟩
    refine ⟨objects, c₁.object r.1.length (checkpointItem seen r.2), ?_, ?_, rfl, rfl, ?_⟩
    · rw [heq, log_cloudlogFlushFull, ← hlog]
      simp [CloudLogState.log, cloudlogAppend]
    · intro object hobject
      rcases hobjects object hobject with ⟨⟨hid, hlt⟩, hidnone, item, hitem, hpayload, -⟩
      rw [hpayload]
      rcases hfresh hidnone hid with hid | ⟨range, hrange, hid⟩
      · exact absurd hid (Nat.ne_of_lt hlt)
      · exact (hr.section_plain hsections hrange hid hitem).2
    · intro range hrange id hid
      refine ⟨(c₁.linkTo id).2, ?_⟩
      refine List.mem_map.mpr ⟨some id, ?_, rfl⟩
      exact List.mem_map.mpr ⟨range, hrange, hid⟩

end Checkpoint

end BlueSky
