import BlueSky.Proxy.WriteAhead

/-!
# The queue of the log thread

An item whose data are queued for the journal is locked in memory.  An item that is in the cloud
log is never in this queue: versions of inodes and their blocks have been committed to the journal
before, and the other items of the cloud log are not journaled at all.

Main results:

- Theorem {lit}`isJournaled_step`: only items of the journaled types are queued.
- Theorem {lit}`queueInv_step`: what is in the cloud log is not in the queue.
-/

namespace BlueSky

open List

/-! ## Journaled items -/

/-- The item is of a type that is journaled. -/
def IsJournaled (items : List Item) (id : Nat) : Prop :=
  ∃ item, items[id]? = some item ∧ item.payload.isJournaled = true

theorem IsJournaled.mono {items items' : List Item} (hitems : items <+: items') {id : Nat}
    (h : IsJournaled items id) : IsJournaled items' id := by
  rcases h with ⟨item, hitem, hjournaled⟩
  exact ⟨item, getElem?_mono hitems hitem, hjournaled⟩

/-- Flushing the blocks of a file makes data items. -/
theorem isJournaled_fileFlushBlocks {inum : Nat} {items : List Item} {blocks : List MemBlock}
    {id : Nat} (h : id ∈ (fileFlushBlocks inum items blocks).2.2) :
    IsJournaled (fileFlushBlocks inum items blocks).1 id := by
  induction blocks generalizing items with
  | nil => cases h
  | cons block blocks ih =>
    cases block with
    | zero => exact ih h
    | ref id' => exact ih h
    | dirty bytes =>
      rcases mem_cons.mp h with rfl | h
      · have hspec := fileFlushBlocks_spec inum
          (items ++ [{ payload := .data bytes, inum := inum, links := [] }]) blocks
        exact ⟨_, getElem?_mono hspec.isPrefix getElem?_concat_length, rfl⟩
      · exact ih h

/-! ## The steps -/

section Queue

open ProxyState

variable {s s' : ProxyState}

variable {e : Event}

/-- Only items of the journaled types are given to the log thread. -/
theorem isJournaled_step (h : ∀ id ∈ s.log.order, IsJournaled s.items id)
    (hstep : step s e = some s') : ∀ id ∈ s'.log.order, IsJournaled s'.items id := by
  have hitems := items_step hstep
  have hsame : s'.log.order = s.log.order → ∀ id ∈ s'.log.order, IsJournaled s'.items id := by
    intro horder id hid
    rw [horder] at hid
    exact (h id hid).mono hitems
  -- The new items of the steps that queue some.
  have hmore : ∀ {ids : List Nat}, s'.log = s.log.submit ids →
      (∀ id ∈ ids, IsJournaled s'.items id) → ∀ id ∈ s'.log.order, IsJournaled s'.items id := by
    intro ids hlog hids id hid
    rw [hlog, order_submit] at hid
    rcases mem_append.mp hid with hid | hid
    · exact (h id hid).mono hitems
    · exact hids id hid
  cases stepped hstep with
  | startSync inode r _ _ hr =>
    refine hmore rfl ?_
    intro id hid
    rcases mem_append.mp hid with hid | hid
    · rw [hr] at hid ⊢
      exact (isJournaled_fileFlushBlocks hid).mono (prefix_append _ _)
    · rw [mem_singleton.mp hid]
      exact ⟨_, getElem?_concat_length, rfl⟩
  | logWrite log hlog =>
    exact hsame (order_writeNext hlog)
  | getCommitPoint =>
    refine hmore rfl ?_
    intro id hid
    rw [mem_singleton.mp hid]
    exact ⟨_, getElem?_concat_length, rfl⟩
  | writeCommitPoint marker start =>
    refine hmore rfl ?_
    intro id hid
    rw [mem_singleton.mp hid]
    exact ⟨_, getElem?_concat_length, rfl⟩
  | _ => exact hsame rfl

/-- What is in the journal is not in the queue any more. -/
theorem CoreInv.not_mem_queue (h : CoreInv s) {entry : JournalEntry}
    (hentry : entry ∈ s.log.entries) : entry.id ∉ s.log.queue := by
  have hdisjoint := (nodup_append.mp h.order_nodup).2.2
  intro hmem
  exact hdisjoint _ (mem_map.mpr ⟨entry, hentry, rfl⟩) _ hmem rfl

theorem CoreInv.not_mem_queue_of_isCommitted (h : CoreInv s) {id : Nat}
    (hid : s.log.isCommitted id = true) : id ∉ s.log.queue := by
  rcases any_eq_true.mp hid with ⟨entry, hentry, heq⟩
  rw [← of_decide_eq_true heq]
  exact h.not_mem_queue (mem_of_mem_take hentry)

/-- What is in the cloud log is not in the queue of the log thread. -/
structure QueueInv (s : ProxyState) : Prop where
  ordered : ∀ id ∈ s.log.order, IsJournaled s.items id
  located : ∀ {id : Nat} {l : Location}, s.cloud.location id = some l → id ∉ s.log.queue

theorem queueInv_start (disableAggregation : Bool) : QueueInv (start disableAggregation) where
  ordered := nofun
  located := nofun

/-- An item that a step appends to the cloud log. -/
theorem not_mem_queue_of_appended (h : WriteAheadInv s)
    (hordered : ∀ id ∈ s'.log.order, IsJournaled s'.items id) (hstep : step s e = some s')
    {id : Nat} {l : Location} (hnone : s.cloud.location id = none)
    (hl : s'.cloud.location id = some l) :
    id ∉ s'.log.queue := by
  have h' := writeAheadInv_step h hstep
  rcases appends_step h.core hstep with ⟨objects, hlog, hobjects⟩
  rcases h'.core.cloud.placed hl with ⟨item, hitem, -, hat, -⟩
  -- The record of the item is new in the log.
  have hnew : s'.cloud.object id item ∈ objects := by
    have hmem : s'.cloud.object id item ∈ s'.cloud.log := CloudLogState.At.mem_log hat
    rw [hlog] at hmem
    rcases mem_append.mp hmem with hold | hnew
    · rcases h.core.cloud.of_mem_log hold with ⟨l', hl', -⟩
      change s.cloud.location id = some l' at hl'
      rw [hnone] at hl'
      cases hl'
    · exact hnew
  intro hqueue
  rcases hordered id (mem_append_right _ hqueue) with ⟨item', hitem', hjournaled⟩
  rw [hitem, Option.some_inj] at hitem'
  subst hitem'
  rcases hobjects _ hnew hjournaled with ⟨x, taken, htakes, hid⟩
  rcases h.first.of_takes htakes with ⟨hcommitted, hlinks⟩
  have hsaved : s.log.isCommitted id = true := by
    rcases hid with hid | hid
    · rw [show id = x from hid]
      exact hcommitted
    · exact hlinks id hid
  exact h'.core.not_mem_queue_of_isCommitted
    (isCommitted_mono (advances_step h.positions.committed hstep) hsaved) hqueue

/-- What enters the queue is new. -/
theorem mem_queue_or_new (h' : CoreInv s') (hadv : Advances s s') {id : Nat}
    (hid : id ∈ s'.log.queue) : id ∈ s.log.queue ∨ s.items.length ≤ id := by
  rcases hadv.order with ⟨ids, horder, hnew⟩
  have hmem : id ∈ s.log.order ++ ids := by
    rw [← horder]
    exact mem_append_right _ hid
  rcases mem_append.mp hmem with hold | hids
  · rcases mem_append.mp hold with hentries | hqueue
    · -- It would be in the journal and in the queue.
      rcases mem_map.mp hentries with ⟨entry, hentry, rfl⟩
      exact absurd hid (h'.not_mem_queue (hadv.entries.subset hentry))
    · exact Or.inl hqueue
  · exact Or.inr (hnew id hids)

theorem queueInv_step (h : QueueInv s) (hahead : WriteAheadInv s) (hstep : step s e = some s') :
    QueueInv s' := by
  have hordered := isJournaled_step h.ordered hstep
  refine ⟨hordered, ?_⟩
  intro id l hl hqueue
  cases hold : s.cloud.location id with
  | none => exact not_mem_queue_of_appended hahead hordered hstep hold hl hqueue
  | some l' =>
    have hadv := advances_step hahead.positions.committed hstep
    rcases mem_queue_or_new (coreInv_step hahead.core hstep) hadv hqueue with hbefore | hnew
    · exact h.located hold hbefore
    · rw [hahead.core.cloud.location_eq_none hnew] at hold
      cases hold

end Queue

end BlueSky
