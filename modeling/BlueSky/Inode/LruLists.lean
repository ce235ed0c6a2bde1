import BlueSky.Lib.DoublyLinked
import BlueSky.Lib.Transition

/-!
# The lists of inodes

`unlogged_list`, `dirty_list` and `accessed_list` of a file system are lists of GLib with a head
that also has a pointer to the last node, which the functions of GLib do not know and which
`bluesky_list_unlink` and `bluesky_list_prepend` keep up.  Each inode has pointers to its nodes.

Main results:

- Theorem {lit}`listUnlink_eq`, {lit}`listPrepend_eq`, {lit}`listAppend_eq`: what the functions do
  to the list that a head represents.
- Theorem {lit}`LruInv.unlink`, {lit}`LruInv.prepend`: what their callers do to the pointers.
- Theorem {lit}`lru_lists_sound`: the lists and the pointers agree in all runs.
-/

namespace BlueSky

open Function List Option DoublyLinkedLib TransitionLib

/-! ## Lists -/

/-- The nodes that exist, and how many have been allocated. -/
structure GHeap where
  nodes : Heap Nat Nat
  allocations : Nat

/-- `bluesky_list_unlink`; the result is {lean}`none` if a pointer is followed to no node. -/
def listUnlink (h : GHeap) (head : Head Nat) : Option Nat → Option (GHeap × Head Nat)
  | none => some (h, head)
  | some item =>
    (if head.prev = some item then (h.nodes item).map Node.prev else some head.prev).bind
      fun prev =>
        (gListDeleteLink h.nodes head.next item).map fun deleted =>
          ({ h with nodes := deleted.1 }, ⟨prev, deleted.2⟩)

/-- `bluesky_list_prepend`, with the address of the new node, which is the result. -/
def listPrepend (h : GHeap) (head : Head Nat) (inode addr : Nat) : Option (GHeap × Head Nat) :=
  (gListPrepend h.nodes head.next inode addr).map fun nodes =>
    (⟨nodes, h.allocations + 1⟩,
      ⟨if head.prev = none then some (gListLast nodes (h.allocations + 1) addr) else head.prev,
        some addr⟩)

/-- `bluesky_list_append`; the assertion fails, too, with {lean}`none`. -/
def listAppend (h : GHeap) (head : Head Nat) (inode addr : Nat) : Option (GHeap × Head Nat) :=
  match head.next, head.prev with
  | none, _ => listPrepend h head inode addr
  | some _, none => none
  | some _, some last =>
    (h.nodes last).bind fun node =>
      if node.next = none then
        (setNext (update h.nodes addr (some ⟨some last, none, inode⟩)) (some last)
          (some addr)).map fun nodes => (⟨nodes, h.allocations + 1⟩, ⟨some addr, head.next⟩)
      else none

/-- The data of the node that a pointer leads to. -/
def listData (h : GHeap) : Option Nat → Option (Option Nat)
  | none => some none
  | some a => (h.nodes a).map fun node => some node.data

/-- `bluesky_list_head`. -/
def listHead (h : GHeap) (head : Head Nat) : Option (Option Nat) :=
  listData h head.next

/-- `bluesky_list_tail`. -/
def listTail (h : GHeap) (head : Head Nat) : Option (Option Nat) :=
  listData h head.prev

section Operations

variable {h : GHeap} {head : Head Nat} {l : List (Nat × Nat)}

/-- The list without a node. -/
def without (l : List (Nat × Nat)) (item : Option Nat) : List (Nat × Nat) :=
  l.filter fun entry => some entry.1 ≠ item

theorem listUnlink_eq (hl : IsList h.nodes head l) {item : Option Nat}
    (hitem : ∀ a, item = some a → a ∈ l.map Prod.fst) :
    ∃ h' head', listUnlink h head item = some (h', head') ∧
      IsList h'.nodes head' (without l item) ∧
      (∀ a ∉ l.map Prod.fst, h'.nodes a = h.nodes a) ∧ ∀ a, item = some a → h'.nodes a = none := by
  cases item with
  | none =>
    refine ⟨h, head, rfl, ?_, fun _ _ => rfl, nofun⟩
    have hall : without l none = l := filter_eq_self.mpr (by simp)
    rwa [hall]
  | some item =>
    rcases List.mem_map.mp (hitem item rfl) with ⟨entry, hentry, rfl⟩
    rcases append_of_mem hentry with ⟨pre, post, rfl⟩
    rcases hl.deleteLink with ⟨nodes, hdelete, hnode, hsegment, hfreed, hframe⟩
    have hnodup := hl.nodup
    rw [map_append, map_cons, nodup_append', nodup_cons] at hnodup
    rcases hnodup with ⟨hpre, ⟨hpost, hpostNodup⟩, hdisjoint⟩
    have hothers : ∀ m : List (Nat × Nat), entry.1 ∉ m.map Prod.fst →
        without m (some entry.1) = m := by
      intro m hm
      refine filter_eq_self.mpr fun other hother => ?_
      have hne : other.1 ≠ entry.1 := fun heq => hm (heq ▸ List.mem_map_of_mem hother)
      simpa using hne
    have hpre' : entry.1 ∉ pre.map Prod.fst := fun hmem => hdisjoint hmem mem_cons_self
    have hwithout : without (pre ++ entry :: post) (some entry.1) = pre ++ post := by
      have hfront := hothers pre hpre'
      have hrest := hothers post hpost
      unfold without at hfront hrest ⊢
      rw [filter_append, filter_cons_of_neg (by simp), hfront, hrest]
    have hprev : (if head.prev = some entry.1 then (h.nodes entry.1).map Node.prev
        else some head.prev) = some (lastOr none (pre ++ post)) := by
      rw [hl.prev, hnode, lastOr_append, lastOr, lastOr_append]
      rcases eq_nil_or_concat post with rfl | ⟨front, last, rfl⟩
      · exact if_pos rfl
      · rw [concat_eq_append, lastOr_append, lastOr_append]
        refine if_neg fun heq => hpost ?_
        rw [← some.inj heq]
        simp
    refine ⟨{ h with nodes := nodes }, ⟨lastOr none (pre ++ post), firstOr none (pre ++ post)⟩,
      ?_, ?_, hframe, ?_⟩
    · rw [listUnlink, hprev, bind_some, hdelete, map_some]
    · rw [hwithout]
      refine ⟨hsegment, rfl, rfl, ?_⟩
      rw [map_append, nodup_append']
      exact ⟨hpre, hpostNodup, fun a ha hpost' => hdisjoint ha (mem_cons_of_mem _ hpost')⟩
    · intro a ha
      rw [← some.inj ha]
      exact hfreed

theorem listPrepend_eq (hl : IsList h.nodes head l) (inode : Nat) {addr : Nat}
    (haddr : h.nodes addr = none) :
    ∃ h' head', listPrepend h head inode addr = some (h', head') ∧
      IsList h'.nodes head' ((addr, inode) :: l) ∧
      ∀ a ∉ ((addr, inode) :: l).map Prod.fst, h'.nodes a = h.nodes a := by
  have hnot := hl.not_mem haddr
  rcases hl.prepend inode hnot with ⟨nodes, hprepend, hsegment, hframe⟩
  refine ⟨_, _, by rw [listPrepend, hprepend, map_some], ⟨hsegment, rfl, ?_, ?_⟩, hframe⟩
  · rw [hl.prev]
    cases l with
    | nil => simp [lastOr, gListLast, hsegment.1, firstOr]
    | cons entry l => exact if_neg fun hnone => cons_ne_nil _ _ (lastOr_eq_none.mp hnone)
  · rw [map_cons, nodup_cons]
    exact ⟨hnot, hl.nodup⟩

theorem listAppend_eq (hl : IsList h.nodes head l) (inode : Nat) {addr : Nat}
    (haddr : h.nodes addr = none) :
    ∃ h' head', listAppend h head inode addr = some (h', head') ∧
      IsList h'.nodes head' (l ++ [(addr, inode)]) ∧
      ∀ a ∉ (l ++ [(addr, inode)]).map Prod.fst, h'.nodes a = h.nodes a := by
  rcases eq_nil_or_concat l with rfl | ⟨front, last, rfl⟩
  · have happend : listAppend h head inode addr = listPrepend h head inode addr := by
      rw [listAppend, hl.next]
      rfl
    rw [happend]
    exact listPrepend_eq hl inode haddr
  rw [concat_eq_append] at *
  have hnot := hl.not_mem haddr
  have hnext : ∃ first, head.next = some first := by
    refine ne_none_iff_exists'.mp fun hnone => ?_
    rw [hl.next, firstOr_eq_none] at hnone
    simp at hnone
  rcases hnext with ⟨first, hfirst⟩
  have hlast : lastOr none (front ++ [last]) = some last.1 := by
    rw [lastOr_append]
    rfl
  have hprev : head.prev = some last.1 := hl.prev.trans hlast
  have hnode := (segment_append.mp hl.segment).2.1
  have hold := hl.segment.update hnot (some ⟨some last.1, none, inode⟩)
  rcases hold.setNext hl.nodup (some addr) with ⟨nodes, hset, hsegment, hframe⟩
  rw [hlast] at hset
  have hnew : nodes addr = some ⟨some last.1, none, inode⟩ := by
    rw [hframe addr hnot, update_self]
  refine ⟨⟨nodes, h.allocations + 1⟩, ⟨some addr, head.next⟩, ?_, ⟨?_, ?_, ?_, ?_⟩, ?_⟩
  · rw [listAppend, hfirst, hprev]
    dsimp only
    rw [hnode, bind_some, if_pos (by rfl), hset, map_some]
  · refine segment_append.mpr ⟨hsegment, ?_, trivial⟩
    rw [hlast]
    exact hnew
  · rw [firstOr_append]
    cases front with
    | nil => exact hl.next
    | cons entry front => exact hl.next
  · rw [lastOr_append]
    rfl
  · rw [map_append, nodup_append']
    exact ⟨hl.nodup, nodup_singleton _, by simpa using hnot⟩
  · intro a ha
    rw [map_append, mem_append, not_or] at ha
    exact (hframe a ha.1).trans (update_of_ne (by simpa using ha.2) _ _)

/-- The data at the ends of a list. -/
theorem listHead_eq (hl : IsList h.nodes head l) :
    listHead h head = some (l.head?.map Prod.snd) := by
  rw [listHead, hl.next]
  cases l with
  | nil => rfl
  | cons entry l =>
    rw [firstOr, listData, hl.segment.1]
    rfl

theorem listTail_eq (hl : IsList h.nodes head l) :
    listTail h head = some (l.getLast?.map Prod.snd) := by
  rw [listTail, hl.prev]
  rcases eq_nil_or_concat l with rfl | ⟨front, last, rfl⟩
  · rfl
  · rw [concat_eq_append] at *
    rw [lastOr_append, lastOr, lastOr, listData, (segment_append.mp hl.segment).2.1,
      getLast?_concat]
    rfl

end Operations

/-! ## Calls on one list -/

/-- A list with the data that it should have, each with the address of its node. -/
structure ListState where
  heap : GHeap
  head : Head Nat
  items : List (Nat × Nat)

/-- A list without nodes, beside whatever the heap has. -/
def ListState.empty (heap : GHeap) : ListState :=
  ⟨heap, ⟨none, none⟩, []⟩

/-- A call on the list, with the address that is allocated for a new node. -/
inductive ListEvent where
  | prepend (inode addr : Nat)
  | append (inode addr : Nat)
  | unlink (item : Option Nat)

/-- New nodes get free addresses, and only nodes of the list are unlinked. -/
def ListEvent.Allowed (s : ListState) : ListEvent → Prop
  | .prepend _ addr => s.heap.nodes addr = none
  | .append _ addr => s.heap.nodes addr = none
  | .unlink item => ∀ a, item = some a → a ∈ s.items.map Prod.fst

def listStep (s : ListState) : ListEvent → Option ListState
  | .prepend inode addr =>
    (listPrepend s.heap s.head inode addr).map fun r => ⟨r.1, r.2, (addr, inode) :: s.items⟩
  | .append inode addr =>
    (listAppend s.heap s.head inode addr).map fun r => ⟨r.1, r.2, s.items ++ [(addr, inode)]⟩
  | .unlink item => (listUnlink s.heap s.head item).map fun r => ⟨r.1, r.2, without s.items item⟩

/-- A call that is allowed is carried out, and the list stays as it should be. -/
theorem listStep_represents {s : ListState} (h : IsList s.heap.nodes s.head s.items)
    {e : ListEvent} (he : e.Allowed s) :
    ∃ s', listStep s e = some s' ∧ IsList s'.heap.nodes s'.head s'.items := by
  cases e with
  | prepend inode addr =>
    rcases listPrepend_eq h inode he with ⟨h', head', heq, hnew, -⟩
    exact ⟨_, by rw [listStep, heq, map_some], hnew⟩
  | append inode addr =>
    rcases listAppend_eq h inode he with ⟨h', head', heq, hnew, -⟩
    exact ⟨_, by rw [listStep, heq, map_some], hnew⟩
  | unlink item =>
    rcases listUnlink_eq h he with ⟨h', head', heq, hnew, -⟩
    exact ⟨_, by rw [listStep, heq, map_some], hnew⟩

theorem represents_reachable {heap : GHeap} {s : ListState}
    (h : Reachable listStep (fun s e => e.Allowed s) (.empty heap) s) :
    IsList s.heap.nodes s.head s.items := by
  have hempty : IsList heap.nodes ⟨none, none⟩ [] := ⟨trivial, rfl, rfl, nodup_nil⟩
  refine h.invariant (I := fun s => IsList s.heap.nodes s.head s.items) hempty ?_
  intro s e s' hs hok hstep
  rcases listStep_represents hs hok with ⟨s'', hstep', hs''⟩
  rw [hstep] at hstep'
  rw [some.inj hstep']
  exact hs''

/-! ## The lists of a file system -/

/-- The lists. -/
inductive LruList where
  | unlogged
  | dirty
  | accessed
deriving DecidableEq, Repr

/-- The lists of a file system, with the inodes that they should have. -/
structure LruLists where
  heap : GHeap
  heads : LruList → Head Nat
  items : LruList → List (Nat × Nat)

/-- For each inode, its pointers to nodes. -/
abbrev NodeTable := Nat → Option (LruList → Option Nat)

namespace LruLists

def unlink (s : LruLists) (k : LruList) (item : Option Nat) : Option LruLists :=
  (listUnlink s.heap (s.heads k) item).map fun r =>
    { heap := r.1
      heads := update s.heads k r.2
      items := update s.items k (without (s.items k) item) }

/-- The address for the new node is free. -/
def prepend (s : LruLists) (k : LruList) (inode addr : Nat) : Option LruLists :=
  if s.heap.nodes addr = none then
    (listPrepend s.heap (s.heads k) inode addr).map fun r =>
      { heap := r.1
        heads := update s.heads k r.2
        items := update s.items k ((addr, inode) :: s.items k) }
  else none

end LruLists

/-- The assignment of a pointer of an inode. -/
def setNode (t : NodeTable) (inode : Nat) (k : LruList) (node : Option Nat) : NodeTable :=
  update t inode ((t inode).map fun nodes => update nodes k node)

/-- The lists and the inodes of a file system. -/
structure FsLists where
  lists : LruLists
  inodes : NodeTable

namespace FsLists

/-- A new file system. -/
def new : FsLists where
  lists := ⟨⟨fun _ => none, 0⟩, fun _ => ⟨none, none⟩, fun _ => []⟩
  inodes := fun _ => none

/-- An inode is unlinked from a list, and its pointer is cleared. -/
def drop (s : FsLists) (k : LruList) (inode : Nat) : Option FsLists :=
  (s.inodes inode).bind fun nodes =>
    (s.lists.unlink k (nodes k)).map fun lists => ⟨lists, setNode s.inodes inode k none⟩

/-- An inode is unlinked from a list, if it is on it, and put at its start. -/
def touch (s : FsLists) (k : LruList) (addr inode : Nat) : Option FsLists :=
  (s.inodes inode).bind fun nodes =>
    (s.lists.unlink k (nodes k)).bind fun lists =>
      (lists.prepend k inode addr).map fun lists => ⟨lists, setNode s.inodes inode k (some addr)⟩

/-- What `bluesky_inode_unref` does when the last reference is gone. -/
def free (s : FsLists) (inode : Nat) : Option FsLists :=
  (s.inodes inode).bind fun nodes =>
    (s.lists.unlink .accessed (nodes .accessed)).bind fun lists =>
      (lists.unlink .dirty (nodes .dirty)).bind fun lists =>
        (lists.unlink .unlogged (nodes .unlogged)).map fun lists =>
          ⟨lists, update s.inodes inode none⟩

end FsLists

/-- The sections under the lock of the file system that change the lists, with the addresses of the
new nodes. -/
inductive LruEvent where
  /-- `bluesky_new_inode` -/
  | newInode (inode : Nat)
  /-- `bluesky_inode_update_ctime` -/
  | updateCtime (inode unlogged accessed : Nat)
  /-- `bluesky_inode_start_sync` -/
  | startSync (inode dirty : Nat)
  /-- `inode_fetch_task` -/
  | fetchTask (inode accessed : Nat)
  /-- `flushd_dirty_inode` -/
  | flushdDirtyInode (inode : Nat)
  /-- `flushd_cloud` -/
  | flushdCloud (inode : Nat)
  /-- `flushd_clean` -/
  | flushdClean (inode accessed : Nat)
  /-- `bluesky_replay_scan_journal2` -/
  | replay (inode accessed dirty : Nat)
  /-- `bluesky_inode_unref` -/
  | unref (inode : Nat)
deriving DecidableEq, Repr

def lruStep (s : FsLists) : LruEvent → Option FsLists
  | .newInode inode =>
    if s.inodes inode = none then
      some { s with inodes := update s.inodes inode (some fun _ => none) }
    else none
  | .updateCtime inode unlogged accessed =>
    (s.touch .unlogged unlogged inode).bind (·.touch .accessed accessed inode)
  | .startSync inode dirty => (s.drop .unlogged inode).bind (·.touch .dirty dirty inode)
  | .fetchTask inode accessed => s.touch .accessed accessed inode
  | .flushdDirtyInode inode => s.drop .unlogged inode
  | .flushdCloud inode => s.drop .dirty inode
  | .flushdClean inode accessed => s.touch .accessed accessed inode
  | .replay inode accessed dirty =>
    ((s.touch .accessed accessed inode).bind (·.touch .dirty dirty inode)).bind
      (·.drop .unlogged inode)
  | .unref inode => s.free inode

/-! ## Pointers -/

/-- An inode has a pointer to a node. -/
def Points (t : NodeTable) (k : LruList) (a inode : Nat) : Prop :=
  ∃ nodes, t inode = some nodes ∧ nodes k = some a

/-- The lists are as they should be, no node is on two of them, and the inodes of a list are those
with a pointer to the node. -/
structure LruInv (s : LruLists) (t : NodeTable) : Prop where
  lists : ∀ k, IsList s.heap.nodes (s.heads k) (s.items k)
  apart : ∀ k k', k ≠ k' → ∀ a ∈ (s.items k).map Prod.fst, a ∉ (s.items k').map Prod.fst
  pointer : ∀ k a inode, (a, inode) ∈ s.items k ↔ Points t k a inode

variable {i : Nat} {k : LruList}

theorem points_setNode {t : NodeTable} {nodes : LruList → Option Nat} (ht : t i = some nodes)
    {k' : LruList} {p : Option Nat} {a j : Nat} :
    Points (setNode t i k p) k' a j ↔ if j = i ∧ k' = k then p = some a else Points t k' a j := by
  unfold Points setNode
  by_cases hj : j = i
  · subst hj
    by_cases hk : k' = k
    · subst hk
      simp [ht]
    · simp [ht, hk]
  · simp [hj]

namespace LruInv

variable {s s' : LruLists} {t : NodeTable} {k : LruList} {i : Nat} {nodes : LruList → Option Nat}

/-- A change of one list that only uses its nodes and free addresses. -/
theorem changed (h : LruInv s t) {heap : GHeap} {head : Head Nat} {items : List (Nat × Nat)}
    {t' : NodeTable} (hnew : IsList heap.nodes head items)
    (hframe : ∀ a ∉ (s.items k).map Prod.fst, a ∉ items.map Prod.fst →
      heap.nodes a = s.heap.nodes a)
    (hfresh : ∀ a ∈ items.map Prod.fst, a ∈ (s.items k).map Prod.fst ∨ s.heap.nodes a = none)
    (hpointer : ∀ k' a j, (a, j) ∈ update s.items k items k' ↔ Points t' k' a j) :
    LruInv ⟨heap, update s.heads k head, update s.items k items⟩ t' := by
  have hother : ∀ k', k' ≠ k → ∀ a ∈ (s.items k').map Prod.fst, a ∉ items.map Prod.fst := by
    intro k' hk a ha hitems
    rcases hfresh a hitems with hold | hfree
    · exact h.apart k' k hk a ha hold
    · exact (h.lists k').not_mem hfree ha
  refine ⟨?_, ?_, hpointer⟩
  · intro k'
    dsimp only
    by_cases hk : k' = k
    · subst hk
      rw [update_self, update_self]
      exact hnew
    · rw [update_of_ne hk, update_of_ne hk]
      exact (h.lists k').congr fun a ha => hframe a (h.apart k' k hk a ha) (hother k' hk a ha)
  · intro k₁ k₂ hne a
    dsimp only
    by_cases h₁ : k₁ = k
    · subst h₁
      rw [update_self, update_of_ne (Ne.symm hne)]
      exact fun ha ha' => hother k₂ (Ne.symm hne) a ha' ha
    · rw [update_of_ne h₁]
      by_cases h₂ : k₂ = k
      · subst h₂
        rw [update_self]
        exact hother k₁ h₁ a
      · rw [update_of_ne h₂]
        exact h.apart k₁ k₂ hne a

/-- A node belongs to one inode. -/
theorem inode_unique (h : LruInv s t) {a j j' : Nat} (hj : (a, j) ∈ s.items k)
    (hj' : (a, j') ∈ s.items k) : j = j' := by
  have hinj := inj_on_of_nodup_map (h.lists k).nodup hj hj' rfl
  exact congrArg Prod.snd hinj

/-- An inode is unlinked with its pointer. -/
theorem unlink (h : LruInv s t) (ht : t i = some nodes) :
    ∃ s', s.unlink k (nodes k) = some s' ∧ LruInv s' (setNode t i k none) := by
  have hmem : ∀ a, nodes k = some a → (a, i) ∈ s.items k :=
    fun a ha => (h.pointer k a i).mpr ⟨nodes, ht, ha⟩
  rcases listUnlink_eq (h.lists k) (fun a ha => List.mem_map_of_mem (hmem a ha)) with
    ⟨heap, head, heq, hnew, hframe, -⟩
  refine ⟨_, by rw [LruLists.unlink, heq, map_some], h.changed hnew ?_ ?_ ?_⟩
  · exact fun a ha _ => hframe a ha
  · intro a ha
    rcases List.mem_map.mp ha with ⟨entry, hentry, rfl⟩
    exact Or.inl (List.mem_map_of_mem (mem_of_mem_filter hentry))
  · intro k' a j
    rw [points_setNode ht, ← h.pointer]
    by_cases hk : k' = k
    · subst hk
      rw [update_self, without, mem_filter]
      by_cases hj : j = i
      · subst hj
        rw [if_pos ⟨rfl, rfl⟩]
        simp only [decide_eq_true_eq, reduceCtorEq, iff_false, not_and, not_not]
        intro ha
        rcases (h.pointer k' a j).mp ha with ⟨nodes', ht', ha'⟩
        rw [ht] at ht'
        rw [some.inj ht', ha']
      · rw [if_neg fun hand => hj hand.1]
        refine ⟨And.left, fun ha => ⟨ha, decide_eq_true fun heq => ?_⟩⟩
        exact hj (h.inode_unique ha (hmem a heq.symm))
    · rw [update_of_ne hk, if_neg fun hand => hk hand.2]

/-- An inode that is not on a list is put on it. -/
theorem prepend (h : LruInv s t) (ht : t i = some nodes) (hk : nodes k = none) {addr : Nat}
    (hstep : s.prepend k i addr = some s') : LruInv s' (setNode t i k (some addr)) := by
  rcases ite_none_right_eq_some.mp hstep with ⟨haddr, hstep⟩
  rcases listPrepend_eq (h.lists k) i haddr with ⟨heap, head, heq, hnew, hframe⟩
  rw [heq, map_some] at hstep
  rw [← some.inj hstep]
  refine h.changed hnew ?_ ?_ ?_
  · exact fun a _ ha => hframe a ha
  · intro a ha
    rcases mem_cons.mp ha with rfl | ha
    · exact Or.inr haddr
    · exact Or.inl ha
  · intro k' a j
    rw [points_setNode ht, ← h.pointer]
    by_cases hk' : k' = k
    · subst hk'
      rw [update_self, mem_cons, Prod.mk.injEq]
      by_cases hj : j = i
      · subst hj
        have hnot : (a, j) ∉ s.items k' := by
          intro ha
          rcases (h.pointer k' a j).mp ha with ⟨nodes', ht', ha'⟩
          rw [ht] at ht'
          rw [← some.inj ht', hk] at ha'
          cases ha'
        simp [hnot, eq_comm]
      · simp [hj]
    · rw [update_of_ne hk', if_neg fun hand => hk' hand.2]

/-- A new inode has no nodes. -/
theorem newInode (h : LruInv s t) (hi : t i = none) :
    LruInv s (update t i (some fun _ => none)) := by
  refine ⟨h.lists, h.apart, fun k a j => ?_⟩
  rw [h.pointer]
  unfold Points
  by_cases hj : j = i
  · subst hj
    simp [hi]
  · rw [update_of_ne hj]

/-- An inode without nodes is freed. -/
theorem freed (h : LruInv s t) (ht : t i = some nodes) (hnodes : ∀ k, nodes k = none) :
    LruInv s (update t i none) := by
  refine ⟨h.lists, h.apart, fun k a j => ?_⟩
  rw [h.pointer]
  unfold Points
  by_cases hj : j = i
  · subst hj
    simp [ht, hnodes]
  · rw [update_of_ne hj]

/-- No inode is on a list twice. -/
theorem nodup_inodes (h : LruInv s t) (k : LruList) : ((s.items k).map Prod.snd).Nodup := by
  refine (nodup_map_iff_inj_on (List.Nodup.of_map _ (h.lists k).nodup)).mpr ?_
  rintro ⟨a, j⟩ ha ⟨b, j'⟩ hb rfl
  rcases (h.pointer k a j).mp ha with ⟨nodes, ht, hnode⟩
  rcases (h.pointer k b j).mp hb with ⟨nodes', ht', hnode'⟩
  rw [ht] at ht'
  rw [← some.inj ht', hnode] at hnode'
  rw [some.inj hnode']

end LruInv

/-! ## Whole runs -/

theorem setNode_self {t : NodeTable} {nodes : LruList → Option Nat} (ht : t i = some nodes)
    (k : LruList) (p : Option Nat) :
    setNode t i k p i = some (update nodes k p) := by
  rw [setNode, update_self, ht, map_some]

variable {s s' : FsLists}

theorem lruInv_drop (h : LruInv s.lists s.inodes) (hstep : s.drop k i = some s') :
    LruInv s'.lists s'.inodes := by
  rcases bind_eq_some_iff.mp hstep with ⟨nodes, hi, hstep⟩
  rcases h.unlink (k := k) hi with ⟨lists, hunlink, hinv⟩
  rw [hunlink, map_some] at hstep
  rw [← some.inj hstep]
  exact hinv

theorem lruInv_touch {addr : Nat} (h : LruInv s.lists s.inodes)
    (hstep : s.touch k addr i = some s') : LruInv s'.lists s'.inodes := by
  rcases bind_eq_some_iff.mp hstep with ⟨nodes, hi, hstep⟩
  rcases h.unlink (k := k) hi with ⟨lists, hunlink, hinv⟩
  rw [hunlink, bind_some] at hstep
  rcases map_eq_some_iff.mp hstep with ⟨lists', hprepend, rfl⟩
  have hi' := setNode_self hi k none
  have hinv' := hinv.prepend hi' (update_self _ _ _) hprepend
  rw [setNode, hi', map_some, setNode, update_idem, update_idem] at hinv'
  rw [setNode, hi, map_some]
  exact hinv'

theorem lruInv_free (h : LruInv s.lists s.inodes) (hstep : s.free i = some s') :
    LruInv s'.lists s'.inodes := by
  rcases bind_eq_some_iff.mp hstep with ⟨nodes, hi, hstep⟩
  rcases h.unlink (k := .accessed) hi with ⟨lists₁, hunlink₁, hinv₁⟩
  have hi₁ := setNode_self hi .accessed none
  rcases hinv₁.unlink (k := .dirty) hi₁ with ⟨lists₂, hunlink₂, hinv₂⟩
  have hi₂ := setNode_self hi₁ .dirty none
  rcases hinv₂.unlink (k := .unlogged) hi₂ with ⟨lists₃, hunlink₃, hinv₃⟩
  have hi₃ := setNode_self hi₂ .unlogged none
  have hfreed := hinv₃.freed hi₃ (by intro k; cases k <;> simp)
  simp only [setNode, update_idem] at hfreed
  rw [hunlink₁, bind_some] at hstep
  have hdirty : update nodes .accessed none .dirty = nodes .dirty := by simp
  have hunlogged : update (update nodes .accessed none) .dirty none .unlogged =
      nodes .unlogged := by simp
  rw [hdirty] at hunlink₂
  rw [hunlogged] at hunlink₃
  rw [hunlink₂, bind_some, hunlink₃, map_some] at hstep
  rw [← some.inj hstep]
  exact hfreed

theorem lruInv_step {e : LruEvent} (h : LruInv s.lists s.inodes) (hstep : lruStep s e = some s') :
    LruInv s'.lists s'.inodes := by
  cases e with
  | newInode inode =>
    rcases ite_none_right_eq_some.mp hstep with ⟨hi, hs'⟩
    rw [← some.inj hs']
    exact h.newInode hi
  | updateCtime inode unlogged accessed =>
    rcases bind_eq_some_iff.mp hstep with ⟨s₁, hfirst, hsecond⟩
    exact lruInv_touch (lruInv_touch h hfirst) hsecond
  | startSync inode dirty =>
    rcases bind_eq_some_iff.mp hstep with ⟨s₁, hfirst, hsecond⟩
    exact lruInv_touch (lruInv_drop h hfirst) hsecond
  | fetchTask inode accessed => exact lruInv_touch h hstep
  | flushdDirtyInode inode => exact lruInv_drop h hstep
  | flushdCloud inode => exact lruInv_drop h hstep
  | flushdClean inode accessed => exact lruInv_touch h hstep
  | replay inode accessed dirty =>
    rcases bind_eq_some_iff.mp hstep with ⟨s₂, hstep, hthird⟩
    rcases bind_eq_some_iff.mp hstep with ⟨s₁, hfirst, hsecond⟩
    exact lruInv_drop (lruInv_touch (lruInv_touch h hfirst) hsecond) hthird
  | unref inode => exact lruInv_free h hstep

theorem lruInv_new : LruInv FsLists.new.lists FsLists.new.inodes where
  lists := fun _ => ⟨trivial, rfl, rfl, nodup_nil⟩
  apart := fun _ _ _ _ ha => absurd ha not_mem_nil
  pointer := by simp [FsLists.new, Points]

/-- Whatever calls are made on a list, with only nodes of the list unlinked: every such call is
carried out, the links lead through the nodes of the list in both directions, the head has the ends
of the list, and the two functions that return the ends do.  In all runs of the callers, an inode is
at most once on each list, and it has a pointer to a node exactly if it is on the list. -/
theorem lru_lists_sound :
    (∀ heap s, Reachable listStep (fun s e => e.Allowed s) (.empty heap) s →
      (∀ e, ListEvent.Allowed s e → (listStep s e).isSome) ∧
      (∀ fuel, s.items.length ≤ fuel →
        walk Node.next s.heap.nodes fuel s.head.next = s.items ∧
          walk Node.prev s.heap.nodes fuel s.head.prev = s.items.reverse) ∧
      s.head.next = s.items.head?.map Prod.fst ∧ s.head.prev = s.items.getLast?.map Prod.fst ∧
      listHead s.heap s.head = some (s.items.head?.map Prod.snd) ∧
      listTail s.heap s.head = some (s.items.getLast?.map Prod.snd)) ∧
    ∀ s, Reachable lruStep (fun _ _ => True) FsLists.new s → ∀ k,
      (∀ fuel, (s.lists.items k).length ≤ fuel →
        walk Node.next s.lists.heap.nodes fuel (s.lists.heads k).next = s.lists.items k) ∧
      ∀ i, ((s.lists.items k).map Prod.snd).count i ≤ 1 ∧
        ∀ nodes, s.inodes i = some nodes →
          (nodes k ≠ none ↔ i ∈ (s.lists.items k).map Prod.snd) := by
  constructor
  · intro heap s hs
    have h := represents_reachable hs
    refine ⟨?_, fun fuel => h.walks, ?_, ?_, listHead_eq h, listTail_eq h⟩
    · intro e he
      rcases listStep_represents h he with ⟨s', hstep, -⟩
      rw [hstep]
      rfl
    · rw [h.next]
      cases s.items <;> rfl
    · rw [h.prev]
      rcases eq_nil_or_concat s.items with hnil | ⟨front, last, hconcat⟩
      · rw [hnil]
        rfl
      · rw [hconcat, concat_eq_append, lastOr_append, getLast?_concat]
        rfl
  · intro s hs k
    have h : LruInv s.lists s.inodes :=
      hs.invariant (I := fun s => LruInv s.lists s.inodes) lruInv_new
        fun _ _ _ hs _ => lruInv_step hs
    refine ⟨fun fuel hfuel => ((h.lists k).walks hfuel).1, fun i => ⟨?_, ?_⟩⟩
    · exact nodup_iff_count_le_one.mp (h.nodup_inodes k) i
    · intro nodes hi
      constructor
      · intro hne
        rcases ne_none_iff_exists'.mp hne with ⟨a, ha⟩
        exact List.mem_map.mpr ⟨(a, i), (h.pointer k a i).mpr ⟨nodes, hi, ha⟩, rfl⟩
      · intro hmem
        rcases List.mem_map.mp hmem with ⟨⟨a, j⟩, ha, rfl⟩
        rcases (h.pointer k a j).mp ha with ⟨nodes', hi', ha'⟩
        rw [hi] at hi'
        rw [some.inj hi', ha']
        exact some_ne_none a

end BlueSky
