import BlueSky.Proxy.Reload

/-!
# Checkpoints do not go stale

Inodes are serialized in any order and any number of times, and the inode map between
them.  A range keeps the section that was last written for it, and a checkpoint consists
of sections that were kept and new ones; still it lists the version of every inode that
was serialized last.

Main results:

- Structure {lit}`MapInv`: the map follows the history, and a map without changed ranges
  is the one that the last checkpoint lists.
- Theorem {lit}`checkpoint_loads`: loading the last checkpoint gives the inodes serialized
  before the inode map was last serialized.
-/

namespace BlueSky

open List Option ProxyState TransitionLib

/-! ## Histories -/

/-- The items, the cloud log and the history of the calls. -/
structure MapRun where
  items : List Item
  cloud : CloudLogState
  /-- The inodes that have been written, with their items, in order. -/
  written : List (Nat × Nat)
  /-- Those that had been written when the inode map was last serialized. -/
  covered : List (Nat × Nat)
  /-- The last checkpoint, and the latest cleaner segment that had been seen then. -/
  checkpoint : Option (Nat × Int)

namespace MapRun

/-- A new file system. -/
def start (disableAggregation : Bool) : MapRun where
  items := []
  cloud := CloudLogState.start disableAggregation
  written := []
  covered := []
  checkpoint := none

/-- The calls. -/
inductive Call where
  /-- A data item or an inode item is created. -/
  | create (item : Item)
  /-- `bluesky_cloudlog_serialize` on an inode item. -/
  | serializeInode (id : Nat)
  /-- `bluesky_inode_map_serialize`, and the serialization of the checkpoint. -/
  | serializeMap
  /-- `bluesky_cloudlog_flush`. -/
  | flush
  /-- The end of `bluesky_cleaner_merge`; segment numbers are nonnegative ints. -/
  | cleanerSeen (seq : Nat)
deriving DecidableEq, Repr

/-- The item is a data item or an inode with links to data items that exist. -/
def creatable (items : List Item) (item : Item) : Bool :=
  match item.payload with
  | .data _ => item.links = []
  | .inode _ => item.inum < 2 ^ 64 ∧ item.links.all fun link =>
    link.all fun j => (items[j]?).any fun target => item.payload.mayLink target.payload
  | _ => false

/-- Serialize an inode; an item that is in the cloud log already is left alone. -/
def serializeInode (s : MapRun) (id : Nat) (item : Item) : MapRun :=
  { s with
    cloud := cloudlogSerialize s.items s.items.length s.cloud id
    written := if s.cloud.location id = none then s.written ++ [(item.inum, id)] else s.written }

/-- Serialize the inode map, with a new checkpoint if a range has changed. -/
def serializeMap (s : MapRun) : MapRun :=
  if s.cloud.inodeMap.any (fun r => r.serialized.isNone) then
    let sections := serializeSections s.items s.cloud.inodeMap
    let items := sections.1 ++ [checkpointItem s.cloud.latestCleanerSeqSeen sections.2]
    { s with
      items := items
      cloud := cloudlogSerialize items items.length { s.cloud with inodeMap := sections.2 }
        sections.1.length
      covered := s.written
      checkpoint := some (sections.1.length, s.cloud.latestCleanerSeqSeen) }
  else { s with covered := s.written }

/-- One call. -/
def step (s : MapRun) : Call → Option MapRun
  | .create item =>
    if creatable s.items item then some { s with items := s.items ++ [item] } else none
  | .serializeInode id =>
    match s.items[id]? with
    | some item => if item.payload.isInode then some (s.serializeInode id item) else none
    | none => none
  | .serializeMap => some s.serializeMap
  | .flush => some { s with cloud := cloudlogFlush s.cloud }
  | .cleanerSeen seq =>
    if seq < 2 ^ 31 then
      some { s with cloud := { s.cloud with latestCleanerSeqSeen := seq } }
    else none

end MapRun

/-- The item of an inode that was written last. -/
def latestOf (written : List (Nat × Nat)) (k : Nat) : Option Nat :=
  (written.filterMap fun w => if w.1 = k then some w.2 else none).getLast?

theorem latestOf_concat (written : List (Nat × Nat)) (k x k' : Nat) :
    latestOf (written ++ [(k, x)]) k' = if k = k' then some x else latestOf written k' := by
  unfold latestOf
  rw [filterMap_append]
  split_ifs with hk
  · simp [hk]
  · simp [hk]

/-- The object at a location of the log. -/
def CloudLogState.logGet (c : CloudLogState) (l : Location) : Option CloudObject :=
  if l.directory = 0 then (c.allSegments[l.sequence]?).bind fun s => segmentGet s l else none

theorem logGet_of_at {c : CloudLogState} {l : Location} {object : CloudObject}
    (hdir : l.directory = 0) (hat : c.At l object) : c.logGet l = some object := by
  rcases hat with ⟨s, hs, hget⟩
  rw [CloudLogState.logGet, if_pos hdir, hs]
  exact hget

theorem logGet_mono {items : List Item} {S : Nat → Prop} {c c' : CloudLogState}
    (h : Grows items S c c') {l : Location} {object : CloudObject}
    (hget : c.logGet l = some object) : c'.logGet l = some object := by
  rw [CloudLogState.logGet] at hget
  split_ifs at hget with hdir
  rcases bind_eq_some_iff.mp hget with ⟨s, hs, hfind⟩
  exact logGet_of_at hdir (CloudLogState.At.mono h ⟨s, hs, hfind⟩)

/-! ## The invariant -/

/-- Loading the checkpoint gives the inodes of a history. -/
def LoadsHistory (c : CloudLogState) (history : List (Nat × Nat)) (ck : Nat) (seen : Int) :
    Prop :=
  ∃ l object r, c.location ck = some l ∧ c.logGet l = some object ∧
    inodeMapDeserialize c.logGet object = some r ∧
    (∀ k x, MapEntry r.inodeMap k x ↔ latestOf history k = some x) ∧
    (∀ k x, latestOf history k = some x → ∃ l, r.location x = some l ∧ c.location x = some l) ∧
    (∀ k x, latestOf history k = some x → k + 1 < 2 ^ 64 → k < r.nextInum) ∧
    r.latestCleanerSeqSeen = seen

theorem LoadsHistory.grow {items : List Item} {S : Nat → Prop} {c c' : CloudLogState}
    (hgrows : Grows items S c c') {history : List (Nat × Nat)} {ck : Nat} {seen : Int}
    (h : LoadsHistory c history ck seen) : LoadsHistory c' history ck seen := by
  rcases h with ⟨l, object, r, hl, hget, hrun, hentries, hlocated, hnext, hseen⟩
  refine ⟨l, object, r, hgrows.location hl, logGet_mono hgrows hget,
    inodeMapDeserialize_mono (fun h => logGet_mono hgrows h) hrun, hentries, ?_, hnext, hseen⟩
  intro k x hx
  rcases hlocated k x hx with ⟨l', hr, hc⟩
  exact ⟨l', hr, hgrows.location hc⟩

/-- The map follows the history, and the last checkpoint lists what it covers. -/
structure MapInv (s : MapRun) : Prop where
  heap : HeapOk s.items
  cloud : CloudOk s.items s.cloud
  sections : SectionsOk s.items s.cloud.inodeMap
  seen : -1 ≤ s.cloud.latestCleanerSeqSeen
  entries : ∀ {k x : Nat}, MapEntry s.cloud.inodeMap k x ↔ latestOf s.written k = some x
  clean : (∀ r ∈ s.cloud.inodeMap, r.serialized ≠ none) → s.covered = s.written
  loads : match s.checkpoint with
    | none => s.covered = []
    | some (ck, seen) => LoadsHistory s.cloud s.covered ck seen

theorem mapInv_start (disableAggregation : Bool) : MapInv (MapRun.start disableAggregation) where
  heap := HeapOk.nil
  cloud := CloudOk.start [] disableAggregation
  sections := by
    intro r hr
    cases hr
  seen := Int.le_refl _
  entries := by simp [MapRun.start, CloudLogState.start, MapEntry, latestOf]
  clean := fun _ => rfl
  loads := rfl

section Steps

variable {s : MapRun}

/-- What was loaded stays as it is when the log grows. -/
theorem MapInv.loads_grow (h : MapInv s) {items : List Item} {S : Nat → Prop}
    {c : CloudLogState} (hgrows : Grows items S s.cloud c) :
    match s.checkpoint with
    | none => s.covered = []
    | some (ck, seen) => LoadsHistory c s.covered ck seen := by
  have hloads := h.loads
  cases hck : s.checkpoint with
  | none =>
    rw [hck] at hloads
    exact hloads
  | some ck =>
    rw [hck] at hloads
    exact hloads.grow hgrows

theorem mapInv_create (h : MapInv s) {item : Item} (hitem : MapRun.creatable s.items item) :
    MapInv { s with items := s.items ++ [item] } := by
  have hpre : s.items <+: s.items ++ [item] := prefix_append _ _
  refine ⟨?_, h.cloud.mono hpre, h.sections.mono hpre, h.seen, h.entries, h.clean, h.loads⟩
  unfold MapRun.creatable at hitem
  cases hpayload : item.payload with
  | data bytes =>
    rw [hpayload] at hitem
    refine h.heap.snoc ?_ (by simp [hpayload, Payload.isInode])
    intro j hj
    rw [of_decide_eq_true hitem] at hj
    cases hj
  | inode image =>
    simp only [hpayload, Bool.decide_and, Bool.and_eq_true, decide_eq_true_eq] at hitem
    refine h.heap.snoc ?_ (fun _ => hitem.1)
    intro j hj
    have hlink := List.all_eq_true.mp hitem.2 _ hj
    rcases (Option.any_eq_true _ _).mp hlink with ⟨target, htarget, hmay⟩
    exact ⟨target, htarget, hpayload ▸ hmay⟩
  | _ =>
    rw [hpayload] at hitem
    cases hitem

/-- An item that is in the log is left alone. -/
theorem cloudlogSerialize_located {items : List Item} {c : CloudLogState} {fuel id : Nat}
    {l : Location} (hl : c.location id = some l) :
    cloudlogSerialize items (fuel + 1) c id = c := by
  rw [cloudlogSerialize]
  simp [hl]

theorem mapInv_serializeInode (h : MapInv s) {id : Nat} {item : Item}
    (hitem : s.items[id]? = some item) (hinode : item.payload.isInode) :
    MapInv (s.serializeInode id item) := by
  have hlt := lt_length_of_getElem? hitem
  cases hl : s.cloud.location id with
  | some l =>
    have hsame : s.serializeInode id item = s := by
      unfold MapRun.serializeInode
      rcases Nat.exists_eq_add_of_lt hlt with ⟨n, hn⟩
      rw [hn, cloudlogSerialize_located hl, hl]
      rfl
    rw [hsame]
    exact h
  | none =>
    have hinum := h.heap.inum_lt hitem hinode
    rcases drained_spec h.heap h.cloud ⟨item, hitem, hinode, rfl⟩ hl with ⟨hspec, hmap⟩
    rcases serialized_inodeMapInsert h.cloud.mapOk hinum id with ⟨hkept, r, hr, hnone⟩
    unfold MapRun.serializeInode
    rw [if_pos hl]
    refine ⟨h.heap, hspec.ok, ?_, ?_, ?_, ?_, h.loads_grow hspec.grows⟩
    · intro range hrange ck hck
      rw [hmap] at hrange
      exact h.sections range (hkept range hrange (by rw [hck]; exact some_ne_none ck)) ck hck
    · rw [hspec.grows.seen]
      exact h.seen
    · intro k x
      dsimp only
      rw [hmap, mapEntry_inodeMapInsert h.cloud.mapOk hinum, h.entries, latestOf_concat]
      split_ifs with hk
      · simp [hk, eq_comm]
      · simp [Ne.symm hk]
    · intro hall
      dsimp only at hall
      rw [hmap] at hall
      exact absurd hnone (hall r hr)

/-- The checkpoint that is written lists the whole history. -/
theorem mapInv_serializeMap (h : MapInv s) : MapInv s.serializeMap := by
  unfold MapRun.serializeMap
  by_cases hany : (s.cloud.inodeMap.any fun r => r.serialized.isNone) = true
  · rw [if_pos hany]
    dsimp only
    generalize hr : serializeSections s.items s.cloud.inodeMap = r
    have hsec : SectionsWritten s.items s.cloud.inodeMap r := hr ▸ serializeSections_spec _ _
    have hwritten := mapWritten_spec h.heap h.cloud h.sections hsec s.cloud.latestCleanerSeqSeen
    rw [length_append, length_singleton]
    generalize cloudlogSerialize (r.1 ++ [checkpointItem s.cloud.latestCleanerSeqSeen r.2])
      (r.1.length + 1) { s.cloud with inodeMap := r.2 } r.1.length = c at hwritten ⊢
    have hsections : SectionsOk (r.1 ++ [checkpointItem s.cloud.latestCleanerSeqSeen r.2]) r.2 :=
      (hsec.sections h.sections).mono (prefix_append _ _)
    have hentries : ∀ {k x}, MapEntry r.2 k x ↔ latestOf s.written k = some x := by
      intro k x
      rw [mapEntry_of_ranges hsec.ranges, h.entries]
    have hall : ∀ range ∈ r.2, range.serialized ≠ none := by
      intro range hrange hnone
      rcases hsec.written range hrange with ⟨id, hid⟩
      rw [hnone] at hid
      cases hid
    refine ⟨hwritten.heap, hwritten.ok, ?_, ?_, ?_, fun _ => rfl, ?_⟩
    · dsimp only
      rw [hwritten.inodeMap]
      exact hsections
    · dsimp only
      rw [hwritten.grows.seen]
      exact h.seen
    · intro k x
      dsimp only
      rw [hwritten.inodeMap]
      exact hentries
    · have hitem : (r.1 ++ [checkpointItem s.cloud.latestCleanerSeqSeen r.2])[r.1.length]? =
          some (checkpointItem s.cloud.latestCleanerSeqSeen r.2) := getElem?_concat_length
      rcases hwritten.last with ⟨rest, checkpoint, hlog, -, -, hid, -⟩
      rcases hwritten.ok.of_mem_log (by rw [hlog]; simp : checkpoint ∈ c.log) with ⟨l, hl, -⟩
      rw [hid] at hl
      have hbound : ∀ {k x}, MapEntry r.2 k x → k < 2 ^ 64 := by
        intro k x hx
        rcases (h.cloud.mapped ((mapEntry_of_ranges hsec.ranges).mp hx)).2 with
          ⟨item, hitem, hinode, rfl⟩
        exact h.heap.inum_lt hitem hinode
      have hget : ∀ {l o}, l.directory = 0 → c.At l o → c.logGet l = some o := logGet_of_at
      rcases inodeMapDeserialize_spec hwritten.ok (hwritten.inodeMap ▸ hwritten.ok.mapOk) hbound
        hsections hall h.seen hitem hl hget with ⟨loaded, hrun, hloaded, hseen⟩
      rcases hwritten.ok.placed hl with ⟨item, hitem', hdir, hat, -⟩
      rw [hitem] at hitem'
      rw [← some.inj hitem'] at hat
      refine ⟨l, _, loaded, hl, logGet_of_at hdir hat, hrun, ?_, ?_, ?_, hseen⟩
      · intro k x
        rw [hloaded.entries, hentries]
      · intro k x hx
        rcases hloaded.located (hentries.mpr hx) with ⟨lx, hlx⟩
        exact ⟨lx, hlx, hloaded.agrees hlx⟩
      · intro k x hx hlt
        exact hloaded.next (hentries.mpr hx) hlt
  · rw [if_neg hany]
    have hclean := h.clean (by simpa [eq_none_iff_forall_not_mem] using hany)
    have hloads := h.loads
    rw [hclean] at hloads
    exact ⟨h.heap, h.cloud, h.sections, h.seen, h.entries, fun _ => rfl, hloads⟩

theorem mapInv_step {s' : MapRun} {e : MapRun.Call} (h : MapInv s)
    (hstep : MapRun.step s e = some s') : MapInv s' := by
  cases e with
  | create item =>
    simp only [MapRun.step] at hstep
    split_ifs at hstep with hitem
    rw [← some.inj hstep]
    exact mapInv_create h hitem
  | serializeInode id =>
    simp only [MapRun.step] at hstep
    cases hitem : s.items[id]? with
    | none =>
      rw [hitem] at hstep
      cases hstep
    | some item =>
      rw [hitem] at hstep
      dsimp only at hstep
      split_ifs at hstep with hinode
      rw [← some.inj hstep]
      exact mapInv_serializeInode h hitem hinode
  | serializeMap =>
    rw [← some.inj hstep]
    exact mapInv_serializeMap h
  | flush =>
    rw [← some.inj hstep]
    have hgrows := grows_flush s.items (fun _ => True) s.cloud
    refine ⟨h.heap, h.cloud.flush, ?_, ?_, ?_, ?_, h.loads_grow hgrows⟩
    · dsimp only
      rw [inodeMap_cloudlogFlush]
      exact h.sections
    · dsimp only
      rw [hgrows.seen]
      exact h.seen
    · dsimp only
      rw [inodeMap_cloudlogFlush]
      exact h.entries
    · dsimp only
      rw [inodeMap_cloudlogFlush]
      exact h.clean
  | cleanerSeen seq =>
    simp only [MapRun.step] at hstep
    split_ifs at hstep with hseq
    rw [← some.inj hstep]
    have hok : CloudOk s.items { s.cloud with latestCleanerSeqSeen := seq } :=
      ⟨h.cloud.placed, h.cloud.listed, h.cloud.nonempty, h.cloud.mapOk, h.cloud.mapped⟩
    refine ⟨h.heap, hok, h.sections, ?_, h.entries, h.clean, h.loads⟩
    dsimp only
    omega

end Steps

/-! ## Runs -/

/-- For every sequence of calls, loading the last checkpoint succeeds and gives exactly the
inodes that had been written when the inode map was last serialized, each with the item and
the location that were written last, a next inode number above them as far as there is one,
and the number of the cleaner's segment at the checkpoint.  Without a checkpoint there was
nothing to list. -/
theorem checkpoint_loads (disableAggregation : Bool) (s : MapRun)
    (hs : Reachable MapRun.step (fun _ _ => True) (MapRun.start disableAggregation) s) :
    match s.checkpoint with
    | none => s.covered = []
    | some (ck, seen) => LoadsHistory s.cloud s.covered ck seen := by
  have h : MapInv s := hs.invariant (mapInv_start disableAggregation)
    fun _ _ _ h _ hstep => mapInv_step h hstep
  exact h.loads

/-- An inode without blocks. -/
def emptyInode (inum : Nat) : Item where
  payload := .inode
    { mode := 493, uid := 0, gid := 0, nlink := 1, changeCount := 1, atime := 0, ctime := 0
      mtime := 0, ntime := 0, body := .directory [] }
  inum := inum
  links := []

/-- Two inodes in different ranges, one of them written again after a first checkpoint, and
a third call that needs no checkpoint. -/
theorem checkpoint_loads_rewritten :
    ∃ s, Reachable MapRun.step (fun _ _ => True) (MapRun.start false) s ∧
      s.covered = [(1, 0), (5000, 1), (1, 5)] ∧ s.checkpoint = some (7, 3) ∧
      LoadsHistory s.cloud s.covered 7 3 := by
  have hfacts : ∃ s ∈ runWhile MapRun.step (fun _ _ => True) (MapRun.start false)
      [.create (emptyInode 1), .create (emptyInode 5000), .serializeInode 0, .serializeInode 1,
        .serializeMap, .create (emptyInode 1), .serializeInode 5, .cleanerSeen 3, .serializeMap,
        .flush, .serializeMap],
      s.covered = [(1, 0), (5000, 1), (1, 5)] ∧ s.checkpoint = some (7, 3) := by
    decide +kernel
  rcases hfacts with ⟨s, hrun, hcovered, hck⟩
  have hs := reachable_of_runWhile .start hrun
  have hloads := checkpoint_loads false s hs
  rw [hck] at hloads
  exact ⟨s, hs, hcovered, hck, hloads⟩

/-- The largest inode number: no next inode number is above it. -/
theorem checkpoint_largest_inum :
    ∃ s l object r, Reachable MapRun.step (fun _ _ => True) (MapRun.start false) s ∧
      s.covered = [(2 ^ 64 - 1, 0)] ∧ s.checkpoint = some (2, -1) ∧
      s.cloud.location 2 = some l ∧ s.cloud.logGet l = some object ∧
      inodeMapDeserialize s.cloud.logGet object = some r ∧
      MapEntry r.inodeMap (2 ^ 64 - 1) 0 ∧ r.nextInum = 2 := by
  have hfacts : ∃ s ∈ runWhile MapRun.step (fun _ _ => True) (MapRun.start false)
      [.create (emptyInode (2 ^ 64 - 1)), .serializeInode 0, .serializeMap],
      s.covered = [(2 ^ 64 - 1, 0)] ∧ s.checkpoint = some (2, -1) ∧
        ∃ r ∈ ((s.cloud.location 2).bind s.cloud.logGet).bind
            (inodeMapDeserialize s.cloud.logGet),
          (∃ range ∈ r.inodeMap, (2 ^ 64 - 1, 0) ∈ range.entries) ∧ r.nextInum = 2 := by
    decide +kernel
  rcases hfacts with ⟨s, hrun, hcovered, hck, r, hr, hfound⟩
  rcases bind_eq_some_iff.mp hr with ⟨object, hobject, hload⟩
  rcases bind_eq_some_iff.mp hobject with ⟨l, hl, hget⟩
  exact ⟨s, l, object, r, reachable_of_runWhile .start hrun, hcovered, hck, hl, hget, hload, hfound⟩

end BlueSky
