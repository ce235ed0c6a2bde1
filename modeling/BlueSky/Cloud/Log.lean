import BlueSky.Cloud.InodeMap
import BlueSky.Lib.Lists
import BlueSky.Lib.Tables
import Mathlib.Data.List.Infix

/-!
# The cloud log of the proxy

`bluesky_cloudlog_serialize` appends an item to the open segment of the cloud log,
after everything that the item links to, and `bluesky_cloudlog_flush` hands the open
segment to the store.  Segments are uploaded in the background, in any order.

Main results:

- Theorem {lit}`CloudOk.append`, {lit}`CloudOk.flush`: what the two operations keep.
- Theorem {lit}`cloudlogSerialize_spec`: serialization puts an item and all that it
  links to in the log, and disturbs nothing that is there.
- Theorem {lit}`cloudlogSerialize_inode`: serializing an inode enters it in the map.
-/

namespace BlueSky

open List Option ListLib TableLib

/-! ## The state of the cloud log -/

/-- `BlueSkyCloudLogState`, with the segments that the store has received. -/
structure CloudLogState where
  /-- Segments handed to the store; a segment's position is its sequence number. -/
  segments : List CloudSegment
  /-- The sequence numbers of the segments whose upload has completed. -/
  stored : List Nat
  /-- The open segment. -/
  data : CloudSegment
  /-- The locations of the items that are in the cloud log. -/
  location : Nat → Option Location
  inodeMap : InodeMap
  latestCleanerSeqSeen : Int
  /-- `bluesky_options.disable_aggregation`. -/
  disableAggregation : Bool

/-- `CLOUDLOG_SEGMENT_SIZE`. -/
def cloudlogSegmentSize : Nat := 2 ^ 22

namespace CloudLogState

/-- The state of a new file system. -/
def start (disableAggregation : Bool) : CloudLogState where
  segments := []
  stored := []
  data := []
  location := fun _ => none
  inodeMap := []
  latestCleanerSeqSeen := -1
  disableAggregation := disableAggregation

/-- The segments by number, the open one last. -/
def allSegments (c : CloudLogState) : List CloudSegment :=
  c.segments ++ [c.data]

/-- All objects of the log in the order in which they were written. -/
def log (c : CloudLogState) : List CloudObject :=
  c.segments.flatten ++ c.data

/-- The location of a link target. -/
def linkTo (c : CloudLogState) (id : Nat) : Nat × Location :=
  (id, (c.location id).getD ⟨0, 0, 0, 0⟩)

/-- An item as `bluesky_serialize_cloudlog` writes it. -/
def object (c : CloudLogState) (id : Nat) (item : Item) : CloudObject where
  id := id
  payload := item.payload
  inum := item.inum
  links := item.links.map (Option.map c.linkTo)

/-- The object at a location. -/
def At (c : CloudLogState) (l : Location) (object : CloudObject) : Prop :=
  ∃ s, c.allSegments[l.sequence]? = some s ∧ segmentGet s l = some object

end CloudLogState

/-- `bluesky_cloudlog_flush`. -/
def cloudlogFlush (c : CloudLogState) : CloudLogState :=
  if c.data = [] then c
  else { c with segments := c.segments ++ [c.data], data := [] }

/-- Append an item to the open segment, and enter it in the inode map if it is an inode. -/
def cloudlogAppend (c : CloudLogState) (id : Nat) (item : Item) : CloudLogState :=
  { c with
    data := c.data ++ [c.object id item]
    location := Function.update c.location id
      (some ⟨0, c.segments.length, segmentLength c.data, (c.object id item).size⟩)
    inodeMap :=
      if item.payload.isInode then inodeMapInsert c.inodeMap item.inum id else c.inodeMap }

/-- Flush the open segment if it is full. -/
def cloudlogFlushFull (c : CloudLogState) : CloudLogState :=
  if cloudlogSegmentSize < segmentLength c.data ∨ c.disableAggregation then cloudlogFlush c
  else c

/-- Serialize the targets of the links of an item. -/
def serializeLinks (serialize : CloudLogState → Nat → CloudLogState) (c : CloudLogState)
    (links : List (Option Nat)) : CloudLogState :=
  links.foldl (fun c link => link.elim c (serialize c)) c

/-- `bluesky_cloudlog_serialize`; the fuel bounds the depth of the links. -/
def cloudlogSerialize (items : List Item) : Nat → CloudLogState → Nat → CloudLogState
  | 0, c, _ => c
  | fuel + 1, c, id =>
    if (c.location id).isSome then c
    else
      match items[id]? with
      | none => c
      | some item =>
        cloudlogFlushFull
          (cloudlogAppend (serializeLinks (cloudlogSerialize items fuel) c item.links) id item)

/-! ## The items in memory -/

/-- Which items an item may link to. -/
def Payload.mayLink : Payload → Payload → Bool
  | inode _, data _ => true
  | inodeMap _, inode _ => true
  | checkpoint _ _, inodeMap _ => true
  | _, _ => false

/-- Links point to items that were created before, of the right type. -/
structure HeapOk (items : List Item) : Prop where
  link_lt : ∀ {id : Nat} {item : Item}, items[id]? = some item →
    ∀ {j : Nat}, some j ∈ item.links → j < id
  mayLink : ∀ {id : Nat} {item : Item}, items[id]? = some item →
    ∀ {j : Nat} {target : Item}, some j ∈ item.links → items[j]? = some target →
      item.payload.mayLink target.payload
  inum_lt : ∀ {id : Nat} {item : Item}, items[id]? = some item →
    item.payload.isInode → item.inum < 2 ^ 64

theorem HeapOk.nil : HeapOk [] where
  link_lt := by simp
  mayLink := by simp
  inum_lt := by simp

variable {items : List Item} {S : Nat → Prop} {c c' : CloudLogState} {id : Nat} {item : Item}

theorem lt_length_of_getElem? (h : items[id]? = some item) : id < items.length := by
  rcases List.getElem?_eq_some_iff.mp h with ⟨hlt, -⟩
  exact hlt

/-- An item whose links are in order can be created. -/
theorem HeapOk.snoc (hheap : HeapOk items)
    (hlinks : ∀ j, some j ∈ item.links →
      ∃ target, items[j]? = some target ∧ item.payload.mayLink target.payload)
    (hinum : item.payload.isInode → item.inum < 2 ^ 64) : HeapOk (items ++ [item]) := by
  constructor
  · intro id it h j hj
    rcases getElem?_concat_eq_some_iff.mp h with h | ⟨rfl, rfl⟩
    · exact hheap.link_lt h hj
    · rcases hlinks j hj with ⟨target, htarget, -⟩
      exact lt_length_of_getElem? htarget
  · intro id it h j target hj htarget
    rcases getElem?_concat_eq_some_iff.mp h with h | ⟨rfl, rfl⟩
    · have hlt : j < items.length :=
        lt_trans (hheap.link_lt h hj) (lt_length_of_getElem? h)
      rw [getElem?_append_left hlt] at htarget
      exact hheap.mayLink h hj htarget
    · rcases hlinks j hj with ⟨target', htarget', hmay⟩
      rw [getElem?_append_left (lt_length_of_getElem? htarget'), htarget'] at htarget
      rw [← some.inj htarget]
      exact hmay
  · intro id it h hinode
    rcases getElem?_concat_eq_some_iff.mp h with h | ⟨rfl, rfl⟩
    · exact hheap.inum_lt h hinode
    · exact hinum hinode

variable {j : Nat}

/-- Links lead to items that exist. -/
theorem HeapOk.target (hheap : HeapOk items) (hitem : items[id]? = some item)
    (hj : some j ∈ item.links) :
    ∃ target, items[j]? = some target ∧ item.payload.mayLink target.payload := by
  have hlt := lt_trans (hheap.link_lt hitem hj) (lt_length_of_getElem? hitem)
  have htarget := getElem?_eq_getElem hlt
  exact ⟨items[j], htarget, hheap.mayLink hitem hj htarget⟩

/-! ## Well-formed cloud logs -/

/-- The log holds what the locations say, everything after what it links to. -/
structure CloudOk (items : List Item) (c : CloudLogState) : Prop where
  placed : ∀ {id : Nat} {l : Location}, c.location id = some l →
    ∃ item, items[id]? = some item ∧ l.directory = 0 ∧ c.At l (c.object id item) ∧
      ∀ {j : Nat}, some j ∈ item.links → ∃ l', c.location j = some l' ∧ l'.sequence ≤ l.sequence
  listed : ∀ {n : Nat} {s : CloudSegment} {object : CloudObject},
    c.allSegments[n]? = some s → object ∈ s →
      ∃ l, c.location object.id = some l ∧ l.sequence = n ∧ c.At l object
  nonempty : [] ∉ c.segments
  mapOk : InodeMapOk c.inodeMap
  mapped : ∀ {k x : Nat}, MapEntry c.inodeMap k x →
    (∃ l, c.location x = some l) ∧
      ∃ item, items[x]? = some item ∧ item.payload.isInode ∧ item.inum = k

theorem CloudOk.start (items : List Item) (disableAggregation : Bool) :
    CloudOk items (CloudLogState.start disableAggregation) where
  placed := by simp [CloudLogState.start]
  listed := by
    intro n s object hs hobject
    rcases getElem?_concat_eq_some_iff.mp hs with hs | ⟨-, rfl⟩
    · cases hs
    · cases hobject
  nonempty := by simp [CloudLogState.start]
  mapOk := InodeMapOk.nil
  mapped := by simp [CloudLogState.start, MapEntry]

/-- The effect of an object on the inode map. -/
def noteObject (m : InodeMap) (object : CloudObject) : InodeMap :=
  if object.payload.isInode then inodeMapInsert m object.inum object.id else m

/-- The log has grown by objects for items that were not in it and satisfy {lit}`S`. -/
structure Grows (items : List Item) (S : Nat → Prop) (c c' : CloudLogState) : Prop where
  stored : c'.stored = c.stored
  seen : c'.latestCleanerSeqSeen = c.latestCleanerSeqSeen
  disable : c'.disableAggregation = c.disableAggregation
  closed : c.segments <+: c'.segments
  segments : ∀ {n : Nat} {s : CloudSegment}, c.allSegments[n]? = some s →
    ∃ t, c'.allSegments[n]? = some (s ++ t)
  location : ∀ {id : Nat} {l : Location}, c.location id = some l → c'.location id = some l
  fresh : ∀ {id : Nat} {l : Location}, c.location id = none → c'.location id = some l → S id
  objects : ∃ objects, c'.log = c.log ++ objects ∧
    c'.inodeMap = objects.foldl noteObject c.inodeMap ∧
    ∀ object ∈ objects, S object.id ∧ c.location object.id = none ∧
      ∃ item, items[object.id]? = some item ∧ object.payload = item.payload ∧
        object.inum = item.inum

theorem Grows.refl (items : List Item) (S : Nat → Prop) (c : CloudLogState) :
    Grows items S c c where
  stored := rfl
  seen := rfl
  disable := rfl
  closed := prefix_rfl
  segments := fun {n} {s} h => ⟨[], by rw [append_nil, h]⟩
  location := fun h => h
  fresh := by
    intro id l hnone hsome
    rw [hnone] at hsome
    cases hsome
  objects := ⟨[], by simp, rfl, by simp⟩

/-- What is not in the log was not in it before. -/
theorem Grows.absent (h : Grows items S c c') (hnone : c'.location id = none) :
    c.location id = none := by
  cases hloc : c.location id with
  | none => rfl
  | some l =>
    rw [h.location hloc] at hnone
    cases hnone

theorem Grows.trans {c'' : CloudLogState} (h : Grows items S c c')
    (h' : Grows items S c' c'') : Grows items S c c'' where
  stored := h'.stored.trans h.stored
  seen := h'.seen.trans h.seen
  disable := h'.disable.trans h.disable
  closed := h.closed.trans h'.closed
  segments := by
    intro n s hs
    rcases h.segments hs with ⟨t, ht⟩
    rcases h'.segments ht with ⟨t', ht'⟩
    exact ⟨t ++ t', by rw [ht', append_assoc]⟩
  location := fun hl => h'.location (h.location hl)
  fresh := by
    intro id l hnone hsome
    cases hmid : c'.location id with
    | none => exact h'.fresh hmid hsome
    | some l' => exact h.fresh hnone hmid
  objects := by
    rcases h.objects with ⟨os, hlog, hmap, hos⟩
    rcases h'.objects with ⟨os', hlog', hmap', hos'⟩
    refine ⟨os ++ os', ?_, ?_, ?_⟩
    · rw [hlog', hlog, append_assoc]
    · rw [hmap', hmap, foldl_append]
    · intro object hobject
      rcases mem_append.mp hobject with hobject | hobject
      · exact hos object hobject
      · rcases hos' object hobject with ⟨hS, hnone, hitem⟩
        exact ⟨hS, h.absent hnone, hitem⟩

theorem Grows.weaken {S' : Nat → Prop} (h : Grows items S c c') (himp : ∀ id, S id → S' id) :
    Grows items S' c c' where
  __ := h
  fresh := fun hnone hsome => himp _ (h.fresh hnone hsome)
  objects := by
    rcases h.objects with ⟨os, hlog, hmap, hos⟩
    exact ⟨os, hlog, hmap, fun object hobject =>
      ⟨himp _ (hos object hobject).1, (hos object hobject).2⟩⟩

/-- An object stays at its location. -/
theorem CloudLogState.At.mono (h : Grows items S c c') {l : Location} {object : CloudObject}
    (hat : c.At l object) : c'.At l object := by
  rcases hat with ⟨s, hs, hget⟩
  rcases h.segments hs with ⟨t, ht⟩
  exact ⟨s ++ t, ht, segmentGet_append t hget⟩

/-- A location holds one object. -/
theorem CloudLogState.At.unique {l : Location} {a b : CloudObject}
    (ha : c.At l a) (hb : c.At l b) : a = b := by
  rcases ha with ⟨s, hs, hget⟩
  rcases hb with ⟨s', hs', hget'⟩
  rw [hs] at hs'
  rw [← some.inj hs', hget] at hget'
  exact some.inj hget'

/-- An object whose links are all in the log does not change when the log grows. -/
theorem object_congr (id : Nat)
    (hlinks : ∀ {j : Nat}, some j ∈ item.links → c'.location j = c.location j) :
    c'.object id item = c.object id item := by
  have hmap : item.links.map (Option.map c'.linkTo) = item.links.map (Option.map c.linkTo) := by
    apply map_congr_left
    intro link hlink
    cases link with
    | none => rfl
    | some j =>
      simp only [map_some, CloudLogState.linkTo]
      rw [hlinks hlink]
  unfold CloudLogState.object
  rw [hmap]

/-! ## The two operations -/

@[simp]
theorem inodeMap_cloudlogFlush (c : CloudLogState) :
    (cloudlogFlush c).inodeMap = c.inodeMap := by
  unfold cloudlogFlush
  split_ifs <;> rfl

@[simp]
theorem location_cloudlogFlush (c : CloudLogState) :
    (cloudlogFlush c).location = c.location := by
  unfold cloudlogFlush
  split_ifs <;> rfl

@[simp]
theorem log_cloudlogFlush (c : CloudLogState) : (cloudlogFlush c).log = c.log := by
  unfold cloudlogFlush
  split_ifs
  · rfl
  · simp [CloudLogState.log]

@[simp]
theorem data_cloudlogFlush (c : CloudLogState) : (cloudlogFlush c).data = [] := by
  unfold cloudlogFlush
  split_ifs with hempty
  · exact hempty
  · rfl

@[simp]
theorem inodeMap_cloudlogFlushFull (c : CloudLogState) :
    (cloudlogFlushFull c).inodeMap = c.inodeMap := by
  unfold cloudlogFlushFull
  split_ifs
  · exact inodeMap_cloudlogFlush c
  · rfl

@[simp]
theorem log_cloudlogFlushFull (c : CloudLogState) : (cloudlogFlushFull c).log = c.log := by
  unfold cloudlogFlushFull
  split_ifs
  · exact log_cloudlogFlush c
  · rfl

/-- A flush only closes the segment. -/
theorem grows_flush (items : List Item) (S : Nat → Prop) (c : CloudLogState) :
    Grows items S c (cloudlogFlush c) := by
  unfold cloudlogFlush
  split_ifs with hempty
  · exact Grows.refl items S c
  · constructor
    · rfl
    · rfl
    · rfl
    · exact prefix_append _ _
    · intro n s hs
      refine ⟨[], ?_⟩
      rw [append_nil]
      unfold CloudLogState.allSegments at hs ⊢
      rw [getElem?_append_left (List.getElem?_eq_some_iff.mp hs).1, hs]
    · exact fun h => h
    · exact (Grows.refl items S c).fresh
    · exact ⟨[], by simp [CloudLogState.log], rfl, by simp⟩

/-- A flush keeps the cloud log in order. -/
theorem CloudOk.flush (hc : CloudOk items c) : CloudOk items (cloudlogFlush c) := by
  have hgrows := grows_flush items (fun _ => True) c
  have hsegments : ∀ (n : Nat) (s : CloudSegment), (cloudlogFlush c).allSegments[n]? = some s →
      c.allSegments[n]? = some s ∨ s = [] := by
    intro n s hs
    unfold cloudlogFlush at hs
    split_ifs at hs with hempty
    · exact Or.inl hs
    · exact (getElem?_concat_eq_some_iff.mp hs).imp_right fun h => h.2.symm
  constructor
  · intro id l hl
    rw [location_cloudlogFlush] at hl ⊢
    rcases hc.placed hl with ⟨item, hitem, hdir, hat, hlinks⟩
    refine ⟨item, hitem, hdir, ?_, hlinks⟩
    rw [object_congr (c := c) id fun {j} _ => by rw [location_cloudlogFlush]]
    exact hat.mono hgrows
  · intro n s object hs hobject
    rw [location_cloudlogFlush]
    rcases hsegments n s hs with hs | rfl
    · rcases hc.listed hs hobject with ⟨l, hl, hseq, hat⟩
      exact ⟨l, hl, hseq, hat.mono hgrows⟩
    · cases hobject
  · unfold cloudlogFlush
    split_ifs with hempty
    · exact hc.nonempty
    · simpa [eq_comm, hempty] using hc.nonempty
  · rw [inodeMap_cloudlogFlush]
    exact hc.mapOk
  · intro k x hentry
    rw [inodeMap_cloudlogFlush] at hentry
    rw [location_cloudlogFlush]
    exact hc.mapped hentry

/-- An append only adds the item. -/
theorem grows_append (hitem : items[id]? = some item) (hnew : c.location id = none) (hS : S id) :
    Grows items S c (cloudlogAppend c id item) where
  stored := rfl
  seen := rfl
  disable := rfl
  closed := prefix_rfl
  segments := by
    intro n s hs
    rcases getElem?_concat_eq_some_iff.mp hs with hs | ⟨rfl, rfl⟩
    · refine ⟨[], ?_⟩
      rw [append_nil]
      exact getElem?_concat_eq_some_iff.mpr (Or.inl hs)
    · exact ⟨[c.object id item], getElem?_concat_eq_some_iff.mpr (Or.inr ⟨rfl, rfl⟩)⟩
  location := by
    intro id' l hl
    refine update_eq_some_iff.mpr (Or.inr ⟨?_, hl⟩)
    rintro rfl
    rw [hnew] at hl
    cases hl
  fresh := by
    intro id' l hnone hsome
    rcases update_eq_some_iff.mp hsome with ⟨rfl, -⟩ | ⟨-, hsome⟩
    · exact hS
    · rw [hnone] at hsome
      cases hsome
  objects := by
    refine ⟨[c.object id item], ?_, rfl, ?_⟩
    · simp [CloudLogState.log, cloudlogAppend]
    · intro object hobject
      rw [mem_singleton.mp hobject]
      exact ⟨hS, hnew, item, hitem, rfl, rfl⟩

/-- The item lies at the end of the open segment. -/
theorem location_cloudlogAppend_self (c : CloudLogState) (id : Nat) (item : Item) :
    (cloudlogAppend c id item).location id =
      some ⟨0, c.segments.length, segmentLength c.data, (c.object id item).size⟩ :=
  Function.update_self _ _ _

/-- Appending an item whose links are located keeps the cloud log in order. -/
theorem CloudOk.append (hheap : HeapOk items) (hc : CloudOk items c)
    (hitem : items[id]? = some item) (hnew : c.location id = none)
    (hlinks : ∀ {j : Nat}, some j ∈ item.links → ∃ l, c.location j = some l) :
    CloudOk items (cloudlogAppend c id item) := by
  have hgrows : Grows items (fun _ => True) c (cloudlogAppend c id item) :=
    grows_append hitem hnew trivial
  -- Nothing in the log links to the new item, so no object changes.
  have hobject : ∀ {id' : Nat} {item' : Item},
      (∀ {j : Nat}, some j ∈ item'.links → ∃ l, c.location j = some l) →
      (cloudlogAppend c id item).object id' item' = c.object id' item' := by
    intro id' item' hlinks'
    apply object_congr
    intro j hj
    rcases hlinks' hj with ⟨l, hl⟩
    rw [hl, hgrows.location hl]
  have hself := location_cloudlogAppend_self c id item
  have hat : (cloudlogAppend c id item).At
      ⟨0, c.segments.length, segmentLength c.data, (c.object id item).size⟩
      (c.object id item) :=
    ⟨_, getElem?_concat_eq_some_iff.mpr (Or.inr ⟨rfl, rfl⟩), segmentGet_last _ _ _ _⟩
  -- Locations lie in segments that exist.
  have hbound : ∀ {j : Nat} {l : Location}, c.location j = some l →
      l.sequence ≤ c.segments.length := by
    intro j l hl
    rcases hc.placed hl with ⟨-, -, -, ⟨s, hs, -⟩, -⟩
    have := (List.getElem?_eq_some_iff.mp hs).1
    simp only [CloudLogState.allSegments, length_append, length_singleton] at this
    omega
  constructor
  · intro id' l hl
    rcases update_eq_some_iff.mp hl with ⟨rfl, rfl⟩ | ⟨-, hl'⟩
    · refine ⟨item, hitem, rfl, by rw [hobject hlinks]; exact hat, ?_⟩
      intro j hj
      rcases hlinks hj with ⟨l', hl'⟩
      exact ⟨l', hgrows.location hl', hbound hl'⟩
    · rcases hc.placed hl' with ⟨item', hitem', hdir, hat', hlinks'⟩
      refine ⟨item', hitem', hdir, ?_, ?_⟩
      · rw [hobject fun hj => (hlinks' hj).imp fun _ h => h.1]
        exact hat'.mono hgrows
      · intro j hj
        rcases hlinks' hj with ⟨l', hl', hle⟩
        exact ⟨l', hgrows.location hl', hle⟩
  · intro n s object hs hmem
    have hkeep : ∀ {s}, c.allSegments[n]? = some s → object ∈ s →
        ∃ l, (cloudlogAppend c id item).location object.id = some l ∧ l.sequence = n ∧
          (cloudlogAppend c id item).At l object := by
      intro s hs hmem
      rcases hc.listed hs hmem with ⟨l, hl, hseq, hat'⟩
      exact ⟨l, hgrows.location hl, hseq, hat'.mono hgrows⟩
    rcases getElem?_concat_eq_some_iff.mp hs with hs | ⟨rfl, rfl⟩
    · exact hkeep (getElem?_concat_eq_some_iff.mpr (Or.inl hs)) hmem
    · rcases mem_append.mp hmem with hmem | hmem
      · exact hkeep (getElem?_concat_eq_some_iff.mpr (Or.inr ⟨rfl, rfl⟩)) hmem
      · rw [mem_singleton.mp hmem]
        exact ⟨_, hself, rfl, hat⟩
  · exact hc.nonempty
  · unfold cloudlogAppend
    dsimp only
    split_ifs with hinode
    · exact hc.mapOk.insert (hheap.inum_lt hitem hinode) id
    · exact hc.mapOk
  · intro k x hentry
    have hkeep : MapEntry c.inodeMap k x →
        (∃ l, (cloudlogAppend c id item).location x = some l) ∧
          ∃ item, items[x]? = some item ∧ item.payload.isInode ∧ item.inum = k := by
      intro hold
      rcases hc.mapped hold with ⟨⟨l, hl⟩, hx⟩
      exact ⟨⟨l, hgrows.location hl⟩, hx⟩
    unfold cloudlogAppend at hentry
    dsimp only at hentry
    split_ifs at hentry with hinode
    · rcases (mapEntry_inodeMapInsert hc.mapOk (hheap.inum_lt hitem hinode) id).mp hentry with
        ⟨rfl, rfl⟩ | ⟨-, hold⟩
      · exact ⟨⟨_, hself⟩, item, hitem, hinode, rfl⟩
      · exact hkeep hold
    · exact hkeep hentry

theorem CloudOk.flushFull (hc : CloudOk items c) : CloudOk items (cloudlogFlushFull c) := by
  unfold cloudlogFlushFull
  split_ifs
  · exact hc.flush
  · exact hc

theorem grows_flushFull (items : List Item) (S : Nat → Prop) (c : CloudLogState) :
    Grows items S c (cloudlogFlushFull c) := by
  unfold cloudlogFlushFull
  split_ifs
  · exact grows_flush items S c
  · exact Grows.refl items S c

/-! ## Serialization -/

/-- {lit}`S` holds of the targets of every item of {lit}`S` that is not in the log. -/
def LinkClosed (items : List Item) (S : Nat → Prop) (c : CloudLogState) : Prop :=
  ∀ id item, S id → c.location id = none → items[id]? = some item → ∀ j, some j ∈ item.links → S j

/-- What is closed under links stays so as the cloud log grows. -/
theorem LinkClosed.mono (hS : LinkClosed items S c) (h : Grows items S c c') :
    LinkClosed items S c' := by
  intro id item hid hnone hitem j hj
  exact hS id item hid (h.absent hnone) hitem j hj

/-- What the serialization of an item achieves. -/
structure Serializes (items : List Item) (S : Nat → Prop) (c : CloudLogState) (id : Nat)
    (c' : CloudLogState) : Prop where
  ok : CloudOk items c'
  grows : Grows items S c c'
  located : ∃ l, c'.location id = some l

/-- If each link is serialized as it should be, all of them are. -/
theorem serializeLinks_spec {serialize : CloudLogState → Nat → CloudLogState}
    {links : List (Option Nat)}
    (hserialize : ∀ c j, CloudOk items c → LinkClosed items S c → some j ∈ links →
      Serializes items S c j (serialize c j))
    (hc : CloudOk items c) (hS : LinkClosed items S c) :
    CloudOk items (serializeLinks serialize c links) ∧
      Grows items S c (serializeLinks serialize c links) ∧
      ∀ {j : Nat}, some j ∈ links →
        ∃ l, (serializeLinks serialize c links).location j = some l := by
  induction links generalizing c with
  | nil => exact ⟨hc, Grows.refl items S c, by simp⟩
  | cons link links ih =>
    have hrest := fun c j hc hS hj =>
      hserialize c j hc hS (mem_cons_of_mem link hj)
    cases link with
    | none =>
      rcases ih hrest hc hS with ⟨hok, hgrows, hlocated⟩
      refine ⟨hok, hgrows, ?_⟩
      intro j hj
      exact hlocated (by simpa using hj)
    | some i =>
      have hfirst := hserialize c i hc hS mem_cons_self
      rcases ih hrest hfirst.ok (hS.mono hfirst.grows) with ⟨hok, hgrows, hlocated⟩
      refine ⟨hok, hfirst.grows.trans hgrows, ?_⟩
      intro j hj
      rcases mem_cons.mp hj with hj | hj
      · rw [some.inj hj]
        rcases hfirst.located with ⟨l, hl⟩
        exact ⟨l, hgrows.location hl⟩
      · exact hlocated hj

/-- The log when the targets of an item have been serialized and the item itself has not. -/
structure TargetsWritten (items : List Item) (S : Nat → Prop) (c : CloudLogState) (id : Nat)
    (item : Item) (c' : CloudLogState) : Prop where
  ok : CloudOk items c'
  grows : Grows items (fun j => S j ∧ j < id) c c'
  located : ∀ {j : Nat}, some j ∈ item.links → ∃ l, c'.location j = some l
  absent : c'.location id = none

/-- Afterwards all links of the item are located, and the item is not. -/
theorem serializeLinks_targets (hheap : HeapOk items)
    {serialize : CloudLogState → Nat → CloudLogState} (hitem : items[id]? = some item)
    (hnone : c.location id = none)
    (hserialize : ∀ c j, CloudOk items c → LinkClosed items (fun j => S j ∧ j < id) c →
      S j ∧ j < id → Serializes items (fun j => S j ∧ j < id) c j (serialize c j))
    (hc : CloudOk items c) (hS : LinkClosed items S c) (hid : S id) :
    TargetsWritten items S c id item (serializeLinks serialize c item.links) := by
  -- Links lead to older items only.
  have hclosed : LinkClosed items (fun j => S j ∧ j < id) c :=
    fun i item' hi hinone hitem' j hj =>
      ⟨hS i item' hi.1 hinone hitem' j hj, lt_trans (hheap.link_lt hitem' hj) hi.2⟩
  rcases serializeLinks_spec (fun c' j hc' hS' hj => hserialize c' j hc' hS'
      ⟨hS id item hid hnone hitem j hj, hheap.link_lt hitem hj⟩) hc hclosed with
    ⟨hok, hgrows, hlocated⟩
  refine ⟨hok, hgrows, hlocated, ?_⟩
  cases hloc : (serializeLinks serialize c item.links).location id with
  | none => rfl
  | some l => exact absurd (hgrows.fresh hnone hloc).2 (lt_irrefl id)

/-- Serialization puts an item and all that it links to in the log, and disturbs nothing
that is there. -/
theorem cloudlogSerialize_spec (hheap : HeapOk items) (fuel : Nat) (hc : CloudOk items c)
    (hS : LinkClosed items S c) (hid : S id) (hfuel : id < fuel) (hlt : id < items.length) :
    Serializes items S c id (cloudlogSerialize items fuel c id) := by
  induction fuel generalizing S c id with
  | zero => cases hfuel
  | succ fuel ih =>
    rw [cloudlogSerialize]
    split_ifs with hlocated
    · exact ⟨hc, Grows.refl items S c, isSome_iff_exists.mp hlocated⟩
    · have hnone : c.location id = none := by simpa using hlocated
      have hitem : items[id]? = some items[id] := getElem?_eq_getElem hlt
      rw [hitem]
      dsimp only
      have htargets := serializeLinks_targets hheap hitem hnone
        (fun c' j hc' hS' hj => ih hc' hS' hj
          (lt_of_lt_of_le hj.2 (Nat.le_of_lt_succ hfuel)) (lt_trans hj.2 hlt)) hc hS hid
      generalize serializeLinks (cloudlogSerialize items fuel) c items[id].links = c₁ at htargets
      have happend := grows_append (S := S) hitem htargets.absent hid
      have hfull := grows_flushFull items S (cloudlogAppend c₁ id items[id])
      exact ⟨(htargets.ok.append hheap hitem htargets.absent htargets.located).flushFull,
        ((htargets.grows.weaken fun _ h => h.1).trans happend).trans hfull,
        _, hfull.location (location_cloudlogAppend_self c₁ id items[id])⟩

/-- The item itself is the last thing that its serialization appends. -/
theorem cloudlogSerialize_targets (hheap : HeapOk items) {fuel : Nat} (hc : CloudOk items c)
    (hS : LinkClosed items S c) (hid : S id) (hfuel : id < fuel)
    (hitem : items[id]? = some item) (hnone : c.location id = none) :
    ∃ c₁, TargetsWritten items S c id item c₁ ∧
      cloudlogSerialize items fuel c id = cloudlogFlushFull (cloudlogAppend c₁ id item) := by
  cases fuel with
  | zero => cases hfuel
  | succ fuel =>
    refine ⟨serializeLinks (cloudlogSerialize items fuel) c item.links, ?_, ?_⟩
    · exact serializeLinks_targets hheap hitem hnone
        (fun c' j hc' hS' hj => cloudlogSerialize_spec hheap fuel hc' hS' hj
          (lt_of_lt_of_le hj.2 (Nat.le_of_lt_succ hfuel))
          (lt_trans hj.2 (lt_length_of_getElem? hitem))) hc hS hid
    · rw [cloudlogSerialize, hnone, hitem]
      simp

/-- Only inodes are noted in the inode map. -/
theorem foldl_noteObject_of_not_inode {objects : List CloudObject} (m : InodeMap)
    (h : ∀ object ∈ objects, object.payload.isInode = false) :
    objects.foldl noteObject m = m := by
  induction objects with
  | nil => rfl
  | cons object objects ih =>
    rw [foldl_cons, noteObject, h object mem_cons_self]
    exact ih fun o ho => h o (mem_cons_of_mem _ ho)

/-- The targets of an inode have no links and are no inodes. -/
def IsLeaf (items : List Item) (id : Nat) : Prop :=
  ∃ item bytes, items[id]? = some item ∧ item.payload = .data bytes

/-- Blocks have no links. -/
theorem HeapOk.not_mem_links_of_isLeaf (hheap : HeapOk items) (hleaf : IsLeaf items id)
    (hitem : items[id]? = some item) : some j ∉ item.links := by
  intro hj
  rcases hleaf with ⟨item', bytes, hitem', hdata⟩
  obtain rfl := some.inj (hitem.symm.trans hitem')
  rcases hheap.target hitem hj with ⟨target, -, hmay⟩
  rw [hdata] at hmay
  cases hmay

theorem linkClosed_isLeaf (hheap : HeapOk items) (c : CloudLogState) :
    LinkClosed items (IsLeaf items) c := by
  intro id item hleaf _ hitem j hj
  exact absurd hj (hheap.not_mem_links_of_isLeaf hleaf hitem)

/-- Inodes link to data only. -/
theorem HeapOk.isLeaf_of_inode (hheap : HeapOk items) (hitem : items[id]? = some item)
    (hinode : item.payload.isInode) (hj : some j ∈ item.links) : IsLeaf items j := by
  rcases hheap.target hitem hj with ⟨target, htarget, hmay⟩
  cases hpayload : item.payload with
  | inode image =>
    cases hdata : target.payload with
    | data bytes => exact ⟨target, bytes, htarget, hdata⟩
    | _ =>
      rw [hpayload, hdata] at hmay
      cases hmay
  | _ =>
    rw [hpayload] at hinode
    cases hinode

/-- Serializing an inode reaches the inode and its data. -/
theorem linkClosed_inode (hheap : HeapOk items) (c : CloudLogState)
    (hitem : items[id]? = some item) (hinode : item.payload.isInode) :
    LinkClosed items (fun j => j = id ∨ IsLeaf items j) c := by
  intro i item' hi hinone hitem' j hj
  rcases hi with rfl | hleaf
  · obtain rfl := some.inj (hitem.symm.trans hitem')
    exact Or.inr (hheap.isLeaf_of_inode hitem hinode hj)
  · exact Or.inr (linkClosed_isLeaf hheap c i item' hleaf hinone hitem' j hj)

/-- Serializing an inode enters it in the map, and nothing else. -/
theorem cloudlogSerialize_inode (hheap : HeapOk items) {fuel : Nat} (hc : CloudOk items c)
    (hitem : items[id]? = some item) (hinode : item.payload.isInode)
    (hnone : c.location id = none) (hfuel : id < fuel) :
    (cloudlogSerialize items fuel c id).inodeMap = inodeMapInsert c.inodeMap item.inum id := by
  rcases cloudlogSerialize_targets hheap hc (linkClosed_inode hheap c hitem hinode)
    (Or.inl rfl) hfuel hitem hnone with ⟨c₁, htargets, heq⟩
  rcases htargets.grows.objects with ⟨objects, -, hmap, hobjects⟩
  have hsame : c₁.inodeMap = c.inodeMap := by
    rw [hmap]
    apply foldl_noteObject_of_not_inode
    intro object hobject
    rcases hobjects object hobject with ⟨⟨hid, hlt⟩, -, item', hitem', hpayload, -⟩
    rcases hid with hid | ⟨item'', bytes, hitem'', hdata⟩
    · exact absurd hid (Nat.ne_of_lt hlt)
    · rw [hitem'] at hitem''
      rw [hpayload, some.inj hitem'', hdata]
      rfl
  rw [heq, inodeMap_cloudlogFlushFull, cloudlogAppend, if_pos hinode, hsame]

end BlueSky
