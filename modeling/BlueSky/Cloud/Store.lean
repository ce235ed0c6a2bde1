import BlueSky.Cloud.Log

/-!
# The cloud log in the store

What a proxy that starts finds in the store: the segments whose upload has completed.
`bluesky_checkpoint_load` looks for a checkpoint in the segment with the highest number
and then follows the locations that objects hold of each other.

Main results:

- Theorem {lit}`CloudOk.link`: the links of an object lead to the locations of their
  targets, in no later segment.
- Theorem {lit}`storeGet_of_at`: an object whose segment has been uploaded is found.
- Theorem {lit}`leadsTo_located`: all that an object leads to is present if no segment
  up to its own is missing.
-/

namespace BlueSky

open List Option

/-! ## Checkpoints in the log -/

/-- The last checkpoint among some objects. -/
def lastCheckpoint (objects : List CloudObject) : Option CloudObject :=
  (objects.filter fun object => object.payload.isCheckpoint).getLast?

theorem lastCheckpoint_append_plain {objects rest : List CloudObject}
    (hrest : ∀ object ∈ rest, object.payload.isCheckpoint = false) :
    lastCheckpoint (objects ++ rest) = lastCheckpoint objects := by
  have hnil : rest.filter (fun object => object.payload.isCheckpoint) = [] := by
    rw [filter_eq_nil_iff]
    intro object hobject
    rw [hrest object hobject]
    exact Bool.false_ne_true
  unfold lastCheckpoint
  rw [filter_append, hnil, append_nil]

theorem lastCheckpoint_concat (objects : List CloudObject) {checkpoint : CloudObject}
    (h : checkpoint.payload.isCheckpoint) :
    lastCheckpoint (objects ++ [checkpoint]) = some checkpoint := by
  simp [lastCheckpoint, filter_append, h]

theorem lastCheckpoint_mem {objects : List CloudObject} {checkpoint : CloudObject}
    (h : lastCheckpoint objects = some checkpoint) :
    checkpoint ∈ objects ∧ checkpoint.payload.isCheckpoint := by
  have hmem := mem_of_getLast? h
  exact mem_filter.mp hmem

/-! ## Locations in the log -/

variable {items : List Item} {c : CloudLogState} {l : Location} {object : CloudObject}

/-- A link of an object gives the location of its target, which is no later. -/
theorem CloudOk.link (hc : CloudOk items c)
    (hl : c.location object.id = some l) (hat : c.At l object) {id : Nat} {l' : Location}
    (hlink : some (id, l') ∈ object.links) :
    c.location id = some l' ∧ l'.sequence ≤ l.sequence := by
  rcases hc.placed hl with ⟨item, hitem, -, hat', hlinks⟩
  rw [hat.unique hat'] at hlink
  rcases List.mem_map.mp hlink with ⟨target, htarget, heq⟩
  cases target with
  | none => cases heq
  | some j =>
    rcases hlinks htarget with ⟨lj, hlj, hle⟩
    have hpair : c.linkTo j = (id, l') := some.inj heq
    unfold CloudLogState.linkTo at hpair
    rw [hlj, getD_some, Prod.mk.injEq] at hpair
    rcases hpair with ⟨rfl, rfl⟩
    exact ⟨hlj, hle⟩

/-- An object of the log is at the location of its item. -/
theorem CloudOk.of_mem_log (hc : CloudOk items c)
    (h : object ∈ c.log) :
    ∃ l, c.location object.id = some l ∧ c.At l object := by
  have hmem : object ∈ c.allSegments.flatten := by
    simpa [CloudLogState.allSegments, CloudLogState.log] using h
  rcases mem_flatten.mp hmem with ⟨segment, hsegment, hobject⟩
  rcases mem_iff_getElem?.mp hsegment with ⟨n, hn⟩
  rcases hc.listed hn hobject with ⟨l, hl, -, hat⟩
  exact ⟨l, hl, hat⟩

/-- An object at a location is in the log. -/
theorem CloudLogState.At.mem_log (h : c.At l object) : object ∈ c.log := by
  rcases h with ⟨segment, hsegment, hget⟩
  have hmem : object ∈ c.allSegments.flatten :=
    mem_flatten.mpr ⟨segment, mem_of_getElem? hsegment, segmentGet_mem hget⟩
  simpa [CloudLogState.allSegments, CloudLogState.log] using hmem

/-! ## Reading from the store -/

/-- The segment with a sequence number, if it has been uploaded. -/
def CloudLogState.storedSegment (c : CloudLogState) (n : Nat) : Option CloudSegment :=
  if n ∈ c.stored then c.segments[n]? else none

/-- The object at a location, if its segment has been uploaded. -/
def CloudLogState.storeGet (c : CloudLogState) (l : Location) : Option CloudObject :=
  if l.directory = 0 then (c.storedSegment l.sequence).bind fun s => segmentGet s l else none

/-- What `bluesky_checkpoint_load` finds: an empty store, a last segment without a
checkpoint, which is fatal, or a checkpoint. -/
inductive LoadedCheckpoint where
  | fresh
  | fatal
  | checkpoint (object : CloudObject)
deriving DecidableEq, Repr

/-- The search of `bluesky_checkpoint_load` in the segment with the highest number. -/
def checkpointLoad (c : CloudLogState) : LoadedCheckpoint :=
  match c.stored.max? with
  | none => .fresh
  | some seq =>
    match lastCheckpoint ((c.storedSegment seq).getD []) with
    | none => .fatal
    | some object => .checkpoint object

/-- The locations that can be reached from an object by following links. -/
inductive LeadsTo (get : Location → Option CloudObject) (object : CloudObject) :
    Location → Prop
  | link {id : Nat} {l : Location} (h : some (id, l) ∈ object.links) : LeadsTo get object l
  | step {id : Nat} {l l' : Location} {o : CloudObject} (h : LeadsTo get object l)
      (hget : get l = some o) (hlink : some (id, l') ∈ o.links) : LeadsTo get object l'

/-- The file system can be mounted: a checkpoint is found, and everything that it leads to
lies in a segment that is present. -/
def Mountable (c : CloudLogState) : Prop :=
  ∃ object, checkpointLoad c = .checkpoint object ∧
    ∀ l, LeadsTo c.storeGet object l → (c.storeGet l).isSome

theorem CloudLogState.At.getElem? (hat : c.At l object)
    (hlt : l.sequence < c.segments.length) :
    ∃ s, c.segments[l.sequence]? = some s ∧ segmentGet s l = some object := by
  rcases hat with ⟨s, hs, hget⟩
  unfold CloudLogState.allSegments at hs
  rw [getElem?_append_left hlt] at hs
  exact ⟨s, hs, hget⟩

/-- An object whose segment has been uploaded is found. -/
theorem storeGet_of_at (hat : c.At l object) (hdir : l.directory = 0)
    (hlt : l.sequence < c.segments.length) (hstored : l.sequence ∈ c.stored) :
    c.storeGet l = some object := by
  rcases hat.getElem? hlt with ⟨s, hs, hget⟩
  unfold CloudLogState.storeGet CloudLogState.storedSegment
  rw [if_pos hdir, if_pos hstored, hs]
  exact hget

/-- What is found in the store is in the log. -/
theorem at_of_storeGet (h : c.storeGet l = some object) : c.At l object := by
  unfold CloudLogState.storeGet CloudLogState.storedSegment at h
  split_ifs at h with hdir hstored
  · rcases bind_eq_some_iff.mp h with ⟨s, hs, hget⟩
    refine ⟨s, ?_, hget⟩
    unfold CloudLogState.allSegments
    rw [getElem?_append_left (List.getElem?_eq_some_iff.mp hs).1, hs]
  · cases h

/-- The object of an item whose segment and all earlier ones have been uploaded. -/
theorem CloudOk.storeGet (hc : CloudOk items c) {n : Nat} (hn : n < c.segments.length)
    (hstored : ∀ m ≤ n, m ∈ c.stored) {id : Nat} (hl : c.location id = some l)
    (hseq : l.sequence ≤ n) :
    ∃ object, c.storeGet l = some object ∧ object.id = id ∧ c.At l object := by
  rcases hc.placed hl with ⟨item, hitem, hdir, hat, -⟩
  exact ⟨_, storeGet_of_at hat hdir (Nat.lt_of_le_of_lt hseq hn) (hstored _ hseq), rfl, hat⟩

/-- All that an object leads to is present if no segment up to its own is missing. -/
theorem leadsTo_located (hc : CloudOk items c) {n : Nat} (hn : n < c.segments.length)
    (hstored : ∀ m ≤ n, m ∈ c.stored) {l₀ : Location}
    (hl₀ : c.location object.id = some l₀) (hat : c.At l₀ object) (hseq : l₀.sequence ≤ n)
    (h : LeadsTo c.storeGet object l) :
    ∃ id, c.location id = some l ∧ l.sequence ≤ n := by
  induction h with
  | @link id l hlink =>
    rcases hc.link hl₀ hat hlink with ⟨hl, hle⟩
    exact ⟨id, hl, Nat.le_trans hle hseq⟩
  | @step id l l' o _ hget hlink ih =>
    rcases ih with ⟨id', hl, hle⟩
    rcases hc.storeGet hn hstored hl hle with ⟨o', hget', hid', hat'⟩
    rw [hget] at hget'
    rw [← some.inj hget'] at hid' hat'
    rw [← hid'] at hl
    rcases hc.link hl hat' hlink with ⟨hl', hle'⟩
    exact ⟨id, hl', Nat.le_trans hle' hle⟩

/-! ## The latest checkpoint -/

theorem LeadsTo.mono {get get' : Location → Option CloudObject}
    (hget : ∀ {l o}, get l = some o → get' l = some o)
    (h : LeadsTo get object l) : LeadsTo get' object l := by
  induction h with
  | link hlink => exact .link hlink
  | step _ hl hlink ih => exact .step ih (hget hl) hlink

/-- The object of an item can be reached from an object by following links. -/
def Reaches (get : Location → Option CloudObject) (object : CloudObject) (id : Nat) : Prop :=
  ∃ l o, LeadsTo get object l ∧ get l = some o ∧ o.id = id

theorem Reaches.mono {get get' : Location → Option CloudObject}
    (hget : ∀ {l o}, get l = some o → get' l = some o) {id : Nat}
    (h : Reaches get object id) : Reaches get' object id := by
  rcases h with ⟨l, o, hlead, hl, hid⟩
  exact ⟨l, o, hlead.mono hget, hget hl, hid⟩

/-- What is in the store stays there. -/
theorem storeGet_mono {c' : CloudLogState} (hsegments : c.segments <+: c'.segments)
    (hstored : c.stored ⊆ c'.stored) (h : c.storeGet l = some object) :
    c'.storeGet l = some object := by
  unfold CloudLogState.storeGet CloudLogState.storedSegment at h ⊢
  split_ifs at h with hdir hmem
  · rcases bind_eq_some_iff.mp h with ⟨s, hs, hget⟩
    rcases hsegments with ⟨rest, hrest⟩
    rw [if_pos hdir, if_pos (hstored hmem), ← hrest,
      getElem?_append_left (List.getElem?_eq_some_iff.mp hs).1, hs]
    exact hget
  · cases h

/-- The number of segments before the first one that is missing in the store. -/
def CloudLogState.storedPrefix (c : CloudLogState) : Nat :=
  ((List.range c.segments.length).takeWhile (· ∈ c.stored)).length

/-- The latest checkpoint among the segments before the first one that is missing. -/
def CloudLogState.latestCheckpoint (c : CloudLogState) : Option CloudObject :=
  lastCheckpoint (c.segments.take c.storedPrefix).flatten

theorem storedPrefix_le (c : CloudLogState) : c.storedPrefix ≤ c.segments.length := by
  have h := (List.takeWhile_prefix (l := List.range c.segments.length) (· ∈ c.stored)).length_le
  simpa [CloudLogState.storedPrefix] using h

/-- No segment of the prefix is missing. -/
theorem mem_stored_of_lt {n : Nat} (hn : n < c.storedPrefix) : n ∈ c.stored := by
  have hpre := List.takeWhile_prefix (l := List.range c.segments.length) (· ∈ c.stored)
  have hmem : n ∈ (List.range c.segments.length).takeWhile (· ∈ c.stored) := by
    have hget := prefix_iff_getElem?.mp hpre n hn
    rw [getElem?_range (Nat.lt_of_lt_of_le hn (storedPrefix_le c))] at hget
    have heq := some.inj hget
    exact heq ▸ getElem_mem hn
  simpa using mem_takeWhile_imp hmem

/-- Segments that are all in the store belong to the prefix. -/
theorem le_storedPrefix {n : Nat} (hn : n ≤ c.segments.length) (hstored : ∀ m < n, m ∈ c.stored) :
    n ≤ c.storedPrefix := by
  unfold CloudLogState.storedPrefix
  rcases Nat.exists_eq_add_of_le hn with ⟨k, hk⟩
  rw [hk, range_add, takeWhile_append_of_pos, length_append, length_range]
  · exact Nat.le_add_right n _
  · intro m hm
    simpa using hstored m (mem_range.mp hm)

end BlueSky
