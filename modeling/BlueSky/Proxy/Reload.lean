import BlueSky.Cloud.Load
import BlueSky.Proxy.Checkpoint

/-!
# The checkpoints that are written can be loaded

A checkpoint that has been written describes the inode map as long as the map is
unchanged, and loading it gives the map back.

Main results:

- Theorem {lit}`inodeMapDeserialize_spec`: loading the checkpoint of a map gives the map.
- Theorem {lit}`checkpointCurrent_written`: the checkpoint that is written is that of the
  map.
-/

namespace BlueSky

open List Option ProxyState

/-! ## Loading the checkpoint of a map -/

/-- The number that a checkpoint restores. -/
theorem loadVersions_versionVector (r : LoadedMap) (hr : r.latestCleanerSeqSeen = -1)
    {seen : Int} (hseen : -1 ≤ seen) :
    (r.loadVersions (versionVector seen)).latestCleanerSeqSeen = seen ∧
      (r.loadVersions (versionVector seen)).inodeMap = r.inodeMap ∧
      (r.loadVersions (versionVector seen)).location = r.location ∧
      (r.loadVersions (versionVector seen)).nextInum = r.nextInum := by
  unfold versionVector LoadedMap.loadVersions
  split_ifs with hpos
  · refine ⟨?_, rfl, rfl, rfl⟩
    simpa using hpos
  · refine ⟨?_, rfl, rfl, rfl⟩
    rw [foldl_nil, hr]
    omega

theorem length_versionVector (seen : Int) : (versionVector seen).length ≤ 2 := by
  unfold versionVector
  split_ifs <;> simp

section Reload

variable {items : List Item} {c : CloudLogState}

/-- The links of an object have the locations of their targets. -/
theorem CloudOk.linksAgree (hc : CloudOk items c) {id : Nat} {item : Item} {l : Location}
    (hitem : items[id]? = some item) (hl : c.location id = some l) :
    LinksAgree c.location (c.object id item).links := by
  intro j lj hmem
  rcases hc.placed hl with ⟨item', hitem', -, hat, -⟩
  rw [hitem] at hitem'
  rw [← some.inj hitem'] at hat
  exact (hc.link hl hat hmem).1

/-- Loading the checkpoint of a map gives the map. -/
theorem inodeMapDeserialize_spec (hc : CloudOk items c) {m : InodeMap} (hm : InodeMapOk m)
    (hbound : ∀ {k x}, MapEntry m k x → k < 2 ^ 64) (hsections : SectionsOk items m)
    (hall : ∀ r ∈ m, r.serialized ≠ none) {seen : Int} (hseen : -1 ≤ seen) {ck : Nat}
    {l : Location} (hitem : items[ck]? = some (checkpointItem seen m))
    (hl : c.location ck = some l) {get : Location → Option CloudObject}
    (hget : ∀ {l o}, l.directory = 0 → c.At l o → get l = some o) :
    ∃ r, inodeMapDeserialize get (c.object ck (checkpointItem seen m)) = some r ∧
      Loaded c.location (MapEntry m) r ∧ r.latestCleanerSeqSeen = seen := by
  have hagree := hc.linksAgree hitem hl
  let start := LoadedMap.empty.noteLinks (c.object ck (checkpointItem seen m)).links
  have hempty : Loaded c.location (fun _ _ => False) LoadedMap.empty :=
    ⟨InodeMapOk.nil, by simp [LoadedMap.empty, MapEntry], by simp [LoadedMap.empty],
      by simp, by simp⟩
  have hstart := hempty.noteLinks hagree
  rcases noteLinks_spec hagree hempty.agrees with ⟨-, -, hseenStart, -, -, hnew⟩
  rcases loadVersions_versionVector start hseenStart hseen with ⟨hs, hmap, hloc, hnext⟩
  have hversions : Loaded c.location (fun _ _ => False)
      (start.loadVersions (versionVector seen)) := by
    refine ⟨hmap ▸ hstart.mapOk, ?_, ?_, by simp, by simp⟩
    · rw [hmap]
      exact hstart.entries
    · rw [hloc]
      exact hstart.agrees
  -- Each range has a section, at a location that the checkpoint names.
  have hlinks : (c.object ck (checkpointItem seen m)).links =
      m.map fun range => some (c.linkTo (range.serialized.getD 0)) := by
    simp only [CloudLogState.object, checkpointItem, List.map_map]
    refine map_congr_left fun range hrange => ?_
    rcases ne_none_iff_exists'.mp (hall range hrange) with ⟨id, hid⟩
    simp [hid]
  have hlinkTo : ∀ {id lid}, c.location id = some lid → (c.linkTo id).2 = lid := by
    intro id lid hlid
    simp [CloudLogState.linkTo, hlid]
  rcases loadSections_spec get c.linkTo (fun range => range.serialized.getD 0) (fun x => rfl)
    hm hbound
    (fun {k x} hx => by
      rcases hx with ⟨range, hrange, hx⟩
      rcases ne_none_iff_exists'.mp (hall range hrange) with ⟨id, hid⟩
      have hmem : some (c.linkTo id) ∈ (c.object ck (checkpointItem seen m)).links := by
        rw [hlinks]
        exact List.mem_map.mpr ⟨range, hrange, by rw [hid, getD_some]⟩
      have hidl := hagree id (c.linkTo id).2 hmem
      have hsectionAgree := hc.linksAgree (hsections range hrange id hid) hidl
      exact hsectionAgree x (c.linkTo x).2
        (List.mem_map.mpr ⟨some x, List.mem_map.mpr ⟨(k, x), hx, rfl⟩, rfl⟩))
    hversions (fun _ _ => id)
    (fun range hrange => by
      rcases ne_none_iff_exists'.mp (hall range hrange) with ⟨id, hid⟩
      have hmem : some (c.linkTo id) ∈ (c.object ck (checkpointItem seen m)).links := by
        rw [hlinks]
        exact List.mem_map.mpr ⟨range, hrange, by rw [hid, getD_some]⟩
      have hidl := hagree id (c.linkTo id).2 hmem
      rw [hid, getD_some]
      refine ⟨hidl, ?_, ?_⟩
      · rw [hloc]
        exact hnew hmem
      · rcases hc.placed hidl with ⟨item, hitem', hdir, hat, -⟩
        rw [hsections range hrange id hid] at hitem'
        rw [← some.inj hitem'] at hat
        refine ⟨_, hget hdir hat, rfl, ?_⟩
        simp only [CloudLogState.object, sectionItem, List.map_map, entryLinks]
        rfl) with ⟨r, hrun, hloaded, hseenEnd⟩
  refine ⟨r, ?_, ?_, hseenEnd.trans hs⟩
  · have hguard : (versionVector seen).length ≤ 2 ∧
        (c.object ck (checkpointItem seen m)).payload.length =
          16 * (c.object ck (checkpointItem seen m)).links.length + 12 +
            8 * (versionVector seen).length := by
      refine ⟨length_versionVector seen, ?_⟩
      simp only [CloudLogState.object, checkpointItem, Payload.length, length_map]
      omega
    unfold inodeMapDeserialize
    have hpayload : (c.object ck (checkpointItem seen m)).payload =
      .checkpoint (versionVector seen) (m.map fun r => (r.start, r.stop)) := rfl
    rw [hpayload]
    dsimp only
    rw [← hpayload, if_pos hguard]
    rw [← hlinks] at hrun
    exact hrun
  · simpa using hloaded

/-! ## The last checkpoint describes the map -/

/-- If no range has changed since, the last checkpoint is that of the map. -/
def CheckpointCurrent (items : List Item) (c : CloudLogState) : Prop :=
  (∀ r ∈ c.inodeMap, r.serialized ≠ none) → c.inodeMap = [] ∨
    ∃ ck seen l, items[ck]? = some (checkpointItem seen c.inodeMap) ∧ -1 ≤ seen ∧
      c.location ck = some l ∧
      lastCheckpoint c.log = some (c.object ck (checkpointItem seen c.inodeMap))

theorem checkpointCurrent_start (disableAggregation : Bool) :
    CheckpointCurrent [] (CloudLogState.start disableAggregation) :=
  fun _ => Or.inl rfl

theorem CheckpointCurrent.congr {items' : List Item} {c' : CloudLogState}
    (h : CheckpointCurrent items c) (hitems : items <+: items')
    (hmap : c'.inodeMap = c.inodeMap) (hlocation : c'.location = c.location)
    (hlog : c'.log = c.log) : CheckpointCurrent items' c' := by
  intro hall
  rw [hmap] at hall ⊢
  refine (h hall).imp_right ?_
  rintro ⟨ck, seen, l, hitem, hseen, hl, hlast⟩
  refine ⟨ck, seen, l, getElem?_mono hitems hitem, hseen, hlocation ▸ hl, ?_⟩
  rw [hlog, hlast, object_congr ck fun _ => by rw [hlocation]]

/-- After an insertion there is a range that has changed. -/
theorem CheckpointCurrent.of_dirty (h : ∃ r ∈ c.inodeMap, r.serialized = none) :
    CheckpointCurrent items c := by
  intro hall
  rcases h with ⟨r, hr, hnone⟩
  exact absurd hnone (hall r hr)

/-- The checkpoint that is written is that of the map. -/
theorem checkpointCurrent_written {m : InodeMap} {c' : CloudLogState} {seen : Int}
    (h : MapWritten items m (items ++ [checkpointItem seen m]) c c') (hseen : -1 ≤ seen) :
    CheckpointCurrent (items ++ [checkpointItem seen m]) c' := by
  intro _
  rcases h.last with ⟨rest, checkpoint, hlog, -, hck, hid, -⟩
  have hmem : checkpoint ∈ c'.log := by
    rw [hlog]
    simp
  rcases h.ok.of_mem_log hmem with ⟨l, hl, hat⟩
  rw [hid] at hl
  have hitem : (items ++ [checkpointItem seen m])[items.length]? =
      some (checkpointItem seen m) := getElem?_concat_length
  rcases h.ok.placed hl with ⟨item, hitem', -, hat', -⟩
  rw [hitem] at hitem'
  rw [← some.inj hitem'] at hat'
  refine Or.inr ⟨items.length, seen, l, ?_, hseen, hl, ?_⟩
  · rw [h.inodeMap, hitem]
  · rw [hlog, lastCheckpoint_concat _ hck, hat.unique hat', h.inodeMap]

/-- Loading the last checkpoint gives the map, if no range has changed since. -/
theorem load_current (h : CheckpointCurrent items c) (hheap : HeapOk items)
    (hc : CloudOk items c) (hsections : SectionsOk items c.inodeMap)
    (hall : ∀ r ∈ c.inodeMap, r.serialized ≠ none) (hmap : c.inodeMap ≠ [])
    (get : Location → Option CloudObject)
    (hget : ∀ {l o}, l.directory = 0 → c.At l o → get l = some o) :
    ∃ checkpoint r, lastCheckpoint c.log = some checkpoint ∧
      inodeMapDeserialize get checkpoint = some r ∧
      Loaded c.location (MapEntry c.inodeMap) r := by
  rcases h hall with hnil | ⟨ck, seen, l, hitem, hseen, hl, hlast⟩
  · exact absurd hnil hmap
  · have hbound : ∀ {k x}, MapEntry c.inodeMap k x → k < 2 ^ 64 := by
      intro k x hx
      rcases (hc.mapped hx).2 with ⟨item, hitem, hinode, rfl⟩
      exact hheap.inum_lt hitem hinode
    rcases inodeMapDeserialize_spec hc hc.mapOk hbound hsections hall hseen hitem hl hget with
      ⟨r, hrun, hloaded, -⟩
    exact ⟨_, r, hlast, hrun, hloaded⟩

end Reload

end BlueSky
