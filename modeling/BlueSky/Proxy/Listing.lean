import BlueSky.Proxy.Flush
import BlueSky.Proxy.Journal
import BlueSky.Proxy.Reload

/-!
# What the last checkpoint lists

In a run of the proxy the cloud log only grows, and the last checkpoint lists the inode
map as long as no inode has been written since.

Main results:

- Theorem {lit}`cloud_step`: the segments, the store and the locations only grow.
- Theorem {lit}`reloadInv_step`: the last checkpoint is that of the map, if no range has
  changed since.
- Theorem {lit}`listedIn_of_mapEntry`: once everything is in the store, the last checkpoint
  gives every entry of the map.
-/

namespace BlueSky

open List PrecedenceLib ProxyState

/-! ## The cloud log in a step -/

section CloudSteps

variable {s s' : ProxyState}

/-- What no step takes back in the cloud. -/
structure CloudAdvances (c c' : CloudLogState) : Prop where
  segments : c.segments <+: c'.segments
  stored : c.stored ⊆ c'.stored
  location : ∀ {id l}, c.location id = some l → c'.location id = some l

theorem CloudAdvances.refl (c : CloudLogState) : CloudAdvances c c :=
  ⟨prefix_rfl, List.Subset.refl _, id⟩

theorem CloudAdvances.of_grows {items : List Item} {S : Nat → Prop} {c c' : CloudLogState}
    (h : Grows items S c c') : CloudAdvances c c' :=
  ⟨h.closed, by rw [h.stored]; exact List.Subset.refl _, h.location⟩

theorem CloudAdvances.trans {c₁ c₂ c₃ : CloudLogState} (h : CloudAdvances c₁ c₂)
    (h' : CloudAdvances c₂ c₃) : CloudAdvances c₁ c₃ :=
  ⟨h.segments.trans h'.segments, List.Subset.trans h.stored h'.stored,
    fun hl => h'.location (h.location hl)⟩

/-- The segments, the store and the locations only grow. -/
theorem cloud_step {e : Event} (hcore : CoreInv s) (hstep : step s e = some s') :
    CloudAdvances s.cloud s'.cloud := by
  cases stepped hstep with
  | drain marker start inode _ hinode =>
    cases hx : inode.committedItem with
    | none => exact .refl _
    | some x => exact .of_grows (hcore.drained hinode hx).1.grows
  | writeMap marker start _ r _ _ hsec =>
    have hadv := CloudAdvances.of_grows (hcore.mapWritten hsec).grows
    exact CloudAdvances.trans ⟨hadv.segments, hadv.stored, hadv.location⟩
      (.of_grows (grows_flush [] (fun _ => True) _))
  | keepMap => exact .of_grows (grows_flush [] (fun _ => True) _)
  | putComplete => exact ⟨prefix_rfl, subset_cons_self _ _, id⟩
  | _ => exact .refl _

/-- Entries of the inode map are only replaced by the loop over the dirty list. -/
theorem mapEntry_writeMap (hcore : CoreInv s) (hstep : Stepped s .writeMap s') {k x : Nat} :
    MapEntry s'.cloud.inodeMap k x ↔ MapEntry s.cloud.inodeMap k x := by
  cases hstep with
  | keepMap => rw [inodeMap_cloudlogFlush]
  | writeMap marker start _ r _ _ hsec =>
    rw [inodeMap_cloudlogFlush, (hcore.mapWritten hsec).inodeMap]
    exact mapEntry_of_ranges hsec.ranges

end CloudSteps

/-! ## The last checkpoint describes the map -/

/-- Everything that is in the log is in the store. -/
theorem storeGet_of_at_of_stored {c : CloudLogState} (hdata : c.data = [])
    (hstored : ∀ n < c.segments.length, n ∈ c.stored) {l : Location} {object : CloudObject}
    (hdir : l.directory = 0) (hat : c.At l object) : c.storeGet l = some object := by
  have hlt : l.sequence < c.segments.length := by
    rcases hat with ⟨segment, hsegment, hfind⟩
    unfold CloudLogState.allSegments at hsegment
    by_contra hge
    rw [getElem?_append_right (Nat.le_of_not_lt hge), hdata] at hsegment
    have hnil : segment = [] := by
      rcases List.getElem?_eq_some_iff.mp hsegment with ⟨hlen, heq⟩
      simp only [length_singleton, Nat.lt_one_iff] at hlen
      simp only [hlen, getElem_cons_zero] at heq
      exact heq.symm
    rw [hnil] at hfind
    simp [segmentGet, segmentFind] at hfind
  exact storeGet_of_at hat hdir hlt (hstored _ hlt)

/-- The last checkpoint is that of the map, if no range has changed since; and the checkpoint
of the last flush that has completed can be loaded. -/
structure ReloadInv (s : ProxyState) : Prop where
  current : CheckpointCurrent s.items s.cloud
  seen : -1 ≤ s.cloud.latestCleanerSeqSeen
  nonempty : s.cloud.inodeMap = [] → s.cloud.log = []
  base : 0 < s.flushBase → ∃ checkpoint r,
    lastCheckpoint (s.cloud.segments.take s.flushBase).flatten = some checkpoint ∧
      inodeMapDeserialize s.cloud.storeGet checkpoint = some r

theorem reloadInv_start (disableAggregation : Bool) :
    ReloadInv (start disableAggregation) where
  current := checkpointCurrent_start disableAggregation
  seen := Int.le_refl _
  nonempty := fun _ => rfl
  base := fun h => absurd h (lt_irrefl 0)

section Reload

variable {s s' : ProxyState}

/-- The checkpoint of a flush that has completed stays where it is. -/
theorem ReloadInv.base_advance (h : ReloadInv s) (hcloud : CloudAdvances s.cloud s'.cloud)
    (hle : s.flushBase ≤ s.cloud.segments.length) (hbase : s'.flushBase = s.flushBase)
    (hpos : 0 < s'.flushBase) : ∃ checkpoint r,
      lastCheckpoint (s'.cloud.segments.take s'.flushBase).flatten = some checkpoint ∧
        inodeMapDeserialize s'.cloud.storeGet checkpoint = some r := by
  rcases h.base (hbase ▸ hpos) with ⟨checkpoint, r, hlast, hrun⟩
  refine ⟨checkpoint, r, ?_, ?_⟩
  · rw [hbase, take_of_prefix hcloud.segments hle, hlast]
  · exact inodeMapDeserialize_mono (fun hl => storeGet_mono hcloud.segments hcloud.stored hl) hrun

/-- A step that leaves the log alone. -/
theorem ReloadInv.congr (h : ReloadInv s) (hflush : FlushInv s) (hitems : s.items <+: s'.items)
    (hcloud : CloudAdvances s.cloud s'.cloud) (hbase : s'.flushBase = s.flushBase)
    (hmap : s'.cloud.inodeMap = s.cloud.inodeMap)
    (hlocation : s'.cloud.location = s.cloud.location) (hlog : s'.cloud.log = s.cloud.log)
    (hseen : s'.cloud.latestCleanerSeqSeen = s.cloud.latestCleanerSeqSeen) : ReloadInv s' where
  current := h.current.congr hitems hmap hlocation hlog
  seen := hseen ▸ h.seen
  nonempty := by
    rw [hmap, hlog]
    exact h.nonempty
  base := h.base_advance hcloud hflush.base_le hbase

theorem reloadInv_drain {inum : Nat} (hcore : CoreInv s) (hflush : FlushInv s) (h : ReloadInv s)
    (hcloud : CloudAdvances s.cloud s'.cloud) (hstep : Stepped s (.drain inum) s') :
    ReloadInv s' := by
  cases hstep with | drain marker start inode _ hinode _ _ => ?_
  cases hx : inode.committedItem with
  | none =>
    rw [hx] at hcloud
    exact h.congr hflush prefix_rfl hcloud rfl rfl rfl rfl rfl
  | some x =>
    rw [hx] at hcloud
    rcases hcore.drained hinode hx with ⟨hspec, hmap⟩
    rcases serialized_inodeMapInsert hcore.cloud.mapOk (hcore.blocks hinode).1 x with
      ⟨-, r, hr, hnone⟩
    refine ⟨.of_dirty ?_, ?_, ?_, h.base_advance hcloud hflush.base_le rfl⟩
    · dsimp only [Option.elim]
      rw [hmap]
      exact ⟨r, hr, hnone⟩
    · dsimp only [Option.elim]
      rw [hspec.grows.seen]
      exact h.seen
    · dsimp only [Option.elim]
      rw [hmap]
      intro hnil
      rw [hnil] at hr
      cases hr

theorem reloadInv_writeMap (hcore : CoreInv s) (hflush : FlushInv s) (h : ReloadInv s)
    (hcloud : CloudAdvances s.cloud s'.cloud) (hstep : Stepped s .writeMap s') :
    ReloadInv s' := by
  cases hstep with
  | keepMap =>
    exact h.congr hflush prefix_rfl hcloud rfl (inodeMap_cloudlogFlush _)
      (location_cloudlogFlush _) (log_cloudlogFlush _) (grows_flush [] (fun _ => True) _).seen
  | writeMap marker start _ r hchanged _ hsec => ?_
  have hwritten := hcore.mapWritten hsec
  refine ⟨(checkpointCurrent_written hwritten h.seen).congr prefix_rfl
    (inodeMap_cloudlogFlush _) (location_cloudlogFlush _) (log_cloudlogFlush _), ?_, ?_,
    h.base_advance hcloud hflush.base_le rfl⟩
  · dsimp only
    rw [(grows_flush [] (fun _ => True) _).seen, hwritten.grows.seen]
    exact h.seen
  · dsimp only
    rw [inodeMap_cloudlogFlush, hwritten.inodeMap]
    intro hnil
    have hranges := hsec.ranges
    rw [hnil, map_nil, eq_comm, map_eq_nil_iff] at hranges
    rcases hchanged with ⟨range, hrange, -⟩
    rw [hranges] at hrange
    cases hrange

/-- The last checkpoint can be loaded when everything is in the store. -/
theorem ReloadInv.loads_last (h : ReloadInv s) (hcore : CoreInv s) (hdata : s.cloud.data = [])
    (hcurrent : ∀ r ∈ s.cloud.inodeMap, r.serialized ≠ none)
    (hstored : ∀ n < s.cloud.segments.length, n ∈ s.cloud.stored)
    (hpos : 0 < s.cloud.segments.length) :
    ∃ checkpoint r, lastCheckpoint s.cloud.segments.flatten = some checkpoint ∧
      inodeMapDeserialize s.cloud.storeGet checkpoint = some r := by
  have hlog : s.cloud.log = s.cloud.segments.flatten := by
    rw [CloudLogState.log, hdata, append_nil]
  have hne : s.cloud.inodeMap ≠ [] := by
    intro hnil
    have hempty := h.nonempty hnil
    rw [hlog, flatten_eq_nil_iff] at hempty
    rcases exists_mem_of_length_pos hpos with ⟨segment, hsegment⟩
    exact hcore.cloud.nonempty (hempty segment hsegment ▸ hsegment)
  rcases load_current h.current hcore.heap hcore.cloud hcore.sections hcurrent hne
    s.cloud.storeGet (storeGet_of_at_of_stored hdata hstored) with
    ⟨checkpoint, r, hlast, hrun, -⟩
  exact ⟨checkpoint, r, hlog ▸ hlast, hrun⟩

theorem reloadInv_writeCommitPoint (hcore : CoreInv s) (hflush : FlushInv s) (h : ReloadInv s)
    (hstep : Stepped s .writeCommitPoint s') : ReloadInv s' := by
  cases hstep with | writeCommitPoint marker start hflushd hstored => ?_
  have hphase := hflush.phase_of hflushd
  refine ⟨h.current.congr (prefix_append _ _) rfl rfl rfl, h.seen, h.nonempty, ?_⟩
  intro hpos
  dsimp only at hpos ⊢
  rw [take_length]
  exact h.loads_last hcore hphase.1 hphase.2.1 hstored hpos

theorem reloadInv_step {e : Event} (hcore : CoreInv s) (hflush : FlushInv s) (h : ReloadInv s)
    (hstep : step s e = some s') : ReloadInv s' := by
  have hcloud := cloud_step hcore hstep
  have hplain := h.congr hflush (items_step hstep) hcloud
  have hstepped := stepped hstep
  cases e with
  | drain inum => exact reloadInv_drain hcore hflush h hcloud hstepped
  | writeMap => exact reloadInv_writeMap hcore hflush h hcloud hstepped
  | writeCommitPoint => exact reloadInv_writeCommitPoint hcore hflush h hstepped
  | _ =>
    cases hstepped
    exact hplain rfl rfl rfl rfl rfl

end Reload

/-! ## The checkpoint leads to the map -/

/-- The checkpoint gives the version of an inode, and leads to it. -/
def ListedIn (c : CloudLogState) (checkpoint : CloudObject) (k id : Nat) : Prop :=
  Reaches c.storeGet checkpoint id ∧
    ∃ r l, inodeMapDeserialize c.storeGet checkpoint = some r ∧ InodeMapOk r.inodeMap ∧
      MapEntry r.inodeMap k id ∧ r.location id = some l ∧ c.location id = some l

theorem ListedIn.advance {c c' : CloudLogState} (h : CloudAdvances c c')
    {checkpoint : CloudObject} {k id : Nat} (hlisted : ListedIn c checkpoint k id) :
    ListedIn c' checkpoint k id := by
  have hget : ∀ {l o}, c.storeGet l = some o → c'.storeGet l = some o :=
    fun hl => storeGet_mono h.segments h.stored hl
  rcases hlisted with ⟨hreach, r, l, hrun, hok, hentry, hr, hl⟩
  exact ⟨hreach.mono hget, r, l, inodeMapDeserialize_mono hget hrun, hok, hentry, hr, h.location hl⟩

/-- Every entry of a map whose sections are all current is given by the last checkpoint, once
everything is in the store. -/
theorem listedIn_of_mapEntry {s : ProxyState} (hcore : CoreInv s) (hflush : FlushInv s)
    (hreload : ReloadInv s) (hdata : s.cloud.data = [])
    (hcurrent : ∀ r ∈ s.cloud.inodeMap, r.serialized ≠ none)
    (hstored : ∀ n < s.cloud.segments.length, n ∈ s.cloud.stored) {k x : Nat}
    (hx : MapEntry s.cloud.inodeMap k x) :
    ∃ checkpoint, lastCheckpoint s.cloud.segments.flatten = some checkpoint ∧
      ListedIn s.cloud checkpoint k x := by
  have hlog : s.cloud.log = s.cloud.segments.flatten := by
    rw [CloudLogState.log, hdata, append_nil]
  have hget : ∀ {l o}, l.directory = 0 → s.cloud.At l o → s.cloud.storeGet l = some o :=
    storeGet_of_at_of_stored hdata hstored
  have hne : s.cloud.inodeMap ≠ [] := by
    rintro hnil
    rw [hnil] at hx
    rcases hx with ⟨r, hr, -⟩
    cases hr
  rcases load_current hreload.current hcore.heap hcore.cloud hcore.sections hcurrent hne
    s.cloud.storeGet hget with
    ⟨checkpoint, r', hlast, hrun, hloaded⟩
  rw [hlog] at hlast
  refine ⟨checkpoint, hlast, ?_⟩
  rcases hloaded.located hx with ⟨lx, hlx⟩
  refine ⟨?_, r', lx, hrun, hloaded.mapOk, hloaded.entries.mpr hx, hlx, hloaded.agrees hlx⟩
  rcases hx with ⟨r, hr, hentry⟩
  rcases Option.ne_none_iff_exists'.mp (hcurrent r hr) with ⟨id, hid⟩
  rcases hflush.linked r hr id hid with ⟨checkpoint', l, hlast', hlink⟩
  rw [hlog, hlast] at hlast'
  rw [← Option.some.inj hlast'] at hlink
  have hmem : checkpoint ∈ s.cloud.log := by
    rw [hlog]
    exact (lastCheckpoint_mem hlast).1
  rcases hcore.cloud.of_mem_log hmem with ⟨l₀, hl₀, hat₀⟩
  rcases hcore.cloud.link hl₀ hat₀ hlink with ⟨hl, -⟩
  -- The section has a link for each entry of the range.
  rcases hcore.cloud.placed hl with ⟨item, hitem, hdir, hat, -⟩
  rw [hcore.sections r hr id hid] at hitem
  rw [← Option.some.inj hitem] at hat
  have hlinkx : some (s.cloud.linkTo x) ∈ (s.cloud.object id (sectionItem r)).links :=
    mem_map.mpr ⟨some x, mem_map.mpr ⟨(k, x), hentry, rfl⟩, rfl⟩
  have hlx' : s.cloud.location x = some (s.cloud.linkTo x).2 :=
    (hcore.cloud.linksAgree (hcore.sections r hr id hid) hl) x _ hlinkx
  rcases hcore.cloud.placed hlx' with ⟨itemx, -, hdirx, hatx, -⟩
  exact ⟨_, _, .step (.link hlink) (hget hdir hat) hlinkx, hget hdirx hatx, rfl⟩

end BlueSky
