import BlueSky.Cloud.CacheFile

/-!
# Fetches that overlap

`cloudlog_partial_fetch_complete` is meant to write an item to the cache file only if it overlaps
nothing that has been fetched before, and leaves this to `bluesky_rangeset_insert`, which adds any
range.  What a sequence of fetches does to the ranges that are recorded for a file and to the
bytes inside them therefore depends on what the store returns.

Main results:

- Theorem {lit}`Crypt.fetch_items_perm`, {lit}`Crypt.fetch_slice`: what a fetch does to the ranges
  and to the bytes of a file.
- Theorem {lit}`fetches_keep_items`: fetches of items that overlap no recorded range keep the
  recorded ranges apart and the bytes in them as they are, and other fetches do not.
-/

namespace BlueSky

open List ByteLib TransitionLib

/-! ## Ranges -/

/-- The range as it is recorded for a fetch that starts at an offset. -/
def RangesetItem.shift (start : Nat) (r : RangesetItem) : RangesetItem :=
  ⟨start + r.start, r.length⟩

/-! ## One fetch -/

section Fetch

variable {c : Crypt} {file file' : CacheFile} {start : Nat} {data : Bytes} {fetch : Fetch}

/-- The ranges of the items of a fetch are added to those of the file. -/
theorem foldl_merge_items (items : List RangesetItem) :
    (items.foldl (fun file item => file.merge start data item) file).items.Perm
      (items.map (RangesetItem.shift start) ++ file.items) := by
  induction items generalizing file with
  | nil => exact List.Perm.refl _
  | cons item items ih =>
    rw [foldl_cons, map_cons, cons_append]
    refine ih.trans ?_
    rw [CacheFile.merge_eq]
    refine ((rangesetInsert_perm _ _ _).append_left _).trans ?_
    exact perm_middle

/-- The items of a fetch are written, and the rest of the file stays. -/
theorem foldl_merge_slice {items : List RangesetItem} {a n : Nat}
    (hitems : ∀ item ∈ items, (slice data item.start item.length).length = item.length)
    (hapart : ∀ item ∈ items, Apart (start + item.start) item.length a n)
    (hin : a + n ≤ file.bytes.length) :
    slice (items.foldl (fun file item => file.merge start data item) file).bytes a n =
      slice file.bytes a n := by
  induction items generalizing file with
  | nil => rfl
  | cons item items ih =>
    have hlen := hitems item mem_cons_self
    have hfirst := hapart item mem_cons_self
    rw [← hlen] at hfirst
    have hgrows := @length_robustPwrite file.bytes (slice data item.start item.length)
      (start + item.start)
    rw [foldl_cons, ih (fun other h => hitems other (mem_cons_of_mem _ h))
      (fun other h => hapart other (mem_cons_of_mem _ h)) ?_, CacheFile.merge_eq]
    · exact slice_robustPwrite_of_apart hin hfirst
    · rw [CacheFile.merge_eq]
      simp only [hgrows]
      omega

/-- Every range that is recorded lies inside the file. -/
def CacheFile.Inside (file : CacheFile) : Prop :=
  ∀ r ∈ file.items, r.start + r.length ≤ file.bytes.length

theorem foldl_merge_inside {items : List RangesetItem}
    (hitems : ∀ item ∈ items, (slice data item.start item.length).length = item.length)
    (hin : file.Inside) :
    (items.foldl (fun file item => file.merge start data item) file).Inside := by
  induction items generalizing file with
  | nil => exact hin
  | cons item items ih =>
    rw [foldl_cons]
    refine ih (fun other h => hitems other (mem_cons_of_mem _ h)) ?_
    intro r hr
    have hlen := hitems item mem_cons_self
    have hgrows := @length_robustPwrite file.bytes (slice data item.start item.length)
      (start + item.start)
    rw [CacheFile.merge_eq] at hr ⊢
    simp only [hgrows]
    rcases mem_rangesetInsert.mp hr with rfl | hr
    · simp only
      omega
    · have := hin r hr
      omega

/-- A fetch writes the items it finds, at their places. -/
theorem Crypt.fetch_eq (h : c.partialFetchComplete file fetch = some file') :
    ∃ data, file' = ((walkItems fetch.data).map walkRange).foldl
        (fun file item => file.merge fetch.start data item) file ∧
      ∀ item ∈ (walkItems fetch.data).map walkRange,
        (slice data item.start item.length).length = item.length := by
  rcases partialFetchComplete_eq h with ⟨data, pass, hpass, hitems, rfl⟩
  refine ⟨data, by rw [hitems], ?_⟩
  intro item hitem
  rcases mem_map.mp hitem with ⟨w, hw, rfl⟩
  rcases (decryptLoop_spec (by simp) hpass).2 w hw with ⟨left, ok, hleft, hslice⟩
  have hle := ((@segmentWalk_bounds fetch.data.length 0 fetch.data).1 w hw).2.2
  change (slice data (w.1 - 0) w.2.length).length = w.2.length
  rw [hslice]
  exact length_of_cryptBlockDecrypt hle hleft

/-- The ranges of a fetch, as they are recorded. -/
def Fetch.ranges (fetch : Fetch) : Rangeset :=
  (walkItems fetch.data).map fun w => ⟨fetch.start + w.1, w.2.length⟩

theorem Fetch.ranges_eq (fetch : Fetch) :
    ((walkItems fetch.data).map walkRange).map (RangesetItem.shift fetch.start) =
      fetch.ranges := by
  rw [map_map]
  rfl

/-- The items of one fetch lie one behind the other. -/
theorem Fetch.disjoint_ranges (fetch : Fetch) : Rangeset.Disjoint fetch.ranges := by
  rw [Rangeset.Disjoint, ranges, pairwise_map]
  refine (@segmentWalk_bounds fetch.data.length 0 fetch.data).2.imp ?_
  intro v w hle
  refine Or.inl ?_
  simp only
  omega

theorem Crypt.fetch_items_perm (h : c.partialFetchComplete file fetch = some file') :
    file'.items.Perm (fetch.ranges ++ file.items) := by
  rcases fetch_eq h with ⟨data, rfl, -⟩
  rw [← Fetch.ranges_eq]
  exact foldl_merge_items _

theorem Crypt.fetch_slice (h : c.partialFetchComplete file fetch = some file') {r : RangesetItem}
    (hin : r.start + r.length ≤ file.bytes.length) (hapart : ∀ w ∈ fetch.ranges, w.Apart r) :
    slice file'.bytes r.start r.length = slice file.bytes r.start r.length := by
  rcases fetch_eq h with ⟨data, rfl, hitems⟩
  refine foldl_merge_slice hitems ?_ hin
  intro item hitem
  refine hapart (item.shift fetch.start) ?_
  rw [← Fetch.ranges_eq]
  exact mem_map_of_mem hitem

theorem Crypt.fetch_inside (h : c.partialFetchComplete file fetch = some file')
    (hin : file.Inside) : file'.Inside := by
  rcases fetch_eq h with ⟨data, rfl, hitems⟩
  exact foldl_merge_inside hitems hin

/-- The items of a fetch overlap no range that has been recorded. -/
def Fetch.Fresh (file : CacheFile) (fetch : Fetch) : Prop :=
  ∀ w ∈ fetch.ranges, ∀ r ∈ file.items, w.Apart r

/-- A range that was recorded is still there, with its bytes. -/
def CacheFile.Keeps (file file' : CacheFile) : Prop :=
  ∀ r ∈ file.items, r ∈ file'.items ∧
    slice file'.bytes r.start r.length = slice file.bytes r.start r.length

/-- Fetching keeps the recorded ranges apart exactly if the items fetched overlap none of
them. -/
theorem Crypt.fetch_disjoint_iff (h : c.partialFetchComplete file fetch = some file')
    (hdisjoint : Rangeset.Disjoint file.items) :
    Rangeset.Disjoint file'.items ↔ fetch.Fresh file := by
  rw [Rangeset.Disjoint.perm (fetch_items_perm h), Rangeset.Disjoint, pairwise_append]
  constructor
  · exact fun hall => hall.2.2
  · exact fun hfresh => ⟨fetch.disjoint_ranges, hdisjoint, hfresh⟩

/-- Bytes in recorded ranges stay when the items fetched overlap none of them. -/
theorem Crypt.fetch_keeps (h : c.partialFetchComplete file fetch = some file')
    (hin : file.Inside) (hfresh : fetch.Fresh file) : file.Keeps file' := by
  intro r hr
  refine ⟨?_, fetch_slice h (hin r hr) fun w hw => hfresh w hw r hr⟩
  rw [(fetch_items_perm h).mem_iff]
  exact mem_append_right _ hr

end Fetch

/-! ## Any number of fetches -/

section Run

variable {c : Crypt} {file file' : CacheFile}

/-- The ranges recorded lie inside the file and are disjoint. -/
structure CacheFile.Recorded (file : CacheFile) : Prop where
  inside : file.Inside
  disjoint : Rangeset.Disjoint file.items

theorem CacheFile.recorded_new (logDir : Nat) : (CacheFile.new logDir).Recorded where
  inside := nofun
  disjoint := List.Pairwise.nil

theorem CacheFile.Recorded.fetch {fetch : Fetch} (h : file.Recorded)
    (hfresh : fetch.Fresh file) (hstep : c.partialFetchComplete file fetch = some file') :
    file'.Recorded where
  inside := c.fetch_inside hstep h.inside
  disjoint := (c.fetch_disjoint_iff hstep h.disjoint).mpr hfresh

/-- What a file holds at some time stays there over all later fetches. -/
theorem CacheFile.Recorded.run (h : file.Recorded)
    (hrun : Reachable c.partialFetchComplete (fun file fetch => fetch.Fresh file) file file') :
    file'.Recorded ∧ file.Keeps file' := by
  refine hrun.invariant (I := fun f => f.Recorded ∧ file.Keeps f) ⟨h, ?_⟩ ?_
  · intro r hr
    exact ⟨hr, rfl⟩
  · rintro f fetch f' ⟨hf, hkeeps⟩ hfresh hstep
    refine ⟨hf.fetch hfresh hstep, ?_⟩
    intro r hr
    rcases hkeeps r hr with ⟨hmem, hbytes⟩
    rcases c.fetch_keeps hstep hf.inside hfresh r hmem with ⟨hmem', hbytes'⟩
    exact ⟨hmem', hbytes'.trans hbytes⟩

end Run

/-- As long as every fetch returns only items that overlap no range recorded before, the ranges
recorded are disjoint and every one keeps its bytes over all later fetches; and a fetch that
returns another item makes ranges overlap. -/
theorem fetches_keep_items {c : Crypt} {logDir : Nat} {file : CacheFile}
    (hfile : Reachable c.partialFetchComplete (fun file fetch => fetch.Fresh file)
      (CacheFile.new logDir) file) :
    Rangeset.Disjoint file.items ∧
      (∀ file', Reachable c.partialFetchComplete (fun file fetch => fetch.Fresh file) file file' →
        file.Keeps file') ∧
      ∀ fetch file', c.partialFetchComplete file fetch = some file' →
        (Rangeset.Disjoint file'.items ∧ file.Keeps file' ↔ fetch.Fresh file) := by
  have h := ((CacheFile.recorded_new logDir).run hfile).1
  refine ⟨h.disjoint, fun file' hrun => (h.run hrun).2, ?_⟩
  intro fetch file' hstep
  constructor
  · rintro ⟨hdisjoint, -⟩
    exact (c.fetch_disjoint_iff hstep h.disjoint).mp hdisjoint
  · intro hfresh
    exact ⟨(c.fetch_disjoint_iff hstep h.disjoint).mpr hfresh, c.fetch_keeps hstep h.inside hfresh⟩

/-- The stored inode, decrypted. -/
def storedItem : Bytes :=
  toyCrypt.decrypted storedBlock

/-- A fetch that returns the stored inode writes it wherever it is said to be. -/
theorem fetch_stored {file : CacheFile} (hdir : file.allowUnauth = false) (start : Nat) :
    toyCrypt.partialFetchComplete file ⟨start, storedBlock⟩ =
      some (file.merge start storedItem ⟨0, 123⟩) := by
  have hpass : toyCrypt.cloudlogDecrypt false storedBlock =
      some (storedItem, ⟨[⟨0, 123⟩], []⟩) := by
    decide +kernel
  rw [Crypt.partialFetchComplete, hdir, hpass]
  simp [mergeItems, rangesetLookupNext, RangesetItem.startsBy]

theorem fetches_keep_items_adjacent :
    ∃ file, Rangeset.Disjoint file.items ∧ file.items = [⟨0, 123⟩, ⟨123, 123⟩] ∧
      ∀ fetch file', toyCrypt.partialFetchComplete file fetch = some file' →
        (Rangeset.Disjoint file'.items ∧ file.Keeps file' ↔ fetch.Fresh file) := by
  have hranges : ∀ start, (⟨start, storedBlock⟩ : Fetch).ranges = [⟨start + 0, 123⟩] := by
    have hwalk : walkItems storedBlock = [(0, storedBlock)] := by decide +kernel
    have hlen : storedBlock.length = 123 := by decide +kernel
    intro start
    rw [Fetch.ranges, hwalk, map_singleton, hlen]
  have hfirst : (⟨0, storedBlock⟩ : Fetch).Fresh (CacheFile.new 0) := by
    intro w _ r hr
    cases hr
  have hsecond : (⟨123, storedBlock⟩ : Fetch).Fresh
      ((CacheFile.new 0).merge 0 storedItem ⟨0, 123⟩) := by
    intro w hw r hr
    rw [hranges, mem_singleton] at hw
    rw [CacheFile.merge_eq] at hr
    have hr' : r = ⟨0, 123⟩ := mem_singleton.mp hr
    rw [hw, hr']
    decide
  have hrun := fetches_keep_items (c := toyCrypt) (.next _ (.next _ .start hfirst
    (fetch_stored rfl 0)) hsecond (fetch_stored rfl 123))
  exact ⟨_, hrun.1, rfl, hrun.2.2⟩

/-- The store returns one item at two places: both ranges are recorded although they overlap,
and the second fetch overwrites part of what the first has brought. -/
theorem overlapping_fetch_overwrites :
    (rangesetInsert [⟨0, 123⟩] 50 123).2 = true ∧
      ∃ file file', toyCrypt.partialFetchComplete (CacheFile.new 0) ⟨0, storedBlock⟩ = some file ∧
        toyCrypt.partialFetchComplete file ⟨50, storedBlock⟩ = some file' ∧
        file.items = [⟨0, 123⟩] ∧ file'.items = [⟨0, 123⟩, ⟨50, 123⟩] ∧
        slice file'.bytes 0 123 ≠ slice file.bytes 0 123 := by
  refine ⟨rfl, _, _, fetch_stored rfl 0, fetch_stored rfl 50, rfl, rfl, ?_⟩
  have hitem : slice storedItem 0 123 = storedItem := by decide +kernel
  have hlen : storedItem.length = 123 := by decide +kernel
  have hself : ∀ (file : CacheFile) start,
      slice (file.merge start storedItem ⟨0, 123⟩).bytes start 123 = storedItem := by
    intro file start
    have hwrite := @slice_robustPwrite_self file.bytes storedItem start
    rw [hlen] at hwrite
    rw [CacheFile.merge_eq, hitem]
    exact hwrite
  intro hsame
  rw [hself] at hsame
  have hbefore := congrArg (fun bytes => slice bytes 50 73) hsame
  have hafter := congrArg (fun bytes => slice bytes 0 73)
    (hself ((CacheFile.new 0).merge 0 storedItem ⟨0, 123⟩) 50)
  simp only [slice_slice (show 50 + 73 ≤ 123 by decide)] at hbefore
  simp only [slice_slice (show 0 + 73 ≤ 123 by decide)] at hafter
  have hne : slice storedItem 50 73 ≠ slice storedItem 0 73 := by decide +kernel
  exact hne (hbefore.symm.trans hafter)

end BlueSky
