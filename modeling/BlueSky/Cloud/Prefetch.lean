import BlueSky.Cloud.CacheOverlap

/-!
# Prefetches and range requests

`bluesky_cloudlog_prefetch` queues the range of an item that has not been fetched with the cache
file of its segment.  When `bluesky_log_map_object` needs an item that is missing, it requests one
range that is meant to cover the item and all that is queued, and frees the queue.

Main results:

- Theorem {lit}`SegmentCache.Inv.run`: the queue holds what has been queued since the last request.
- Theorem {lit}`SegmentCache.Inv.request`: what is requested, in terms of the queue.
- Theorem {lit}`range_request_covers`: the needed item is covered; what is queued is covered
  exactly if some of it starts no later than the needed item.
-/

namespace BlueSky

open Option TransitionLib

/-! ## The model -/

/-- What `bluesky_cloudlog_prefetch` looks at in an item. -/
structure PrefetchItem where
  /-- `data != NULL` -/
  loaded : Bool
  /-- The item is in the journal or on its way there, and the journal file can be opened. -/
  journal : Bool
  /-- `location_flags & CLOUDLOG_CLOUD`, and the file of the segment can be opened. -/
  cloud : Bool
  /-- `location.offset` and `location.size` -/
  range : RangesetItem
deriving DecidableEq, Repr

/-- The cache file of a segment with its queue of prefetches.  In {lit}`queued`, which only serves
to state what the queue is for, are the ranges queued since the last request. -/
structure SegmentCache where
  file : CacheFile
  prefetches : Option Rangeset
  queued : List RangesetItem
deriving DecidableEq, Repr

namespace SegmentCache

def new (logDir : Nat) : SegmentCache where
  file := .new logDir
  prefetches := none
  queued := []

/-- `bluesky_cloudlog_prefetch`. -/
def cloudlogPrefetch (options : FetchOptions) (s : SegmentCache) (item : PrefetchItem) :
    SegmentCache :=
  if item.loaded then s
  -- the item is fetched in the background
  else if options.unaggregated then s
  else if item.journal then s
  else if !item.cloud then s
  else
    match rangesetLookup s.file.items item.range.start with
    | some _ => s
    | none =>
      { s with
        prefetches := some
          (rangesetInsert (s.prefetches.getD []) item.range.start item.range.length).1
        queued := item.range :: s.queued }

end SegmentCache

/-- The range that `bluesky_log_map_object` requests for an item at {lit}`needed`. -/
def mapObjectRange (prefetches : Option Rangeset) (needed : RangesetItem) : RangesetItem :=
  let (start, length) :=
    match prefetches with
    | some set => rangesetGetExtents set
    | none => (needed.start, needed.length)
  let start := min start needed.start
  let stop := max (start + length) (needed.start + needed.length)
  ⟨start, stop - start⟩

namespace SegmentCache

/-- A round of the loop of `bluesky_log_map_object`, with the range that is requested in it. -/
def mapObject (options : FetchOptions) (s : SegmentCache) (needed : RangesetItem) :
    SegmentCache × Option RangesetItem :=
  match rangesetLookup s.file.items needed.start with
  | some _ => (s, none)
  | none =>
    if options.fullSegmentFetches then (s, none)
    else ({ s with prefetches := none, queued := [] }, some (mapObjectRange s.prefetches needed))

end SegmentCache

/-- What happens to a cache file. -/
inductive SegmentEvent where
  | prefetch (item : PrefetchItem)
  | mapObject (needed : RangesetItem)
  /-- `cloudlog_partial_fetch_complete` -/
  | fetched (fetch : Fetch)
  /-- `bluesky_cachefile_gc` removes the file; it may be looked up again later. -/
  | remove

def segmentStep (c : Crypt) (options : FetchOptions) (s : SegmentCache) :
    SegmentEvent → Option SegmentCache
  | .prefetch item => some (s.cloudlogPrefetch options item)
  | .mapObject needed => some (s.mapObject options needed).1
  | .fetched fetch => (c.partialFetchComplete s.file fetch).map fun file => { s with file := file }
  | .remove => some (.new s.file.logDir)

/-- A range lies inside another one. -/
def RangesetItem.Contains (r r' : RangesetItem) : Prop :=
  r.start ≤ r'.start ∧ r'.start + r'.length ≤ r.start + r.length

instance (r r' : RangesetItem) : Decidable (r.Contains r') :=
  inferInstanceAs (Decidable (_ ∧ _))

/-! ## Runs -/

/-- The items that an event is about belong to the segment. -/
def SegmentEvent.Within (layout : SegmentLayout) : SegmentEvent → Prop
  | .prefetch item => item.range ∈ layout.ranges
  | .mapObject needed => needed ∈ layout.ranges
  | .fetched _ => True
  | .remove => True

instance (layout : SegmentLayout) (event : SegmentEvent) : Decidable (event.Within layout) := by
  cases event <;> unfold SegmentEvent.Within <;> infer_instance

namespace SegmentCache

/-- The queue holds what has been queued since the last request, in order. -/
structure Inv (layout : SegmentLayout) (s : SegmentCache) : Prop where
  perm : (s.prefetches.getD []).Perm s.queued
  ordered : (s.prefetches.getD []).Ordered
  within : ∀ r ∈ s.queued, r ∈ layout.ranges
  nonempty : s.prefetches ≠ some []

variable {c : Crypt} {options : FetchOptions} {layout : SegmentLayout} {s s' : SegmentCache}

theorem inv_of_none (h : s.prefetches = none) (hq : s.queued = []) : s.Inv layout where
  perm := by rw [h, hq]; exact .refl _
  ordered := by rw [h]; exact .nil
  within := by rw [hq]; nofun
  nonempty := by rw [h]; nofun

/-- A prefetch changes nothing, or queues the range. -/
theorem cloudlogPrefetch_cases (options : FetchOptions) (s : SegmentCache) (item : PrefetchItem) :
    s.cloudlogPrefetch options item = s ∨
      s.cloudlogPrefetch options item =
        { s with
          prefetches := some
            (rangesetInsert (s.prefetches.getD []) item.range.start item.range.length).1
          queued := item.range :: s.queued } := by
  unfold cloudlogPrefetch
  split_ifs
  all_goals try exact Or.inl rfl
  cases rangesetLookup s.file.items item.range.start with
  | some _ => exact Or.inl rfl
  | none => exact Or.inr rfl

/-- A round of the loop changes nothing, or requests a range and frees the queue. -/
theorem mapObject_cases (options : FetchOptions) (s : SegmentCache) (needed : RangesetItem) :
    s.mapObject options needed = (s, none) ∨
      s.mapObject options needed =
        ({ s with prefetches := none, queued := [] },
          some (mapObjectRange s.prefetches needed)) := by
  unfold mapObject
  cases rangesetLookup s.file.items needed.start with
  | some _ => exact Or.inl rfl
  | none =>
    by_cases hfull : options.fullSegmentFetches = true
    · exact Or.inl (if_pos hfull)
    · exact Or.inr (if_neg hfull)

theorem Inv.step (h : s.Inv layout) {event : SegmentEvent} (hok : event.Within layout)
    (hstep : segmentStep c options s event = some s') : s'.Inv layout := by
  cases event with
  | prefetch item =>
    rw [segmentStep, some_inj] at hstep
    rw [← hstep]
    rcases s.cloudlogPrefetch_cases options item with hsame | hqueued
    · rw [hsame]
      exact h
    · rw [hqueued]
      constructor
      · exact (rangesetInsert_perm _ _ _).trans (h.perm.cons _)
      · exact rangesetInsert_sorted h.ordered _ _
      · exact List.forall_mem_cons.mpr ⟨hok, h.within⟩
      · simp [rangesetInsert]
  | mapObject needed =>
    rw [segmentStep, some_inj] at hstep
    rw [← hstep]
    rcases s.mapObject_cases options needed with hsame | hrequest
    · rw [hsame]
      exact h
    · rw [hrequest]
      exact inv_of_none rfl rfl
  | fetched fetch =>
    rcases map_eq_some_iff.mp hstep with ⟨file, -, rfl⟩
    exact ⟨h.perm, h.ordered, h.within, h.nonempty⟩
  | remove =>
    rw [segmentStep, some_inj] at hstep
    rw [← hstep]
    exact inv_of_none rfl rfl

theorem Inv.run (h : s.Inv layout)
    (hrun : Reachable (segmentStep c options) (fun _ event => event.Within layout) s s') :
    s'.Inv layout :=
  hrun.invariant (I := fun s => s.Inv layout) h fun _ _ _ hs hok hstep => hs.step hok hstep

/-- What is requested while nothing is queued, or something is. -/
theorem Inv.request (h : s.Inv layout) (needed : RangesetItem) :
    (s.queued = [] ∧ mapObjectRange s.prefetches needed = needed) ∨
    ∃ first ∈ s.queued, ∃ last ∈ s.queued,
      (∀ r ∈ s.queued, first.start ≤ r.start) ∧
      (∀ r ∈ s.queued, r.start + r.length ≤ last.start + last.length) ∧
      mapObjectRange s.prefetches needed =
        let start := min first.start needed.start
        ⟨start, max (start + (last.start + last.length - first.start))
          (needed.start + needed.length) - start⟩ := by
  cases hqueue : s.prefetches with
  | none =>
    have hperm := h.perm
    rw [hqueue] at hperm
    refine Or.inl ⟨hperm.nil_eq.symm, ?_⟩
    simp [mapObjectRange]
  | some set =>
    have hperm := h.perm
    have hordered := h.ordered
    have hne := h.nonempty
    rw [hqueue] at hperm hordered hne
    rw [getD_some] at hperm hordered
    have hset : ∀ r ∈ set, r ∈ layout.ranges := fun r hr => h.within r (hperm.mem_iff.mp hr)
    rcases SegmentLayout.extents hset hordered fun hnil => hne (congrArg some hnil) with
      ⟨first, hfirst, last, hlast, hextents, hle, hstop⟩
    refine Or.inr ⟨first, hperm.mem_iff.mp hfirst, last, hperm.mem_iff.mp hlast,
      fun r hr => hle r (hperm.mem_iff.mpr hr), fun r hr => hstop r (hperm.mem_iff.mpr hr), ?_⟩
    simp only [mapObjectRange, hextents]

end SegmentCache

/-- In every run, a range that is requested contains the item that is needed and starts where an
item starts, and the queue is freed.  It contains what was queued exactly if nothing was, or if
something of it starts no later than the needed item: the end is computed from where the request
starts, and not from where the queue starts. -/
theorem range_request_covers (c : Crypt) (options : FetchOptions) (layout : SegmentLayout)
    {logDir : Nat} {s : SegmentCache}
    (hrun : Reachable (segmentStep c options) (fun _ event => event.Within layout)
      (.new logDir) s) {needed : RangesetItem} (hneeded : needed ∈ layout.ranges)
    {request : RangesetItem} (hrequest : (s.mapObject options needed).2 = some request) :
    request.Contains needed ∧ (∃ r ∈ layout.ranges, request.start = r.start) ∧
      (s.mapObject options needed).1.prefetches = none ∧
      ((∀ r ∈ s.queued, request.Contains r) ↔
        s.queued = [] ∨ ∃ r ∈ s.queued, r.start ≤ needed.start) := by
  have h := SegmentCache.Inv.run (SegmentCache.inv_of_none rfl rfl) hrun
  rcases s.mapObject_cases options needed with hsame | hmap
  · rw [hsame] at hrequest
    cases hrequest
  rw [hmap] at hrequest ⊢
  rw [← some_inj.mp hrequest]
  rcases h.request needed with ⟨hnone, hrange⟩ | ⟨first, hfirst, last, hlast, hle, hstop, hrange⟩
  · rw [hrange, hnone]
    exact ⟨⟨le_rfl, le_rfl⟩, ⟨needed, hneeded, rfl⟩, rfl, fun _ => Or.inl rfl, fun _ => nofun⟩
  · have hwithin := h.within first hfirst
    have hpos := layout.positive first hwithin
    have hend := hstop first hfirst
    rw [hrange]
    refine ⟨⟨min_le_right _ _, ?_⟩, ?_, rfl, ?_, ?_⟩
    · simp only
      omega
    · rcases min_choice first.start needed.start with hmin | hmin
      · exact ⟨first, hwithin, hmin⟩
      · exact ⟨needed, hneeded, hmin⟩
    · intro hcovers
      refine Or.inr ⟨first, hfirst, ?_⟩
      by_contra hlater
      -- the needed item ends before the queue starts, and the request before the queue ends
      have hbefore : needed.start + needed.length ≤ first.start := by
        rcases layout.eq_or_apart hneeded hwithin with rfl | hapart | hapart
        · exact absurd le_rfl hlater
        · exact hapart
        · omega
      have hlastEnd := (hcovers last hlast).2
      simp only at hlastEnd
      omega
    · rintro (hnone | ⟨r, hr, hstart⟩)
      · rw [hnone] at hfirst
        cases hfirst
      · have hmin : min first.start needed.start = first.start :=
          min_eq_left ((hle r hr).trans hstart)
        intro r' hr'
        have hfirst' := hle r' hr'
        have hstop' := hstop r' hr'
        rw [hmin]
        refine ⟨hfirst', ?_⟩
        simp only
        omega

/-- Three items of a hundred bytes. -/
def threeItems : SegmentLayout where
  ranges := [⟨0, 100⟩, ⟨100, 100⟩, ⟨200, 100⟩]
  positive := by decide
  apart := by decide

def queueRange (range : RangesetItem) : SegmentEvent :=
  .prefetch ⟨false, false, true, range⟩

theorem range_request_covers_before :
    ∃ s : SegmentCache, s.queued = [⟨0, 100⟩, ⟨0, 100⟩, ⟨200, 100⟩] ∧
      (s.mapObject .default ⟨100, 100⟩).2 = some ⟨0, 300⟩ ∧
      ∀ r ∈ s.queued, RangesetItem.Contains ⟨0, 300⟩ r := by
  obtain ⟨s, hs⟩ : ∃ s, s = (((SegmentCache.new 0).cloudlogPrefetch .default
      ⟨false, false, true, ⟨200, 100⟩⟩).cloudlogPrefetch .default
      ⟨false, false, true, ⟨0, 100⟩⟩).cloudlogPrefetch .default ⟨false, false, true, ⟨0, 100⟩⟩ :=
    ⟨_, rfl⟩
  have hrun : Reachable (segmentStep toyCrypt .default) (fun _ event => event.Within threeItems)
      (.new 0) s := by
    rw [hs]
    exact .next (queueRange ⟨0, 100⟩) (.next (queueRange ⟨0, 100⟩) (.next (queueRange ⟨200, 100⟩)
      .start (by decide) rfl) (by decide) rfl) (by decide) rfl
  have hqueued : s.queued = [⟨0, 100⟩, ⟨0, 100⟩, ⟨200, 100⟩] := by rw [hs]; rfl
  have hmap : (s.mapObject .default ⟨100, 100⟩).2 = some ⟨0, 300⟩ := by rw [hs]; rfl
  refine ⟨s, hqueued, hmap, ?_⟩
  refine (range_request_covers _ _ _ hrun (by decide) hmap).2.2.2.mpr (Or.inr ?_)
  rw [hqueued]
  exact ⟨⟨0, 100⟩, by decide, by decide⟩

/-- The third item is queued when the first one is needed: only the first is requested. -/
theorem queued_range_lost :
    ∃ s, segmentStep toyCrypt .default (.new 0) (queueRange ⟨200, 100⟩) = some s ∧
      s.prefetches = some [⟨200, 100⟩] ∧
      (s.mapObject .default ⟨0, 100⟩).2 = some ⟨0, 100⟩ ∧
      (s.mapObject .default ⟨0, 100⟩).1.prefetches = none ∧
      ¬ RangesetItem.Contains ⟨0, 100⟩ ⟨200, 100⟩ :=
  ⟨_, rfl, rfl, rfl, rfl, by decide⟩

end BlueSky
