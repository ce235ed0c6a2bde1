import BlueSky.Proxy.Flush

/-!
# Mounting after a crash in a cloud flush

The segments of a flush are uploaded in any order, and a proxy that starts looks only into
the segment with the highest number.  So the store can be mounted if the crash leaves none
or all of the segments of the flush that was running, and not in general.

Main results:

- Theorem {lit}`mountable_of_none_or_all`: the store can be mounted after such a crash.
-/

namespace BlueSky

open List ProxyState TransitionLib

/-- Every step is allowed. -/
def anyStep (_ : ProxyState) (_ : Event) : Prop :=
  True

instance (s : ProxyState) (e : Event) : Decidable (anyStep s e) :=
  inferInstanceAs (Decidable True)

variable {s : ProxyState}

theorem flushInv_reachable {ok : ProxyState → Event → Prop} {disableAggregation : Bool}
    (hs : Reachable step ok (start disableAggregation) s) :
    CoreInv s ∧ FlushInv s :=
  hs.invariant (I := fun s => CoreInv s ∧ FlushInv s)
    ⟨coreInv_start disableAggregation, flushInv_start disableAggregation⟩
    fun _ _ _ h _ hstep => ⟨coreInv_step h.1 hstep, flushInv_step h.1 h.2 hstep⟩

/-- The store holds no segment of the flush that runs, or the flush has handed over all its
segments and the store holds all of them. -/
def NoneOrAllStored (s : ProxyState) : Prop :=
  (∀ n ∈ s.cloud.stored, n < s.flushBase) ∨
    ((∃ marker start, s.flushd = .uploading marker start) ∧ s.uploaded)

variable {n : Nat} {segment : CloudSegment}

/-- The loader finds the checkpoint of the last segment. -/
theorem checkpointLoad_of_last {c : CloudLogState} {checkpoint : CloudObject}
    (hsegment : c.segments[n]? = some segment) (hlast : lastCheckpoint segment = some checkpoint)
    (hstored : ∀ m, m ∈ c.stored ↔ m ≤ n) : checkpointLoad c = .checkpoint checkpoint := by
  have hmax : c.stored.max? = some n := by
    rw [max?_eq_some_iff]
    exact ⟨(hstored n).mpr (Nat.le_refl n), fun m hm => (hstored m).mp hm⟩
  unfold checkpointLoad CloudLogState.storedSegment
  rw [hmax]
  simp only [(hstored n).mpr (Nat.le_refl n), if_true, hsegment, Option.getD_some, hlast]

/-- A store whose segments are all there up to one with a checkpoint. -/
theorem mountable_of_last {items : List Item} {c : CloudLogState} (hc : CloudOk items c)
    {checkpoint : CloudObject} (hsegment : c.segments[n]? = some segment)
    (hlast : lastCheckpoint segment = some checkpoint) (hstored : ∀ m, m ∈ c.stored ↔ m ≤ n) :
    Mountable c := by
  have hn : n < c.segments.length := (List.getElem?_eq_some_iff.mp hsegment).1
  refine ⟨checkpoint, checkpointLoad_of_last hsegment hlast hstored, ?_⟩
  have hall : c.allSegments[n]? = some segment := by
    unfold CloudLogState.allSegments
    rw [getElem?_append_left hn, hsegment]
  rcases hc.listed hall (lastCheckpoint_mem hlast).1 with ⟨l₀, hl₀, hseq, hat⟩
  intro l hl
  rcases leadsTo_located hc hn (fun m hm => (hstored m).mpr hm) hl₀ hat (Nat.le_of_eq hseq) hl
    with ⟨id, hlid, hle⟩
  rcases hc.storeGet hn (fun m hm => (hstored m).mpr hm) hlid hle with ⟨object, hget, -, -⟩
  rw [hget]
  rfl

/-- After such a crash the store holds the segments up to one with a checkpoint: the last one
of a flush that has completed, or the last one of the flush that was running. -/
theorem exists_last_segment (hcore : CoreInv s) (hflush : FlushInv s) (hflushed : 0 < s.flushBase)
    (hcrash : NoneOrAllStored s) :
    ∃ n segment checkpoint, s.cloud.segments[n]? = some segment ∧
      lastCheckpoint segment = some checkpoint ∧ (∀ m, m ∈ s.cloud.stored ↔ m ≤ n) ∧
      (n + 1 = s.flushBase ∨
        ((∃ marker start, s.flushd = .uploading marker start) ∧
          n + 1 = s.cloud.segments.length)) := by
  rcases Nat.exists_eq_add_of_lt hflushed with ⟨n, hn⟩
  rw [Nat.zero_add] at hn
  by_cases hbase : s.cloud.segments.length = s.flushBase ∨ ∀ n ∈ s.cloud.stored, n < s.flushBase
  · rcases hflush.base_checkpoint hn with ⟨segment, checkpoint, hsegment, hlast⟩
    refine ⟨n, segment, checkpoint, hsegment, hlast, fun m => ⟨fun hm => ?_, fun hm => ?_⟩,
      Or.inl hn.symm⟩
    · rcases hbase with hlen | hlt
      · have := hflush.stored_lt m hm
        omega
      · have := hlt m hm
        omega
    · exact hflush.base_stored m (by omega)
  · rcases not_or.mp hbase with ⟨hlen, hnot⟩
    rcases hcrash with hlt | ⟨⟨marker, start, hflushd⟩, huploaded⟩
    · exact absurd hlt hnot
    · have hphase := hflush.phase
      rw [hflushd] at hphase
      rcases hphase with ⟨hdata, -, hsame | ⟨rest, checkpoint, hlog, -, hck⟩⟩
      · exact absurd hsame hlen
      · rcases hcore.cloud.last_segment hdata hlog hck with ⟨init, segment, hsegments, hlast⟩
        have hlength : s.cloud.segments.length = init.length + 1 := by
          rw [hsegments]
          simp
        refine ⟨init.length, segment, checkpoint, ?_, hlast, fun m => ⟨fun hm => ?_, fun hm => ?_⟩,
          Or.inr ⟨⟨marker, start, hflushd⟩, hlength.symm⟩⟩
        · rw [hsegments, getElem?_concat_length]
        · have := hflush.stored_lt m hm
          omega
        · have hall : ∀ n < s.cloud.segments.length, n ∈ s.cloud.stored := by
            simpa [ProxyState.uploaded] using huploaded
          exact hall m (by omega)

/-- The store can be mounted after any sequence of flushes, in whatever order the segments
have been uploaded, if the crash leaves none or all of the segments of the flush that was
running. -/
theorem mountable_of_none_or_all (disableAggregation : Bool) (s : ProxyState)
    (hs : Reachable step anyStep (start disableAggregation) s) (hflushed : 0 < s.flushBase)
    (hcrash : NoneOrAllStored s) : Mountable s.cloud := by
  rcases flushInv_reachable hs with ⟨hcore, hflush⟩
  rcases exists_last_segment hcore hflush hflushed hcrash with
    ⟨n, segment, checkpoint, hsegment, hlast, hstored, -⟩
  exact mountable_of_last hcore.cloud hsegment hlast hstored

/-! ## The store without the last segment of a flush -/

/-- Where the objects of a segment lie when the segments before it are taken away. -/
theorem mem_drop_of_getElem? {segments : List CloudSegment} {base : Nat}
    (h : segments[n]? = some segment) (hn : base ≤ n) :
    segment ∈ segments.drop base := by
  have hdrop : (segments.drop base)[n - base]? = some segment := by
    rw [getElem?_drop, Nat.add_sub_cancel' hn, h]
  exact mem_of_getElem? hdrop

theorem log_eq_take_append (c : CloudLogState) (base : Nat) :
    c.log = (c.segments.take base).flatten ++ ((c.segments.drop base).flatten ++ c.data) := by
  rw [← append_assoc, ← flatten_append, take_append_drop]
  rfl

/-- A segment of the flush that runs holds no checkpoint, unless it is the one that the map
was written to. -/
theorem plain_of_segment (hcore : CoreInv s) (hflush : FlushInv s)
    (hsegment : s.cloud.segments[n]? = some segment) (hn : s.flushBase ≤ n)
    (hmissing : (∃ marker start, s.flushd = .uploading marker start) →
      n + 1 < s.cloud.segments.length) :
    ∀ object ∈ segment, object.payload.isCheckpoint = false := by
  have hlt : n < s.cloud.segments.length := (List.getElem?_eq_some_iff.mp hsegment).1
  have hphase := hflush.phase
  have hsplit := log_eq_take_append s.cloud s.flushBase
  cases hflushd : s.flushd with
  | idle | waiting | committing =>
    rw [hflushd] at hphase
    have := hphase.1
    omega
  | draining marker start | serializing marker start =>
    rw [hflushd] at hphase
    rcases hphase with ⟨rest, hlog, hrest, -⟩
    rw [hlog] at hsplit
    have heq := append_cancel_left hsplit
    intro object hobject
    refine hrest object ?_
    rw [heq]
    exact mem_append_left _ (mem_flatten.mpr ⟨segment, mem_drop_of_getElem? hsegment hn, hobject⟩)
  | uploading marker start =>
    rw [hflushd] at hphase
    rcases hphase with ⟨hdata, -, hsame | ⟨rest, checkpoint, hlog, hrest, hck⟩⟩
    · omega
    · rcases hcore.cloud.last_segment hdata hlog hck with ⟨init, last, hsegments, hlast⟩
      have hn' := hmissing ⟨marker, start, hflushd⟩
      rw [hsegments, length_append, length_singleton] at hn'
      rw [hsegments, getElem?_append_left (by omega)] at hsegment
      -- The checkpoint is the last object of the last segment, so the others are plain.
      rcases eq_nil_or_concat last with rfl | ⟨front, x, rfl⟩
      · cases hlast
      · rw [hlog, hdata, append_nil, append_assoc] at hsplit
        have heq := append_cancel_left hsplit
        have hbase : s.flushBase ≤ init.length := by omega
        rw [hsegments, drop_append_of_le_length hbase, flatten_append,
          flatten_singleton, concat_eq_append, ← append_assoc] at heq
        have hfront := append_inj_left' heq rfl
        intro object hobject
        refine hrest object ?_
        rw [hfront]
        exact mem_append_left _
          (mem_flatten.mpr ⟨segment, mem_drop_of_getElem? hsegment hn, hobject⟩)

/-! ## A crash between two uploads -/

/-- An empty directory. -/
def emptyDirectory : InodeImage where
  mode := 493
  uid := 0
  gid := 0
  nlink := 1
  changeCount := 1
  atime := 0
  ctime := 0
  mtime := 0
  ntime := 0
  body := .directory []

/-- Create the root directory, and synchronize it while the flush daemon is idle. -/
def syncRoot : List Event :=
  [.modify 1 emptyDirectory [], .startSync 1, .logWrite, .logCommit, .finishSync 1]

/-- A flush of the root directory up to the upload. -/
def flushRoot : List Event :=
  [.getCommitPoint, .logWrite, .logCommit, .readSeqNum, .drain 1, .endDrain, .writeMap]

/-- The end of a flush. -/
def endFlush : List Event :=
  [.writeCommitPoint, .logWrite, .logCommit, .finishFlush]

/-- One flush into three segments completes, and all three of a second one are stored, in
another order than they were written. -/
theorem mountable_of_none_or_all_second_flush :
    ∃ s, Reachable step anyStep (start true) s ∧ NoneOrAllStored s ∧
      s.cloud.stored = [4, 3, 5, 1, 0, 2] ∧ s.flushBase = 3 ∧ Mountable s.cloud := by
  have hfacts : ∃ s ∈ runWhile step anyStep (start true)
      (syncRoot ++ flushRoot ++ [.putComplete 2, .putComplete 0, .putComplete 1] ++ endFlush ++
        syncRoot ++ flushRoot ++ [.putComplete 5, .putComplete 3, .putComplete 4]),
      s.uploaded = true ∧ s.flushd = .uploading 6 0 ∧ s.cloud.stored = [4, 3, 5, 1, 0, 2] ∧
        s.flushBase = 3 := by
    decide +kernel
  rcases hfacts with ⟨s, hrun, huploaded, hflushd, hstored, hbase⟩
  have hs := reachable_of_runWhile .start hrun
  have hcrash : NoneOrAllStored s := Or.inr ⟨⟨_, _, hflushd⟩, huploaded⟩
  exact ⟨s, hs, hcrash, hstored, hbase, mountable_of_none_or_all true s hs (by omega) hcrash⟩

/-- A second flush into several segments crashes after the upload of the first of them, and
the loader finds no checkpoint in the last segment that is there. -/
theorem partial_flush_not_mountable :
    ∃ s, Reachable step anyStep (start true) s ∧ 0 < s.flushBase ∧
      checkpointLoad s.cloud = .fatal ∧ ¬ Mountable s.cloud := by
  have hfacts : ∃ s ∈ runWhile step anyStep (start true)
      (syncRoot ++ flushRoot ++ [.putComplete 2, .putComplete 0, .putComplete 1] ++ endFlush ++
        syncRoot ++ flushRoot ++ [.putComplete 3]),
      0 < s.flushBase ∧ checkpointLoad s.cloud = .fatal := by
    decide +kernel
  rcases hfacts with ⟨s, hrun, hbase, hfatal⟩
  refine ⟨s, reachable_of_runWhile .start hrun, hbase, hfatal, ?_⟩
  rintro ⟨object, hload, -⟩
  rw [hfatal] at hload
  cases hload

end BlueSky
