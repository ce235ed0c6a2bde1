import BlueSky.Proxy.Invariant
import BlueSky.Cloud.Store

/-!
# The phases of a cloud flush

What the cloud log holds in each phase of `flushd_cloud`: nothing is pending between two
flushes; while inodes are written, the flush has added no checkpoint and the inode map has
a range without a current section; and when the map has been written, the last object of
the flush is a checkpoint from which every entry of the map can be reached.

Main results:

- Structure {lit}`FlushInv`: the invariant of the phases.
- Theorem {lit}`flushInv_step`: every step keeps it.
-/

namespace BlueSky

open List Option PrecedenceLib ProxyState

/-! ## The invariant -/

/-- What the cloud log holds beyond the segments of the flushes that have completed. -/
def PhaseInv (c : CloudLogState) (base : Nat) : Flushd → Prop
  | .idle | .waiting _ | .committing _ _ => c.segments.length = base ∧ c.data = []
  | .draining _ _ | .serializing _ _ =>
    ∃ rest, c.log = (c.segments.take base).flatten ++ rest ∧
      (∀ object ∈ rest, object.payload.isCheckpoint = false) ∧
      (rest ≠ [] → ∃ r ∈ c.inodeMap, r.serialized = none)
  | .uploading _ _ =>
    c.data = [] ∧ (∀ r ∈ c.inodeMap, r.serialized ≠ none) ∧
      (c.segments.length = base ∨
        ∃ rest checkpoint, c.log = (c.segments.take base).flatten ++ rest ++ [checkpoint] ∧
          (∀ object ∈ rest, object.payload.isCheckpoint = false) ∧
          checkpoint.payload.isCheckpoint)

/-- The invariant of the phases. -/
structure FlushInv (s : ProxyState) : Prop where
  base_le : s.flushBase ≤ s.cloud.segments.length
  base_stored : ∀ n < s.flushBase, n ∈ s.cloud.stored
  stored_lt : ∀ n ∈ s.cloud.stored, n < s.cloud.segments.length
  base_checkpoint : ∀ {n : Nat}, s.flushBase = n + 1 →
    ∃ segment checkpoint, s.cloud.segments[n]? = some segment ∧
      lastCheckpoint segment = some checkpoint
  linked : ∀ r ∈ s.cloud.inodeMap, ∀ id, r.serialized = some id →
    ∃ checkpoint l, lastCheckpoint s.cloud.log = some checkpoint ∧ some (id, l) ∈ checkpoint.links
  phase : PhaseInv s.cloud s.flushBase s.flushd

theorem flushInv_start (disableAggregation : Bool) :
    FlushInv (ProxyState.start disableAggregation) where
  base_le := Nat.le_refl 0
  base_stored := by
    intro n hn
    cases hn
  stored_lt := by simp [ProxyState.start, CloudLogState.start]
  base_checkpoint := by
    intro n hn
    cases hn
  linked := by simp [ProxyState.start, CloudLogState.start]
  phase := ⟨rfl, rfl⟩

variable {s : ProxyState}

/-- A step that does not change the cloud log. -/
theorem FlushInv.congr {s' : ProxyState} (h : FlushInv s) (hcloud : s'.cloud = s.cloud)
    (hbase : s'.flushBase = s.flushBase) (hphase : PhaseInv s.cloud s.flushBase s'.flushd) :
    FlushInv s' := by
  rcases s' with ⟨items, inodes, dirtyList, syncs, log, cloud, flushd, flushBase, synced⟩
  subst hcloud hbase
  exact ⟨h.base_le, h.base_stored, h.stored_lt, h.base_checkpoint, h.linked, hphase⟩

theorem FlushInv.phase_of (h : FlushInv s) {flushd : Flushd} (hflushd : s.flushd = flushd) :
    PhaseInv s.cloud s.flushBase flushd :=
  hflushd ▸ h.phase

/-! ## Growth -/

/-- Parts of the invariant that growth keeps. -/
theorem FlushInv.grow (h : FlushInv s) {c' : CloudLogState}
    (hclosed : s.cloud.segments <+: c'.segments) (hstored : c'.stored = s.cloud.stored) :
    s.flushBase ≤ c'.segments.length ∧ (∀ n < s.flushBase, n ∈ c'.stored) ∧
      (∀ n ∈ c'.stored, n < c'.segments.length) ∧
      ∀ {n : Nat}, s.flushBase = n + 1 →
        ∃ segment checkpoint, c'.segments[n]? = some segment ∧
          lastCheckpoint segment = some checkpoint := by
  have hlen := hclosed.length_le
  refine ⟨Nat.le_trans h.base_le hlen, ?_, ?_, ?_⟩
  · rw [hstored]
    exact h.base_stored
  · intro n hn
    rw [hstored] at hn
    exact Nat.lt_of_lt_of_le (h.stored_lt n hn) hlen
  · intro n hn
    rcases h.base_checkpoint hn with ⟨segment, checkpoint, hsegment, hlast⟩
    rcases hclosed with ⟨rest, hrest⟩
    refine ⟨segment, checkpoint, ?_, hlast⟩
    rw [← hrest, getElem?_append_left (List.getElem?_eq_some_iff.mp hsegment).1, hsegment]

theorem take_of_prefix {segments segments' : List CloudSegment} (h : segments <+: segments')
    {base : Nat} (hbase : base ≤ segments.length) :
    segments'.take base = segments.take base := by
  rcases h with ⟨rest, hrest⟩
  rw [← hrest, take_append_of_le_length hbase]

/-- A log that holds nothing beyond some segments has no others. -/
theorem CloudOk.quiet {items : List Item} {c : CloudLogState} (hc : CloudOk items c)
    {base : Nat} (hbase : base ≤ c.segments.length)
    (hlog : c.log = (c.segments.take base).flatten) :
    c.segments.length = base ∧ c.data = [] := by
  have hrest : (c.segments.drop base).flatten ++ c.data = [] := by
    have hsplit : c.log =
        (c.segments.take base).flatten ++ ((c.segments.drop base).flatten ++ c.data) := by
      rw [← append_assoc, ← flatten_append, take_append_drop]
      rfl
    rw [hlog] at hsplit
    exact append_right_eq_self.mp hsplit.symm
  rcases append_eq_nil_iff.mp hrest with ⟨hdrop, hdata⟩
  refine ⟨?_, hdata⟩
  have hempty : c.segments.drop base = [] := by
    cases hd : c.segments.drop base with
    | nil => rfl
    | cons segment rest =>
      rw [hd, flatten_cons, append_eq_nil_iff] at hdrop
      have hmem : segment ∈ c.segments := mem_of_mem_drop (by rw [hd]; simp)
      rw [hdrop.1] at hmem
      exact absurd hmem hc.nonempty
  have := drop_eq_nil_iff.mp hempty
  omega

/-! ## Steps -/

section Steps

variable {s s' : ProxyState}

theorem flushInv_drain {inum : Nat} (hcore : CoreInv s) (h : FlushInv s)
    (hstep : Stepped s (.drain inum) s') : FlushInv s' := by
  cases hstep with | drain marker start inode hflushd hinode _ _ => ?_
  cases hx : inode.committedItem with
  | none => exact h.congr rfl rfl h.phase
  | some x =>
    have hxk := (hcore.committed hinode hx).1
    rcases hcore.drained hinode hx with ⟨hspec, hmap⟩
    have hinum := (hcore.blocks hinode).1
    rcases serialized_inodeMapInsert hcore.cloud.mapOk hinum x with ⟨hcurrent, hdirty⟩
    rw [← hmap] at hcurrent hdirty
    rcases hspec.grows.objects with ⟨objects, hlog, -, hobjects⟩
    have hplain : ∀ object ∈ objects, object.payload.isCheckpoint = false := by
      intro object hobject
      rcases hobjects object hobject with ⟨hid, -, item, hitem, hpayload, -⟩
      rw [hpayload]
      rcases hid with hid | ⟨item', bytes, hitem', hdata⟩
      · rcases hxk with ⟨item', hitem', hisInode, -⟩
        rw [hid, hitem'] at hitem
        rw [← some.inj hitem]
        cases hpay : item'.payload with
        | inode image => rfl
        | _ =>
          rw [hpay] at hisInode
          cases hisInode
      · rw [hitem'] at hitem
        rw [← some.inj hitem, hdata]
        rfl
    rcases h.grow hspec.grows.closed hspec.grows.stored with ⟨hle, hstored, hlt, hbase⟩
    refine ⟨hle, hstored, hlt, hbase, ?_, ?_⟩
    · intro r hr id hid
      have hold := hcurrent r hr (by rw [hid]; exact some_ne_none id)
      rcases h.linked r hold id hid with ⟨checkpoint, l, hlast, hlink⟩
      refine ⟨checkpoint, l, ?_, hlink⟩
      dsimp only [Option.elim]
      rw [hlog, lastCheckpoint_append_plain hplain, hlast]
    · rcases h.phase_of hflushd with ⟨rest, hrest, hplain', -⟩
      rw [hflushd]
      refine ⟨rest ++ objects, ?_, forall_mem_append.mpr ⟨hplain', hplain⟩, fun _ => hdirty⟩
      dsimp only [Option.elim]
      rw [hlog, take_of_prefix hspec.grows.closed h.base_le, hrest, append_assoc]

theorem closed_cloudlogFlush (c : CloudLogState) :
    c.segments <+: (cloudlogFlush c).segments ∧ (cloudlogFlush c).stored = c.stored := by
  have h := grows_flush [] (fun _ => True) c
  exact ⟨h.closed, h.stored⟩

theorem flushInv_writeMap (hcore : CoreInv s) (h : FlushInv s)
    (hstep : Stepped s .writeMap s') : FlushInv s' := by
  cases hstep with
  | keepMap marker start hflushd hcurrent =>
    -- Nothing has changed since the last checkpoint, so nothing was written.
    rcases h.phase_of hflushd with ⟨rest, hrest, -, hdirty⟩
    have hnil : rest = [] := by
      by_contra hne
      rcases hdirty hne with ⟨range, hrange, hnone⟩
      exact hcurrent range hrange hnone
    rw [hnil, append_nil] at hrest
    have hquiet := hcore.cloud.quiet h.base_le hrest
    have hsame : cloudlogFlush s.cloud = s.cloud := by
      rw [cloudlogFlush, if_pos hquiet.2]
    exact h.congr hsame rfl ⟨hquiet.2, hcurrent, Or.inl hquiet.1⟩
  | writeMap marker start hflushd r hchanged hr hsec => ?_
  have hwritten := hcore.mapWritten hsec
  generalize cloudlogSerialize (r.1 ++ [checkpointItem s.cloud.latestCleanerSeqSeen r.2])
    (r.1.length + 1) { s.cloud with inodeMap := r.2 } r.1.length = c at hwritten ⊢
  rcases closed_cloudlogFlush c with ⟨hflushClosed, hflushStored⟩
  have hclosed : s.cloud.segments <+: (cloudlogFlush c).segments :=
    List.IsPrefix.trans hwritten.grows.closed hflushClosed
  rcases h.grow hclosed (hflushStored.trans hwritten.grows.stored) with
    ⟨hle, hstored, hlt, hbase⟩
  rcases hwritten.last with ⟨rest, checkpoint, hlog, hplain, hck, -, hlinks⟩
  have hmap : (cloudlogFlush c).inodeMap = r.2 :=
    (inodeMap_cloudlogFlush c).trans hwritten.inodeMap
  refine ⟨hle, hstored, hlt, hbase, ?_, data_cloudlogFlush c, ?_, Or.inr ?_⟩
  · intro range hrange id hid
    rcases hlinks range (hmap ▸ hrange) id hid with ⟨l, hl⟩
    refine ⟨checkpoint, l, ?_, hl⟩
    rw [log_cloudlogFlush, hlog]
    exact lastCheckpoint_concat _ hck
  · intro range hrange
    rcases hsec.written range (hmap ▸ hrange) with ⟨id, hid⟩
    rw [hid]
    exact some_ne_none id
  · rcases h.phase_of hflushd with ⟨rest', hrest', hplain', -⟩
    refine ⟨rest' ++ rest, checkpoint, ?_, forall_mem_append.mpr ⟨hplain', hplain⟩, hck⟩
    dsimp only
    rw [log_cloudlogFlush, hlog, take_of_prefix hclosed h.base_le]
    change s.cloud.log ++ rest ++ [checkpoint] = _
    rw [hrest']
    simp only [append_assoc]

theorem flushInv_putComplete {n : Nat} (h : FlushInv s) (hstep : Stepped s (.putComplete n) s') :
    FlushInv s' := by
  cases hstep with | putComplete hlt _ => ?_
  refine ⟨h.base_le, ?_, ?_, h.base_checkpoint, h.linked, ?_⟩
  · exact fun m hm => mem_cons_of_mem _ (h.base_stored m hm)
  · exact forall_mem_cons.mpr ⟨hlt, h.stored_lt⟩
  · have hphase := h.phase
    cases hflushd : s.flushd <;>
      · rw [hflushd] at hphase
        exact hphase

/-- The last segment of a flush ends with the checkpoint. -/
theorem CloudOk.last_segment {items : List Item} {c : CloudLogState} (hc : CloudOk items c)
    (hdata : c.data = []) {objects : List CloudObject} {checkpoint : CloudObject}
    (hlog : c.log = objects ++ [checkpoint]) (hck : checkpoint.payload.isCheckpoint) :
    ∃ init segment, c.segments = init ++ [segment] ∧ lastCheckpoint segment = some checkpoint := by
  have hflat : c.segments.flatten = objects ++ [checkpoint] := by
    rw [← hlog, CloudLogState.log, hdata, append_nil]
  rcases eq_nil_or_concat c.segments with hnil | ⟨init, segment, hinit⟩
  · rw [hnil] at hflat
    simp at hflat
  · refine ⟨init, segment, by rw [hinit, concat_eq_append], ?_⟩
    rcases eq_nil_or_concat segment with hempty | ⟨front, last, hfront⟩
    · have hmem : segment ∈ c.segments := by
        rw [hinit]
        simp
      rw [hempty] at hmem
      exact absurd hmem hc.nonempty
    · rw [hinit, hfront] at hflat
      simp only [concat_eq_append, flatten_append, flatten_cons, flatten_nil, append_nil] at hflat
      rw [← append_assoc] at hflat
      rcases append_inj_right' hflat rfl with hlast
      rw [List.cons.injEq] at hlast
      rw [hfront, concat_eq_append, hlast.1]
      exact lastCheckpoint_concat front hck

theorem flushInv_writeCommitPoint (hcore : CoreInv s) (h : FlushInv s)
    (hstep : Stepped s .writeCommitPoint s') : FlushInv s' := by
  cases hstep with | writeCommitPoint marker start hflushd hall => ?_
  rcases h.phase_of hflushd with ⟨hdata, -, hnew⟩
  refine ⟨Nat.le_refl _, hall, h.stored_lt, ?_, h.linked, ⟨rfl, hdata⟩⟩
  intro n hn
  rcases hnew with hsame | ⟨rest, checkpoint, hlog, -, hck⟩
  · exact h.base_checkpoint (hsame.symm.trans hn)
  · rcases hcore.cloud.last_segment hdata hlog hck with ⟨init, segment, hsegments, hlast⟩
    have hn' : n = init.length := by
      have hlen : s.cloud.segments.length = n + 1 := hn
      rw [hsegments, length_append, length_singleton] at hlen
      omega
    refine ⟨segment, checkpoint, ?_, hlast⟩
    change s.cloud.segments[n]? = some segment
    rw [hsegments, hn', getElem?_concat_length]

theorem flushInv_step (hcore : CoreInv s) (h : FlushInv s) {e : Event}
    (hstep : s.step e = some s') : FlushInv s' := by
  have hstepped := stepped hstep
  cases e with
  | drain inum => exact flushInv_drain hcore h hstepped
  | writeMap => exact flushInv_writeMap hcore h hstepped
  | putComplete n => exact flushInv_putComplete h hstepped
  | writeCommitPoint => exact flushInv_writeCommitPoint hcore h hstepped
  | getCommitPoint =>
    cases hstepped with | getCommitPoint hflushd => ?_
    exact h.congr rfl rfl (h.phase_of hflushd :)
  | readSeqNum =>
    cases hstepped with | readSeqNum marker hflushd => ?_
    have hphase := h.phase_of hflushd
    refine h.congr rfl rfl ⟨[], ?_, by simp, fun hne => absurd rfl hne⟩
    rw [CloudLogState.log, hphase.2, append_nil, append_nil, ← hphase.1, take_length]
  | endDrain =>
    cases hstepped with | endDrain marker start hflushd => ?_
    exact h.congr rfl rfl (h.phase_of hflushd :)
  | finishFlush =>
    cases hstepped with | finishFlush start commit hflushd => ?_
    exact h.congr rfl rfl (h.phase_of hflushd :)
  | _ =>
    cases hstepped
    exact h.congr rfl rfl h.phase

end Steps

end BlueSky
