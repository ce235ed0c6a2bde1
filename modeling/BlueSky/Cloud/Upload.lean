import BlueSky.Format
import BlueSky.Lib.Lists
import BlueSky.Lib.Transition
import Mathlib.Data.List.Nodup
import Mathlib.Logic.Function.Basic
import Mathlib.Tactic.Tauto

/-!
# Uploads of segments

`bluesky_cloudlog_flush` turns the open segment into a record, a thread of its own encrypts the
segment and submits it, and `cloudlog_flush_complete` is called with the result of every PUT, which
it submits again if it failed.  The flusher waits for records to be complete and frees them.  Each
call is one step, and the steps of all threads interleave.  A step that would use a record that is
freed has no successor, as a call that waits has none.

Main results:

- Theorem {lit}`UploadInv.step`: every step keeps the invariant.
- Theorem {lit}`uploads_accounted`: the counter, the submissions and the flags of the items agree
  with the PUTs that were reported.
-/

namespace BlueSky

open List Option ByteLib ListLib TransitionLib

/-! ## The state -/

/-- A number as `%08d` prints it. -/
def decimal8 (n : Nat) : String :=
  String.ofList (List.replicate (8 - (toString n).length) '0') ++ toString n

/-- The name of a segment. -/
def segmentKey (directory sequence : Nat) : String :=
  "log-" ++ decimal8 directory ++ "-" ++ decimal8 sequence

/-- `SerializedRecord`.  The last three fields are history that the program does not keep: the
items that the segment was made of, what was submitted, and whether the PUTs that were reported
succeeded. -/
structure SerializedRecord where
  key : String
  rawData : Option Bytes
  data : Option Bytes
  items : List Nat
  complete : Bool
  contents : List Nat
  puts : List (String × Bytes)
  reports : List Bool

namespace SerializedRecord

/-- The segment is encrypted and submitted. -/
def started (record : SerializedRecord) (encrypted : Bytes) : SerializedRecord :=
  { record with
    rawData := none
    data := some encrypted
    puts := (record.key, encrypted) :: record.puts }

/-- A PUT has failed, and another one is submitted. -/
def resubmitted (record : SerializedRecord) (key : String) (data : Bytes) : SerializedRecord :=
  { record with
    puts := (key, data) :: record.puts
    reports := false :: record.reports }

/-- A PUT has succeeded. -/
def completed (record : SerializedRecord) : SerializedRecord :=
  { record with
    data := none
    items := []
    complete := true
    reports := true :: record.reports }

end SerializedRecord

/-- A PUT that was submitted and not yet reported, with the record that is notified. -/
structure PutRequest where
  record : Nat
  key : String
  data : Bytes

/-- The part of `BlueSkyCloudLogState` that the uploads use, with the flags of the items.  Records
are numbered in the order in which they were made. -/
structure UploadState where
  directory : Nat
  sequence : Nat
  data : Bytes
  writebackList : List Nat
  records : List SerializedRecord
  pendingSegments : List Nat
  uploadsPending : Int
  inFlight : List PutRequest
  /-- `CLOUDLOG_CLOUD` in `location_flags`. -/
  cloud : Nat → Bool
  /-- `CLOUDLOG_CLOUD` in `pending_write`. -/
  pending : Nat → Bool

namespace UploadState

/-- Nothing written yet.  Some items were in the cloud from the beginning. -/
def start (directory sequence : Nat) (cloud : Nat → Bool) : UploadState where
  directory := directory
  sequence := sequence
  data := []
  writebackList := []
  records := []
  pendingSegments := []
  uploadsPending := 0
  inFlight := []
  cloud := cloud
  pending := fun _ => false

/-- The end of `bluesky_cloudlog_serialize` for one item. -/
def serialize (s : UploadState) (item : Nat) (bytes : Bytes) : UploadState :=
  if s.cloud item || s.pending item then s
  else
    { s with
      data := s.data ++ bytes
      pending := Function.update s.pending item true
      writebackList := item :: s.writebackList }

/-- `bluesky_cloudlog_flush`, which waits while there are too many uploads. -/
def flush (concurrentUploads : Int) (s : UploadState) : Option UploadState :=
  if s.data.length = 0 then some s
  else if concurrentUploads < s.uploadsPending then none
  else
    let record : SerializedRecord :=
      { key := segmentKey s.directory s.sequence, rawData := some s.data, data := none
        items := s.writebackList, complete := false, contents := s.writebackList, puts := []
        reports := [] }
    some
      { s with
        uploadsPending := s.uploadsPending + 1
        writebackList := []
        records := s.records ++ [record]
        pendingSegments := s.records.length :: s.pendingSegments
        sequence := s.sequence + 1
        data := [] }

/-- `cloud_flush_background`, with what the encryption makes of the segment. -/
def flushBackground (s : UploadState) (r : Nat) (encrypted : Bytes) : Option UploadState := do
  let record ← s.records[r]?
  let _ ← record.rawData
  if r ∈ s.pendingSegments then
    some
      { s with
        records := s.records.set r (record.started encrypted)
        inFlight := s.inFlight ++ [⟨r, record.key, encrypted⟩] }
  else none

/-- `cloudlog_flush_complete` for one of the PUTs in flight. -/
def flushComplete (s : UploadState) (i : Nat) (result : Int) : Option UploadState := do
  let async ← s.inFlight[i]?
  let record ← s.records[async.record]?
  if async.record ∈ s.pendingSegments then
    if 0 ≤ result then
      some
        { s with
          records := s.records.set async.record record.completed
          uploadsPending := s.uploadsPending - 1
          inFlight := s.inFlight.eraseIdx i
          pending := fun item => if item ∈ record.items then false else s.pending item
          cloud := fun item => if item ∈ record.items then true else s.cloud item }
    else do
      let data ← record.data
      some
        { s with
          records := s.records.set async.record (record.resubmitted async.key data)
          inFlight := s.inFlight.eraseIdx i ++ [⟨async.record, async.key, data⟩] }
  else none

/-- One iteration of the loop in which `flushd_cloud` waits for segments. -/
def waitSegment (s : UploadState) : Option UploadState :=
  match s.pendingSegments with
  | [] => none
  | r :: rest => do
      let record ← s.records[r]?
      if record.complete then some { s with pendingSegments := rest } else none

end UploadState

/-- What the threads do. -/
inductive UploadEvent where
  | serialize (item : Nat) (bytes : Bytes)
  | flush
  | background (r : Nat) (encrypted : Bytes)
  | complete (i : Nat) (result : Int)
  | wait

/-- One step of one of the threads. -/
def uploadStep (concurrentUploads : Int) (s : UploadState) : UploadEvent → Option UploadState
  | .serialize item bytes => some (s.serialize item bytes)
  | .flush => s.flush concurrentUploads
  | .background r encrypted => s.flushBackground r encrypted
  | .complete i result => s.flushComplete i result
  | .wait => s.waitSegment

/-! ## The invariant -/

/-- The PUTs in flight for a record. -/
def requests (inFlight : List PutRequest) (r : Nat) : List PutRequest :=
  inFlight.filter fun async => async.record = r

/-- Where a record is between its creation and its completion, given its PUTs in flight. -/
inductive RecordPhase (r : Nat) (record : SerializedRecord) (asyncs : List PutRequest) : Prop
  | waiting (hcomplete : record.complete = false) (hitems : record.items = record.contents)
      (hraw : record.rawData ≠ none) (hdata : record.data = none) (hputs : record.puts = [])
      (hreports : record.reports = []) (hasyncs : asyncs = [])
  | uploading (data : Bytes) (n : Nat) (hcomplete : record.complete = false)
      (hitems : record.items = record.contents) (hraw : record.rawData = none)
      (hdata : record.data = some data)
      (hputs : record.puts = List.replicate (n + 1) (record.key, data))
      (hreports : record.reports = List.replicate n false)
      (hasyncs : asyncs = [⟨r, record.key, data⟩])
  | done (data : Bytes) (n : Nat) (hcomplete : record.complete = true)
      (hraw : record.rawData = none)
      (hputs : record.puts = List.replicate (n + 1) (record.key, data))
      (hreports : record.reports = true :: List.replicate n false) (hasyncs : asyncs = [])

/-- All items of the records. -/
def recordContents (records : List SerializedRecord) : List Nat :=
  (records.map SerializedRecord.contents).flatten

/-- The invariant of the uploads; {lit}`cloud` are the items that were in the cloud from the
beginning. -/
structure UploadInv (cloud : Nat → Bool) (s : UploadState) : Prop where
  phases : ∀ r record, s.records[r]? = some record → RecordPhase r record (requests s.inFlight r)
  known : ∀ async ∈ s.inFlight, async.record < s.records.length
  counter : s.uploadsPending = s.records.countP fun record => !record.complete
  waited : ∀ r record, s.records[r]? = some record → record.complete = false → r ∈ s.pendingSegments
  placed : (s.writebackList ++ recordContents s.records).Nodup
  placed_new : ∀ item ∈ s.writebackList ++ recordContents s.records, cloud item = false
  cloud_iff : ∀ item, s.cloud item = true ↔ cloud item = true ∨
    ∃ record ∈ s.records, record.complete = true ∧ item ∈ record.contents
  pending_iff : ∀ item, s.pending item = true ↔ item ∈ s.writebackList ∨
    ∃ record ∈ s.records, record.complete = false ∧ item ∈ record.contents

variable {item : Nat}
variable {records : List SerializedRecord} {record : SerializedRecord}

theorem mem_recordContents :
    item ∈ recordContents records ↔ ∃ record ∈ records, item ∈ record.contents := by
  simp [recordContents]

theorem UploadInv.start (directory sequence : Nat) (cloud : Nat → Bool) :
    UploadInv cloud (UploadState.start directory sequence cloud) where
  phases := by simp [UploadState.start]
  known := by simp [UploadState.start]
  counter := rfl
  waited := by simp [UploadState.start]
  placed := nodup_nil
  placed_new := by simp [UploadState.start, recordContents]
  cloud_iff := by simp [UploadState.start]
  pending_iff := by simp [UploadState.start]

/-! ## Steps -/

theorem requests_append (inFlight : List PutRequest) (async : PutRequest) (r : Nat) :
    requests (inFlight ++ [async]) r =
      requests inFlight r ++ if async.record = r then [async] else [] := by
  unfold requests
  rw [filter_append]
  by_cases h : async.record = r
  · simp [h]
  · simp [h]

variable {inFlight : List PutRequest} {i : Nat}

/-- Taking a PUT out of those in flight. -/
theorem requests_eraseIdx {async : PutRequest} (h : inFlight[i]? = some async) (r : Nat) :
    (async.record ≠ r → requests (inFlight.eraseIdx i) r = requests inFlight r) ∧
      (∀ async', async.record = r → requests inFlight r = [async'] →
        async = async' ∧ requests (inFlight.eraseIdx i) r = []) := by
  rcases split_at h with ⟨pre, post, rfl, -, -, herase⟩
  rw [herase]
  unfold requests
  simp only [filter_append]
  constructor
  · intro hne
    rw [filter_cons_of_neg (by simpa using hne)]
  · intro async' heq hone
    rw [filter_cons_of_pos (by simpa using heq), append_eq_singleton_iff] at hone
    rcases hone with ⟨hpre, hpost⟩ | ⟨-, hpost⟩
    · rw [List.cons.injEq] at hpost
      exact ⟨hpost.1, by rw [hpre, hpost.2, append_nil]⟩
    · cases hpost

variable {r : Nat} {record' : SerializedRecord}

/-- The records after one of them has changed. -/
theorem phases_set {inFlight' : List PutRequest}
    (h : ∀ r' record, records[r']? = some record → RecordPhase r' record (requests inFlight r'))
    (hothers : ∀ r', r' ≠ r → requests inFlight' r' = requests inFlight r')
    (hrecord : RecordPhase r record' (requests inFlight' r)) (r' : Nat) (record : SerializedRecord)
    (hget : (records.set r record')[r']? = some record) :
    RecordPhase r' record (requests inFlight' r') := by
  rcases getElem?_set_eq_some_iff.mp hget with ⟨⟨rfl, -⟩, rfl⟩ | ⟨hr, hget⟩
  · exact hrecord
  · rw [hothers r' hr]
    exact h r' record hget

theorem recordContents_set
    (hget : records[r]? = some record) (hsame : record'.contents = record.contents) :
    recordContents (records.set r record') = recordContents records := by
  rcases split_at hget with ⟨pre, post, rfl, -, hset, -⟩
  rw [hset record']
  simp only [recordContents, map_append, map_cons, hsame]

variable {cloud : Nat → Bool} {s : UploadState}

theorem UploadInv.serialize (h : UploadInv cloud s) (item : Nat) (bytes : Bytes) :
    UploadInv cloud (s.serialize item bytes) := by
  unfold UploadState.serialize
  split
  · exact h
  · next hnew =>
      rw [Bool.or_eq_true, not_or, h.cloud_iff, h.pending_iff, not_or, not_or] at hnew
      have hout : item ∉ s.writebackList ++ recordContents s.records := by
        intro hmem
        rcases mem_append.mp hmem with hmem | hmem
        · exact hnew.2.1 hmem
        · rcases mem_recordContents.mp hmem with ⟨record, hrecord, hitem⟩
          cases hcomplete : record.complete with
          | true => exact hnew.1.2 ⟨record, hrecord, hcomplete, hitem⟩
          | false => exact hnew.2.2 ⟨record, hrecord, hcomplete, hitem⟩
      refine { h with placed := ?_, placed_new := ?_, pending_iff := ?_ }
      · exact nodup_cons.mpr ⟨hout, h.placed⟩
      · intro item' hmem
        rcases mem_cons.mp hmem with rfl | hmem
        · exact Bool.not_eq_true _ ▸ hnew.1.1
        · exact h.placed_new item' hmem
      · intro item'
        by_cases hitem : item' = item
        · subst hitem
          simp
        · simp only [Function.update_of_ne hitem, h.pending_iff, mem_cons, hitem, false_or]

variable {s' : UploadState} {concurrentUploads : Int}

theorem UploadInv.flush (h : UploadInv cloud s) (hstep : s.flush concurrentUploads = some s') :
    UploadInv cloud s' := by
  unfold UploadState.flush at hstep
  split at hstep
  · cases hstep
    exact h
  · split at hstep
    · cases hstep
    · cases hstep
      have hcontents : ∀ record : SerializedRecord, recordContents (s.records ++ [record]) =
          recordContents s.records ++ record.contents := by
        intro record
        simp [recordContents]
      refine ⟨?_, ?_, ?_, ?_, ?_, ?_, ?_, ?_⟩
      · intro r record hget
        rcases getElem?_concat_eq_some_iff.mp hget with hget | ⟨rfl, rfl⟩
        · exact h.phases r record hget
        · refine .waiting rfl rfl nofun rfl rfl rfl ?_
          rw [requests, filter_eq_nil_iff]
          intro async hasync
          rw [decide_eq_true_eq]
          exact Nat.ne_of_lt (h.known async hasync)
      · intro async hasync
        have := h.known async hasync
        simp only [length_append, length_singleton]
        omega
      · have := h.counter
        simp only [countP_append, countP_singleton, Bool.not_false, if_true]
        omega
      · intro r record hget hcomplete
        rcases getElem?_concat_eq_some_iff.mp hget with hget | ⟨rfl, -⟩
        · exact mem_cons_of_mem _ (h.waited r record hget hcomplete)
        · exact mem_cons_self
      · rw [hcontents, nil_append]
        exact (perm_append_comm.nodup_iff).mp h.placed
      · intro item hitem
        rw [hcontents, nil_append] at hitem
        exact h.placed_new item ((perm_append_comm.mem_iff).mp hitem)
      · intro item
        rw [h.cloud_iff]
        simp
      · intro item
        rw [h.pending_iff]
        simp only [mem_append, mem_singleton, not_mem_nil, false_or]
        constructor
        · rintro (hitem | ⟨record, hrecord, hand⟩)
          · exact ⟨_, Or.inr rfl, rfl, hitem⟩
          · exact ⟨record, Or.inl hrecord, hand⟩
        · rintro ⟨record, hrecord | rfl, hand⟩
          · exact Or.inr ⟨record, hrecord, hand⟩
          · exact Or.inl hand.2

/-- A property of some record, after one of them has changed. -/
theorem exists_mem_set
    (hget : records[r]? = some record) {P : SerializedRecord → Prop} (hP : P record' ↔ P record) :
    (∃ a ∈ records.set r record', P a) ↔ ∃ a ∈ records, P a := by
  rcases split_at hget with ⟨pre, post, rfl, -, hset, -⟩
  rw [hset record']
  simp only [mem_append, mem_cons, or_and_right, exists_or, exists_eq_left, hP]

/-- A record has changed; the counter and the flags have to be looked at. -/
theorem UploadInv.replace (h : UploadInv cloud s) {uploadsPending : Int}
    {cloud' pending' : Nat → Bool} (hget : s.records[r]? = some record)
    (hcontents : record'.contents = record.contents)
    (hcomplete : record'.complete = false → record.complete = false)
    (hothers : ∀ r', r' ≠ r → requests inFlight r' = requests s.inFlight r')
    (hphase : RecordPhase r record' (requests inFlight r))
    (hknown : ∀ async ∈ inFlight, async.record < s.records.length)
    (hcounter : uploadsPending = (s.records.set r record').countP fun record => !record.complete)
    (hcloud : ∀ item, cloud' item = true ↔ cloud item = true ∨
      ∃ record ∈ s.records.set r record', record.complete = true ∧ item ∈ record.contents)
    (hpending : ∀ item, pending' item = true ↔ item ∈ s.writebackList ∨
      ∃ record ∈ s.records.set r record', record.complete = false ∧ item ∈ record.contents) :
    UploadInv cloud { s with
      records := s.records.set r record', inFlight := inFlight, uploadsPending := uploadsPending
      cloud := cloud', pending := pending' } := by
  refine ⟨phases_set h.phases hothers hphase, ?_, hcounter, ?_, ?_, ?_, hcloud, hpending⟩
  · intro async hasync
    rw [length_set]
    exact hknown async hasync
  · intro r' a hget' hincomplete
    rcases getElem?_set_eq_some_iff.mp hget' with ⟨⟨rfl, -⟩, rfl⟩ | ⟨-, hget'⟩
    · exact h.waited r' record hget (hcomplete hincomplete)
    · exact h.waited r' a hget' hincomplete
  · dsimp only
    rw [recordContents_set hget hcontents]
    exact h.placed
  · dsimp only
    rw [recordContents_set hget hcontents]
    exact h.placed_new

/-- A record that stays as complete as it was. -/
theorem UploadInv.setRecord (h : UploadInv cloud s)
    (hget : s.records[r]? = some record) (hcontents : record'.contents = record.contents)
    (hcomplete : record'.complete = record.complete)
    (hothers : ∀ r', r' ≠ r → requests inFlight r' = requests s.inFlight r')
    (hphase : RecordPhase r record' (requests inFlight r))
    (hknown : ∀ async ∈ inFlight, async.record < s.records.length) :
    UploadInv cloud { s with records := s.records.set r record', inFlight := inFlight } := by
  refine h.replace hget hcontents hcomplete.symm.trans hothers hphase hknown ?_ ?_ ?_
  · have hcount := countP_set (fun record => !record.complete) hget record'
    rw [hcomplete] at hcount
    rw [h.counter]
    omega
  · intro item
    rw [h.cloud_iff, exists_mem_set hget (by rw [hcontents, hcomplete])]
  · intro item
    rw [h.pending_iff, exists_mem_set hget (by rw [hcontents, hcomplete])]

theorem UploadInv.flushBackground {encrypted : Bytes} (h : UploadInv cloud s)
    (hstep : s.flushBackground r encrypted = some s') :
    UploadInv cloud s' := by
  simp only [UploadState.flushBackground, bind_eq_bind, bind_eq_some_iff] at hstep
  rcases hstep with ⟨record, hget, raw, hraw, hstep⟩
  split at hstep
  · cases hstep
    have hlt := (List.getElem?_eq_some_iff.mp hget).1
    -- The record is still waiting for this thread.
    have hphase := h.phases r record hget
    cases hphase with
    | uploading data n hcomplete hitems hnone =>
      rw [hnone] at hraw
      cases hraw
    | done data n hcomplete hnone =>
      rw [hnone] at hraw
      cases hraw
    | waiting hcomplete hitems hsome hdata hputs hreports hasyncs =>
      apply h.setRecord hget
      · rfl
      · rfl
      · intro r' hr'
        rw [requests_append, if_neg (Ne.symm hr'), append_nil]
      · refine .uploading encrypted 0 hcomplete hitems rfl rfl ?_ hreports ?_
        · rw [SerializedRecord.started, hputs]
          rfl
        · rw [requests_append, hasyncs, if_pos rfl]
          rfl
      · intro async hasync
        rcases mem_append.mp hasync with hasync | hasync
        · exact h.known async hasync
        · rw [mem_singleton.mp hasync]
          exact hlt
  · cases hstep

/-- A PUT in flight belongs to a record that is being uploaded, and is the only one. -/
theorem UploadInv.uploading (h : UploadInv cloud s) {async : PutRequest}
    (hasync : s.inFlight[i]? = some async) :
    ∃ record data n, s.records[async.record]? = some record ∧ record.complete = false ∧
      record.items = record.contents ∧ record.rawData = none ∧ record.data = some data ∧
      record.puts = List.replicate (n + 1) (record.key, data) ∧
      record.reports = List.replicate n false ∧ async = ⟨async.record, record.key, data⟩ ∧
      requests (s.inFlight.eraseIdx i) async.record = [] := by
  have hmem := mem_of_getElem? hasync
  have hlt := h.known async hmem
  have hget : s.records[async.record]? = some s.records[async.record] :=
    getElem?_eq_getElem hlt
  have hrequest : async ∈ requests s.inFlight async.record :=
    mem_filter.mpr ⟨hmem, by simp⟩
  have hphase := h.phases _ _ hget
  generalize s.records[async.record] = record at *
  cases hphase with
  | waiting hcomplete hitems hraw hdata hputs hreports hasyncs =>
    rw [hasyncs] at hrequest
    cases hrequest
  | done data n hcomplete hraw hputs hreports hasyncs =>
    rw [hasyncs] at hrequest
    cases hrequest
  | uploading data n hcomplete hitems hraw hdata hputs hreports hasyncs =>
    rcases (requests_eraseIdx hasync async.record).2 _ rfl hasyncs with ⟨heq, hnone⟩
    exact ⟨record, data, n, hget, hcomplete, hitems, hraw, hdata, hputs, hreports, heq, hnone⟩

/-- The items of a record that becomes complete are in the cloud. -/
theorem cloud_complete
    (hget : records[r]? = some record) (hincomplete : record.complete = false)
    (hcomplete : record'.complete = true) (hcontents : record'.contents = record.contents)
    {first flag : Prop} (h : flag ↔ first ∨ ∃ a ∈ records, a.complete = true ∧ item ∈ a.contents) :
    (item ∈ record.contents ∨ flag) ↔
      first ∨ ∃ a ∈ records.set r record', a.complete = true ∧ item ∈ a.contents := by
  rcases split_at hget with ⟨pre, post, rfl, -, hset, -⟩
  rw [hset record', h]
  simp only [mem_append, mem_cons, or_and_right, exists_or, exists_eq_left, hcomplete,
    hincomplete, hcontents, Bool.false_eq_true, false_and, false_or, true_and]
  rw [or_left_comm, or_left_comm (b := ∃ _, _)]

/-- An item of a record is nowhere else. -/
theorem contents_only {pre post : List SerializedRecord} {writebackList : List Nat} {item : Nat}
    (hplaced : (writebackList ++ recordContents (pre ++ record :: post)).Nodup)
    (hitem : item ∈ record.contents) :
    item ∉ writebackList ∧ (∀ a ∈ pre, item ∉ a.contents) ∧ ∀ a ∈ post, item ∉ a.contents := by
  have hsplit : recordContents (pre ++ record :: post) =
      recordContents pre ++ (record.contents ++ recordContents post) := by
    simp [recordContents]
  rw [hsplit, nodup_append, nodup_append, nodup_append] at hplaced
  rcases hplaced with ⟨-, ⟨-, ⟨-, -, hpost⟩, hpre⟩, hwriteback⟩
  refine ⟨?_, ?_, ?_⟩
  · intro hmem
    exact hwriteback item hmem item (by simp [hitem]) rfl
  · intro a ha hmem
    exact hpre item (mem_recordContents.mpr ⟨a, ha, hmem⟩) item (by simp [hitem]) rfl
  · intro a ha hmem
    exact hpost item hitem item (mem_recordContents.mpr ⟨a, ha, hmem⟩) rfl

/-- The items of a record that becomes complete are no longer pending, and are in no other
record. -/
theorem pending_complete
    (hget : records[r]? = some record) (hincomplete : record.complete = false)
    (hcomplete : record'.complete = true) {writebackList : List Nat}
    (hplaced : (writebackList ++ recordContents records).Nodup) {flag : Prop}
    (h : flag ↔ item ∈ writebackList ∨ ∃ a ∈ records, a.complete = false ∧ item ∈ a.contents) :
    (item ∉ record.contents ∧ flag) ↔ item ∈ writebackList ∨
      ∃ a ∈ records.set r record', a.complete = false ∧ item ∈ a.contents := by
  rcases split_at hget with ⟨pre, post, rfl, -, hset, -⟩
  have honly := @contents_only record pre post writebackList item hplaced
  rw [hset record', h]
  simp only [mem_append, mem_cons, or_and_right, exists_or, exists_eq_left, hcomplete,
    hincomplete, Bool.true_eq_false, false_and, false_or, true_and]
  constructor
  · rintro ⟨hnot, hwriteback | hpre | hitem | hpost⟩
    · exact Or.inl hwriteback
    · exact Or.inr (Or.inl hpre)
    · exact absurd hitem hnot
    · exact Or.inr (Or.inr hpost)
  · rintro (hwriteback | ⟨a, ha, hfalse, hmem⟩ | ⟨a, ha, hfalse, hmem⟩)
    · exact ⟨fun hitem => (honly hitem).1 hwriteback, Or.inl hwriteback⟩
    · exact ⟨fun hitem => (honly hitem).2.1 a ha hmem, Or.inr (Or.inl ⟨a, ha, hfalse, hmem⟩)⟩
    · exact ⟨fun hitem => (honly hitem).2.2 a ha hmem,
        Or.inr (Or.inr (Or.inr ⟨a, ha, hfalse, hmem⟩))⟩

variable {result : Int}

theorem UploadInv.flushComplete (h : UploadInv cloud s)
    (hstep : s.flushComplete i result = some s') : UploadInv cloud s' := by
  simp only [UploadState.flushComplete, bind_eq_bind, bind_eq_some_iff] at hstep
  rcases hstep with ⟨async, hasync, record, hget, hstep⟩
  rcases h.uploading hasync with
    ⟨record₁, data, n, hget₁, hcomplete, hitems, hraw, hdata, hputs, hreports, heq, hnone⟩
  rw [hget, some.injEq] at hget₁
  subst hget₁
  have hothers : ∀ r', r' ≠ async.record →
      requests (s.inFlight.eraseIdx i) r' = requests s.inFlight r' := by
    intro r' hr'
    exact (requests_eraseIdx hasync r').1 (Ne.symm hr')
  have hknown : ∀ a ∈ s.inFlight.eraseIdx i, a.record < s.records.length := by
    intro a ha
    exact h.known a (mem_of_mem_eraseIdx ha)
  split at hstep
  · split at hstep
    · cases hstep
      refine h.replace hget rfl nofun hothers ?_ hknown ?_ ?_ ?_
      · exact .done data n rfl hraw hputs (congrArg (List.cons true) hreports) hnone
      · have hcount := countP_set (fun record => !record.complete) hget record.completed
        have hcounter := h.counter
        simp only [SerializedRecord.completed, hcomplete, Bool.not_false, Bool.toNat_true,
          Bool.not_true, Bool.toNat_false] at hcount ⊢
        omega
      · intro item
        rw [← cloud_complete hget hcomplete (show record.completed.complete = true from rfl) rfl
          (h.cloud_iff item), ← hitems]
        by_cases hitem : item ∈ record.items
        · simp [hitem]
        · simp [hitem]
      · intro item
        rw [← pending_complete hget hcomplete (show record.completed.complete = true from rfl)
          h.placed (h.pending_iff item), ← hitems]
        by_cases hitem : item ∈ record.items
        · simp [hitem]
        · simp [hitem]
    · rw [hdata] at hstep
      cases hstep
      apply h.setRecord hget
      · rfl
      · rfl
      · intro r' hr'
        rw [requests_append, if_neg (Ne.symm hr'), append_nil]
        exact hothers r' hr'
      · have hkey : async.key = record.key := by rw [heq]
        refine .uploading data (n + 1) hcomplete hitems hraw hdata ?_ ?_ ?_
        · rw [SerializedRecord.resubmitted, hputs, hkey]
          rfl
        · rw [SerializedRecord.resubmitted, hreports]
          rfl
        · rw [requests_append, hnone, if_pos rfl, hkey]
          rfl
      · intro a ha
        rcases mem_append.mp ha with ha | ha
        · exact hknown a ha
        · rw [mem_singleton.mp ha]
          exact (List.getElem?_eq_some_iff.mp hget).1
  · cases hstep

theorem UploadInv.waitSegment (h : UploadInv cloud s) (hstep : s.waitSegment = some s') :
    UploadInv cloud s' := by
  unfold UploadState.waitSegment at hstep
  cases hpending : s.pendingSegments with
  | nil =>
    rw [hpending] at hstep
    cases hstep
  | cons r rest =>
    rw [hpending] at hstep
    simp only [bind_eq_bind, bind_eq_some_iff] at hstep
    rcases hstep with ⟨record, hget, hstep⟩
    split at hstep
    · next hcomplete =>
        cases hstep
        refine { h with waited := ?_ }
        intro r' record' hget' hincomplete
        have hmem := h.waited r' record' hget' hincomplete
        rw [hpending] at hmem
        rcases mem_cons.mp hmem with rfl | hmem
        · rw [hget, some.injEq] at hget'
          rw [hget', hincomplete] at hcomplete
          cases hcomplete
        · exact hmem
    · cases hstep

/-- Every step keeps the invariant. -/
theorem UploadInv.step {e : UploadEvent} (h : UploadInv cloud s)
    (hstep : uploadStep concurrentUploads s e = some s') :
    UploadInv cloud s' := by
  cases e with
  | serialize item bytes =>
    cases hstep
    exact h.serialize item bytes
  | flush => exact h.flush hstep
  | background r encrypted => exact h.flushBackground hstep
  | complete i result => exact h.flushComplete hstep
  | wait => exact h.waitSegment hstep

/-! ## Runs -/

/-- The states of all runs of the threads. -/
def UploadReached (concurrentUploads : Int) (start : UploadState) : UploadState → Prop :=
  Reachable (uploadStep concurrentUploads) (fun _ _ => True) start

theorem UploadReached.inv {directory sequence : Nat}
    (h : UploadReached concurrentUploads (UploadState.start directory sequence cloud) s) :
    UploadInv cloud s :=
  Reachable.invariant (UploadInv.start directory sequence cloud)
    (fun _ _ _ hinv _ hstep => hinv.step hstep) h

/-- A record and its items agree with the PUTs that were reported. -/
structure RecordAccounted (s : UploadState) (record : SerializedRecord) : Prop where
  /-- One success makes the record complete, and no other is reported. -/
  once : record.reports.count true = if record.complete then 1 else 0
  /-- Every submission is the first one again. -/
  same : ∀ put ∈ record.puts, put.1 = record.key ∧ ∀ put' ∈ record.puts, put' = put
  /-- Every failure that was reported was followed by a submission. -/
  resubmitted : record.puts.length = record.reports.length +
    if record.complete ∨ record.rawData ≠ none then 0 else 1
  cloud : ∀ item ∈ record.contents, (s.cloud item = true ↔ true ∈ record.reports)
  pending : ∀ item ∈ record.contents, (s.pending item = true ↔ true ∉ record.reports)

/-- The flags of an item follow the record that it is in. -/
theorem UploadInv.flags (h : UploadInv cloud s)
    (hrecord : record ∈ s.records) (hitem : item ∈ record.contents) :
    (s.cloud item = true ↔ record.complete = true) ∧
      (s.pending item = true ↔ record.complete = false) := by
  have hnew : cloud item = false :=
    h.placed_new item (mem_append_right _ (mem_recordContents.mpr ⟨record, hrecord, hitem⟩))
  have hplaced := h.placed
  rcases append_of_mem hrecord with ⟨pre, post, hsplit⟩
  rw [hsplit] at hplaced
  rcases contents_only hplaced hitem with ⟨hwriteback, hpre, hpost⟩
  have honly : ∀ a ∈ s.records, item ∈ a.contents → a = record := by
    intro a ha hmem
    rw [hsplit] at ha
    rcases mem_append.mp ha with ha | ha
    · exact absurd hmem (hpre a ha)
    · rcases mem_cons.mp ha with ha | ha
      · exact ha
      · exact absurd hmem (hpost a ha)
  rw [h.cloud_iff, h.pending_iff, hnew]
  constructor
  · constructor
    · rintro (hfalse | ⟨a, ha, hcomplete, hmem⟩)
      · cases hfalse
      · exact honly a ha hmem ▸ hcomplete
    · intro hcomplete
      exact Or.inr ⟨record, hrecord, hcomplete, hitem⟩
  · constructor
    · rintro (hmem | ⟨a, ha, hincomplete, hmem⟩)
      · exact absurd hmem hwriteback
      · exact honly a ha hmem ▸ hincomplete
    · intro hincomplete
      exact Or.inr ⟨record, hrecord, hincomplete, hitem⟩

/-- A record is complete when a PUT was reported as successful. -/
theorem RecordPhase.reported {asyncs : List PutRequest}
    (h : RecordPhase r record asyncs) :
    (record.complete = true ↔ true ∈ record.reports) ∧
      (record.complete = false ↔ true ∉ record.reports) := by
  cases h with
  | waiting hcomplete _ _ _ _ hreports => simp [hcomplete, hreports]
  | uploading data n hcomplete _ _ _ _ hreports => simp [hcomplete, hreports]
  | done data n hcomplete _ _ hreports => simp [hcomplete, hreports]

theorem UploadInv.accounted (h : UploadInv cloud s)
    (hrecord : record ∈ s.records) : RecordAccounted s record := by
  rcases mem_iff_getElem?.mp hrecord with ⟨r, hget⟩
  have hphase := h.phases r record hget
  have hcloud : ∀ item ∈ record.contents, (s.cloud item = true ↔ true ∈ record.reports) :=
    fun item hitem => (h.flags hrecord hitem).1.trans hphase.reported.1
  have hpending : ∀ item ∈ record.contents, (s.pending item = true ↔ true ∉ record.reports) :=
    fun item hitem => (h.flags hrecord hitem).2.trans hphase.reported.2
  have hsame : ∀ {n : Nat} {data : Bytes}, record.puts = List.replicate n (record.key, data) →
      ∀ put ∈ record.puts, put.1 = record.key ∧ ∀ put' ∈ record.puts, put' = put := by
    intro n data hputs put hput
    rw [hputs] at hput ⊢
    rw [eq_of_mem_replicate hput]
    exact ⟨rfl, fun put' hput' => eq_of_mem_replicate hput'⟩
  cases hphase with
  | waiting hcomplete hitems hraw hdata hputs hreports hasyncs =>
    refine ⟨?_, ?_, ?_, hcloud, hpending⟩
    · simp [hreports, hcomplete]
    · simp [hputs]
    · simp [hputs, hreports, hraw]
  | uploading data n hcomplete hitems hraw hdata hputs hreports hasyncs =>
    refine ⟨?_, hsame hputs, ?_, hcloud, hpending⟩
    · simp [hreports, hcomplete, count_replicate]
    · simp [hputs, hreports, hraw, hcomplete]
  | done data n hcomplete hraw hputs hreports hasyncs =>
    refine ⟨?_, hsame hputs, ?_, hcloud, hpending⟩
    · simp [hreports, hcomplete, count_replicate]
    · simp [hputs, hreports, hcomplete]

/-- In every state of every run, the counter is the number of records that are not complete, each
record and its items agree with the PUTs that were reported for it, and no other item has become an
item in the cloud. -/
theorem uploads_accounted {concurrentUploads : Int} {directory sequence : Nat} {cloud : Nat → Bool}
    {s : UploadState}
    (h : UploadReached concurrentUploads (UploadState.start directory sequence cloud) s) :
    (s.uploadsPending = s.records.countP fun record => !record.complete) ∧
      (∀ record ∈ s.records, RecordAccounted s record) ∧
      ∀ item, (∀ record ∈ s.records, item ∉ record.contents) → s.cloud item = cloud item := by
  have hinv := h.inv
  refine ⟨hinv.counter, fun record hrecord => hinv.accounted hrecord, ?_⟩
  intro item hout
  rw [Bool.eq_iff_iff, hinv.cloud_iff]
  constructor
  · rintro (hcloud | ⟨record, hrecord, -, hitem⟩)
    · exact hcloud
    · exact absurd hitem (hout record hrecord)
  · exact Or.inl

/-- A segment whose first PUT fails. -/
def retriedUpload : List UploadEvent :=
  [.serialize 7 [1, 2], .serialize 8 [3], .flush, .background 0 [9, 9], .complete 0 (-1),
    .serialize 9 [4], .complete 0 0, .wait, .flush]

/-- The run with the failed PUT. -/
theorem uploads_accounted_retried :
    ∃ s, runWhile (uploadStep 4) (fun _ _ => True) (UploadState.start 0 3 fun _ => false)
        retriedUpload = some s ∧
      (s.uploadsPending = s.records.countP fun record => !record.complete) ∧
      (∀ record ∈ s.records, RecordAccounted s record) ∧
      ∀ item, (∀ record ∈ s.records, item ∉ record.contents) → s.cloud item = false := by
  have hrun : (runWhile (uploadStep 4) (fun _ _ => True) (UploadState.start 0 3 fun _ => false)
      retriedUpload).isSome = true := by
    decide +kernel
  rcases isSome_iff_exists.mp hrun with ⟨s, hs⟩
  exact ⟨s, hs, uploads_accounted (reachable_of_runWhile .start hs)⟩

end BlueSky
