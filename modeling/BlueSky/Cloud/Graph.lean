import BlueSky.Cloud.Format
import BlueSky.Cloud.Log
import BlueSky.Lib.PostOrder

/-!
# Writing an object graph to segments

`bluesky_cloudlog_serialize` and `bluesky_cloudlog_flush` of `cloudlog.c` at the level of
bytes.  The items of the file system link to each other and may share what they link to.
Serializing one appends the records of all that it leads to, and of the item itself, to the
open segment; the segment is handed over whenever it has grown past its limit, which may
happen anywhere in the recursion.

Main results:

- Theorem {lit}`cloudlogSerialize_eq`: the recursion appends the items of a depth-first
  post-order one after the other.
- Theorem {lit}`Layout.append`, {lit}`layout_foldl`: where appended items lie in the segments.
- Theorem {lit}`cloudlogSerialize_segments`: serializing an item and flushing writes each item
  that is not in the cloud yet once, behind what it links to, with their final locations.
-/

namespace BlueSky

open Function List Option ByteLib PostOrderLib

/-! ## Items and the open segment -/

/-- A `BlueSkyCloudLog` item whose data is in memory; it links to items of the same graph. -/
structure GraphItem (n : Nat) where
  type : LogType
  id : CloudId
  inum : BitVec 64
  data : Bytes
  links : List (Option (Fin n))

/-- A finite acyclic graph of items. -/
structure ObjectGraph (n : Nat) where
  item : Fin n → GraphItem n
  acyclic : Acyclic fun k => (item k).links.reduceOption

/-- The `BlueSkyCloudLogState` of a file system, with the segments handed to the store, the
items of its inode map, and where the items are.  An item has a location once it is in the
cloud or about to be written to it. -/
structure SegmentLog (n : Nat) where
  directory : BitVec 32
  sequence : BitVec 32
  /-- The open segment. -/
  data : Bytes
  /-- `pending_segments`: numbers and contents, the last one first. -/
  segments : List (BitVec 32 × Bytes)
  location : Fin n → Option CloudPointer
  inodeMap : BitVec 64 → Option (Fin n)
  /-- `bluesky_options.disable_aggregation`. -/
  disableAggregation : Bool

/-- `bluesky_cloudlog_flush`. -/
def SegmentLog.cloudlogFlush {n : Nat} (s : SegmentLog n) : SegmentLog n :=
  if s.data = [] then s
  else
    { s with
      segments := (s.sequence, s.data) :: s.segments
      sequence := s.sequence + 1
      data := [] }

/-- The contents of a segment, handed over or open. -/
def SegmentLog.contents {n : Nat} (s : SegmentLog n) (q : BitVec 32) : Option Bytes :=
  if q = s.sequence then some s.data else s.segments.lookup q

namespace ObjectGraph

variable {n : Nat} (g : ObjectGraph n) (crypt : Fin n → CryptFields)

/-- The items that an item links to. -/
def children (k : Fin n) : List (Fin n) :=
  (g.item k).links.reduceOption

/-- What `bluesky_serialize_cloudlog` writes for an item, given where the items are; the
location of an item that has none is still zero. -/
def logItem (location : Fin n → Option CloudPointer) (k : Fin n) : LogItem where
  type := (g.item k).type
  id := (g.item k).id
  inum := (g.item k).inum
  data := (g.item k).data
  links := (g.item k).links.map fun link => link.map fun c =>
    { id := (g.item c).id, location := (location c).getD ⟨0, 0, 0, 0⟩ }

/-- The header and the sections of an item. -/
def record (location : Fin n → Option CloudPointer) (k : Fin n) : Bytes :=
  (g.logItem location k).cloudRecord cloudlogMagic (crypt k)

/-- The bytes of several items. -/
def records (location : Fin n → Option CloudPointer) (l : List (Fin n)) : Bytes :=
  (l.map (g.record crypt location)).flatten

/-- The length of the record of an item. -/
def size (k : Fin n) : Nat :=
  cloudlogHeaderSize +
    ((g.item k).data.length + 16 * (g.item k).links.length + 16 * (g.children k).length)

/-- The part of `bluesky_cloudlog_serialize` that appends one item to the open segment. -/
def putItem (s : SegmentLog n) (k : Fin n) : SegmentLog n :=
  { s with
    data := s.data ++ g.record crypt s.location k
    location := update s.location k
      (some ⟨s.directory, s.sequence, BitVec.ofNat 32 s.data.length,
        BitVec.ofNat 32 (g.record crypt s.location k).length⟩)
    inodeMap :=
      if (g.item k).type = .inode then update s.inodeMap (g.item k).inum (some k)
      else s.inodeMap }

/-- Appends one item and hands the segment over if it has become too large. -/
def appendItem (s : SegmentLog n) (k : Fin n) : SegmentLog n :=
  let s' := g.putItem crypt s k
  if cloudlogSegmentSize < s'.data.length ∨ s'.disableAggregation = true then s'.cloudlogFlush
  else s'

/-- `bluesky_cloudlog_serialize`. -/
def cloudlogSerialize : Nat → SegmentLog n → Fin n → Option (SegmentLog n)
  | 0, _, _ => none
  | fuel + 1, s, k =>
    if (s.location k).isSome then some s
    else
      ((g.item k).links.foldlM
        (fun s link => Option.elim link (some s) (cloudlogSerialize fuel s)) s).map
          fun s => g.appendItem crypt s k

/-! ## Records -/

theorem length_linkIds_logItem (location : Fin n → Option CloudPointer) (k : Fin n) :
    (g.logItem location k).linkIds.length = 16 * (g.item k).links.length := by
  have hsum : ∀ links : List (Option LinkTarget),
      ((links.map fun link => (linkId link).toBytes).flatten).length = 16 * links.length := by
    intro links
    induction links with
    | nil => rfl
    | cons link links ih =>
      rw [map_cons, flatten_cons, length_append, ih, CloudId.length_toBytes, length_cons]
      omega
  rw [LogItem.linkIds, hsum, logItem, length_map]

/-- The location table of an item: the locations of the items that it links to. -/
theorem linkLocations_logItem (location : Fin n → Option CloudPointer) (k : Fin n) :
    (g.logItem location k).linkLocations =
      ((g.children k).map fun c => ((location c).getD ⟨0, 0, 0, 0⟩).toBytes).flatten := by
  unfold LogItem.linkLocations logItem children
  generalize (g.item k).links = links
  induction links with
  | nil => rfl
  | cons link links ih =>
    cases link with
    | none => simpa using ih
    | some c =>
      simp only [map_cons, map_some, linkLocation_some, flatten_cons, reduceOption_cons_of_some]
      rw [ih]

@[simp]
theorem length_record (location : Fin n → Option CloudPointer) (k : Fin n) :
    (g.record crypt location k).length = g.size k := by
  have hlocs : (g.logItem location k).linkLocations.length = 16 * (g.children k).length := by
    rw [linkLocations_logItem]
    induction g.children k with
    | nil => rfl
    | cons c cs ih =>
      rw [map_cons, flatten_cons, length_append, ih, CloudPointer.length_toBytes, length_cons]
      omega
  rw [record, LogItem.length_cloudRecord, LogItem.cloudSize, length_linkIds_logItem, hlocs]
  rfl

/-- A record depends only on where the items are that it links to. -/
theorem record_congr {location location' : Fin n → Option CloudPointer} {k : Fin n}
    (h : ∀ c ∈ g.children k, location' c = location c) :
    g.record crypt location' k = g.record crypt location k := by
  have hitem : g.logItem location' k = g.logItem location k := by
    simp only [logItem, LogItem.mk.injEq, true_and]
    refine map_congr_left ?_
    intro link hlink
    cases link with
    | none => rfl
    | some c =>
      have hc : c ∈ g.children k := reduceOption_mem_iff.mpr hlink
      rw [map_some, map_some, h c hc]
  rw [record, record, hitem]

/-- The records depend only on the locations of the children. -/
theorem records_congr {location location' : Fin n → Option CloudPointer} {l : List (Fin n)}
    (h : ∀ k ∈ l, ∀ c ∈ g.children k, location' c = location c) :
    g.records crypt location' l = g.records crypt location l := by
  rw [records, records, map_congr_left fun k hk => g.record_congr crypt (h k hk)]

theorem records_concat (location : Fin n → Option CloudPointer) (l : List (Fin n))
    (k : Fin n) :
    g.records crypt location (l ++ [k]) =
      g.records crypt location l ++ g.record crypt location k := by
  simp [records]

/-! ## The recursion as a post-order -/

theorem foldlM_links {σ : Type} (f : σ → Fin n → Option σ) (links : List (Option (Fin n)))
    (s : σ) :
    links.foldlM (fun s link => Option.elim link (some s) (f s)) s =
      links.reduceOption.foldlM f s := by
  induction links generalizing s with
  | nil => rfl
  | cons link links ih =>
    cases link with
    | none => simpa using ih s
    | some ref =>
      rw [reduceOption_cons_of_some, foldlM_cons, foldlM_cons]
      exact congrArg _ (funext ih)

@[simp]
theorem location_appendItem (s : SegmentLog n) (k : Fin n) :
    (g.appendItem crypt s k).location = (g.putItem crypt s k).location := by
  simp only [appendItem, SegmentLog.cloudlogFlush]
  split_ifs <;> rfl

/-- What is in the cloud after a list of items has been appended. -/
theorem isSome_location_foldl (s : SegmentLog n) (l : List (Fin n)) (k : Fin n) :
    ((l.foldl (g.appendItem crypt) s).location k).isSome =
      ((s.location k).isSome || l.contains k) := by
  induction l generalizing s with
  | nil => simp
  | cons a l ih =>
    rw [foldl_cons, ih, location_appendItem, putItem]
    by_cases hka : k = a
    · simp [hka]
    · simp [hka]

/-- Serializing appends the items that a depth-first walk lists, in its order. -/
theorem cloudlogSerialize_eq (s : SegmentLog n) (fuel : Nat) (acc : List (Fin n))
    (k : Fin n) :
    g.cloudlogSerialize crypt fuel (acc.foldl (g.appendItem crypt) s) k =
      (visit g.children (fun k => (s.location k).isSome) fuel acc k).map
        fun l => l.foldl (g.appendItem crypt) s := by
  induction fuel generalizing acc k with
  | zero => rfl
  | succ fuel ih =>
    have hlinks : ∀ (ks acc : List (Fin n)),
        ks.foldlM (g.cloudlogSerialize crypt fuel) (acc.foldl (g.appendItem crypt) s) =
          (ks.foldlM (visit g.children (fun k => (s.location k).isSome) fuel) acc).map
            fun l => l.foldl (g.appendItem crypt) s := by
      intro ks
      induction ks with
      | nil => simp
      | cons c ks ihks =>
        intro acc
        rw [foldlM_cons, foldlM_cons, ih]
        cases visit g.children (fun k => (s.location k).isSome) fuel acc c with
        | none => rfl
        | some l => exact ihks l
    rw [cloudlogSerialize, visit, isSome_location_foldl]
    split_ifs with hskip
    · rfl
    · rw [foldlM_links, show (g.item k).links.reduceOption = g.children k from rfl, hlinks]
      cases (g.children k).foldlM (visit g.children (fun k => (s.location k).isSome) fuel) acc with
      | none => rfl
      | some l => simp

end ObjectGraph

/-! ## Where the items lie -/

/-- One item ends before the other starts, in an earlier segment or in the same one. -/
def CloudPointer.Before (p q : CloudPointer) : Prop :=
  p.sequence.toNat < q.sequence.toNat ∨
    p.sequence = q.sequence ∧ p.offset.toNat + p.size.toNat ≤ q.offset.toNat

instance CloudPointer.decidableBefore (p q : CloudPointer) : Decidable (p.Before q) :=
  inferInstanceAs (Decidable (_ ∨ _))

section Layout

variable {n : Nat} (g : ObjectGraph n) (crypt : Fin n → CryptFields)

/-- {lit}`a` lies before {lit}`b` in the log. -/
def LiesBefore (location : Fin n → Option CloudPointer) (a b : Fin n) : Prop :=
  ∃ p q, location a = some p ∧ location b = some q ∧ p.Before q

/-- The items of a list that lie in a segment. -/
def members (location : Fin n → Option CloudPointer) (l : List (Fin n)) (q : BitVec 32) :
    List (Fin n) :=
  l.filter fun k => (location k).any fun p => p.sequence == q

/-- What a segment held before: the open segment is not empty. -/
def SegmentLog.base (s : SegmentLog n) (q : BitVec 32) : Bytes :=
  if q = s.sequence then s.data else []

/-- The log {lit}`s` after the items {lit}`l` have been appended to {lit}`s₀`. -/
structure Layout (s₀ s : SegmentLog n) (l : List (Fin n)) : Prop where
  directory : s.directory = s₀.directory
  sequence_ge : s₀.sequence.toNat ≤ s.sequence.toNat
  handed : s₀.segments <:+ s.segments
  frame : ∀ k, k ∉ l → s.location k = s₀.location k
  children : ∀ k ∈ l, ∀ c ∈ g.children k, (s.location c).isSome
  placed : ∀ k ∈ l, ∃ p, s.location k = some p ∧ p.directory = s₀.directory ∧
    s₀.sequence.toNat ≤ p.sequence.toNat ∧ p.sequence.toNat ≤ s.sequence.toNat ∧
    p.size.toNat = g.size k ∧
    (p.sequence = s.sequence → p.offset.toNat + p.size.toNat ≤ s.data.length)
  ordered : l.Pairwise (LiesBefore s.location)
  contents : ∀ q : BitVec 32, s₀.sequence.toNat ≤ q.toNat → q.toNat ≤ s.sequence.toNat →
    s.contents q = some (s₀.base q ++ g.records crypt s.location (members s.location l q))
  offsets : ∀ q pre k p, pre ++ [k] <+: members s.location l q → s.location k = some p →
    p.offset.toNat = (s₀.base q ++ g.records crypt s.location pre).length

variable {g crypt}

variable {location : Fin n → Option CloudPointer} {l : List (Fin n)}

theorem members_congr {location' : Fin n → Option CloudPointer}
    (h : ∀ k ∈ l, location' k = location k) (q : BitVec 32) :
    members location' l q = members location l q := by
  refine filter_congr ?_
  intro k hk
  rw [h k hk]

variable {k : Fin n}

/-- The items of a segment are those with its number. -/
theorem mem_members {q : BitVec 32} :
    k ∈ members location l q ↔ k ∈ l ∧ ∃ p, location k = some p ∧ p.sequence = q := by
  rw [members, mem_filter, Option.any_eq_true]
  simp

/-- The order of two items depends only on their locations. -/
theorem LiesBefore.congr {location' : Fin n → Option CloudPointer} {a b : Fin n}
    (ha : location' a = location a) (hb : location' b = location b) (h : LiesBefore location a b) :
    LiesBefore location' a b := by
  rcases h with ⟨p, q, hp, hq, hbefore⟩
  exact ⟨p, q, ha.trans hp, hb.trans hq, hbefore⟩

/-- Before the call nothing is laid out. -/
theorem Layout.refl (s : SegmentLog n) : Layout g crypt s s [] where
  directory := rfl
  sequence_ge := le_rfl
  handed := suffix_refl _
  frame := fun _ _ => rfl
  children := by simp
  placed := by simp
  ordered := .nil
  contents := by
    intro q hge hle
    have hq : q = s.sequence := BitVec.eq_of_toNat_eq (by omega)
    simp [SegmentLog.contents, SegmentLog.base, members, ObjectGraph.records, hq]
  offsets := by
    intro q pre k p hpre
    simp [members] at hpre

variable {s : SegmentLog n}

/-- A new item leaves the locations of the others. -/
theorem putItem_of_isSome (hk : s.location k = none) {c : Fin n} (hc : (s.location c).isSome) :
    (g.putItem crypt s k).location c = s.location c := by
  have hne : c ≠ k := by
    rintro rfl
    simp [hk] at hc
  exact update_of_ne hne ..

/-- The new item lies at the end of the open segment. -/
theorem putItem_self (s : SegmentLog n) (k : Fin n) :
    (g.putItem crypt s k).location k =
      some ⟨s.directory, s.sequence, BitVec.ofNat 32 s.data.length,
        BitVec.ofNat 32 (g.size k)⟩ := by
  simp [ObjectGraph.putItem]

theorem length_putItem (s : SegmentLog n) (k : Fin n) :
    (g.putItem crypt s k).data.length = s.data.length + g.size k := by
  simp [ObjectGraph.putItem]

section Put

variable {s₀ s : SegmentLog n} {l : List (Fin n)} {k : Fin n}

theorem Layout.putItem_location (h : Layout g crypt s₀ s l) (hk : s.location k = none) :
    ∀ a ∈ l, (g.putItem crypt s k).location a = s.location a := by
  intro a ha
  rcases h.placed a ha with ⟨p, hp, -⟩
  exact putItem_of_isSome hk (by rw [hp]; rfl)

/-- The records that are in the log stay as they are. -/
theorem Layout.records_put (h : Layout g crypt s₀ s l) (hk : s.location k = none)
    {l' : List (Fin n)} (hl' : ∀ a ∈ l', a ∈ l) :
    g.records crypt (g.putItem crypt s k).location l' = g.records crypt s.location l' := by
  refine g.records_congr crypt ?_
  intro a ha c hc
  exact putItem_of_isSome hk (h.children a (hl' a ha) c hc)

/-- The new item is the last one of the open segment. -/
theorem Layout.members_put (h : Layout g crypt s₀ s l) (hk : s.location k = none)
    (q : BitVec 32) :
    members (g.putItem crypt s k).location (l ++ [k]) q =
      members s.location l q ++ if q = s.sequence then [k] else [] := by
  have hl := members_congr (h.putItem_location hk) q
  unfold members at hl ⊢
  rw [filter_append, hl]
  by_cases hq : q = s.sequence
  · simp [putItem_self, hq]
  · simp [putItem_self, hq, Ne.symm hq]

/-- The records of a segment are still one behind the other. -/
theorem Layout.contents_put (h : Layout g crypt s₀ s l) (hk : s.location k = none)
    (hchildren : ∀ c ∈ g.children k, (s.location c).isSome) (q : BitVec 32)
    (hge : s₀.sequence.toNat ≤ q.toNat) (hle : q.toNat ≤ s.sequence.toNat) :
    (g.putItem crypt s k).contents q =
      some (s₀.base q ++ g.records crypt (g.putItem crypt s k).location
        (members (g.putItem crypt s k).location (l ++ [k]) q)) := by
  have hold := h.contents q hge hle
  have hin : ∀ a ∈ members s.location l q, a ∈ l := fun a ha => (mem_members.mp ha).1
  have hrecord : g.record crypt (g.putItem crypt s k).location k =
      g.record crypt s.location k :=
    g.record_congr crypt fun c hc => putItem_of_isSome hk (hchildren c hc)
  by_cases hq : q = s.sequence
  · rw [SegmentLog.contents, if_pos hq, some_inj] at hold
    rw [h.members_put hk, if_pos hq, g.records_concat, hrecord, h.records_put hk hin,
      SegmentLog.contents, if_pos (show q = (g.putItem crypt s k).sequence from hq),
      ← append_assoc, ← hold]
    rfl
  · rw [h.members_put hk, if_neg hq, append_nil, h.records_put hk hin, ← hold]
    simp only [SegmentLog.contents, ObjectGraph.putItem, hq, if_false]

/-- The offset of an item is the length of what lies before it. -/
theorem Layout.offsets_put (h : Layout g crypt s₀ s l) (hk : s.location k = none)
    (hopen : s.data.length < 2 ^ 32) (q : BitVec 32) (pre : List (Fin n)) (a : Fin n)
    (p : CloudPointer)
    (hpre : pre ++ [a] <+: members (g.putItem crypt s k).location (l ++ [k]) q)
    (hp : (g.putItem crypt s k).location a = some p) :
    p.offset.toNat = (s₀.base q ++ g.records crypt (g.putItem crypt s k).location pre).length := by
  rw [h.members_put hk] at hpre
  have hbefore : pre ++ [a] <+: members s.location l q → p.offset.toNat =
      (s₀.base q ++ g.records crypt (g.putItem crypt s k).location pre).length := by
    intro hpre
    have hin : ∀ b ∈ pre ++ [a], b ∈ l := by
      intro b hb
      exact (mem_members.mp (hpre.subset hb)).1
    rw [h.records_put hk fun b hb => hin b (mem_append_left _ hb)]
    exact h.offsets q pre a p hpre ((h.putItem_location hk a (hin a (by simp))).symm.trans hp)
  by_cases hq : q = s.sequence
  · rw [if_pos hq, prefix_concat_iff] at hpre
    rcases hpre with heq | hpre
    · rcases append_inj' heq rfl with ⟨hpre, ha⟩
      rw [singleton_inj.mp ha, putItem_self, some_inj] at hp
      have hold := h.contents q (by rw [hq]; exact h.sequence_ge) (by rw [hq])
      rw [SegmentLog.contents, if_pos hq, some_inj] at hold
      rw [← hp, hpre, h.records_put hk fun b hb => (mem_members.mp hb).1, ← hold]
      exact Nat.mod_eq_of_lt hopen
    · exact hbefore hpre
  · rw [if_neg hq, append_nil] at hpre
    exact hbefore hpre

/-- Appending an item to the open segment. -/
theorem Layout.put (h : Layout g crypt s₀ s l) (hk : s.location k = none)
    (hchildren : ∀ c ∈ g.children k, (s.location c).isSome) (hopen : s.data.length < 2 ^ 32)
    (hsize : g.size k < 2 ^ 32) :
    Layout g crypt s₀ (g.putItem crypt s k) (l ++ [k]) := by
  have hplaced := h.putItem_location hk
  have hoffset : (BitVec.ofNat 32 s.data.length).toNat = s.data.length :=
    Nat.mod_eq_of_lt hopen
  have hlength : (BitVec.ofNat 32 (g.size k)).toNat = g.size k := Nat.mod_eq_of_lt hsize
  refine ⟨h.directory, h.sequence_ge, h.handed, ?_, ?_, ?_, ?_,
    h.contents_put hk hchildren, h.offsets_put hk hopen⟩
  · intro a ha
    rw [mem_append, mem_singleton, not_or] at ha
    exact (update_of_ne ha.2 ..).trans (h.frame a ha.1)
  · intro a ha c hc
    have hc' : (s.location c).isSome := by
      rcases mem_append.mp ha with ha | ha
      · exact h.children a ha c hc
      · rw [mem_singleton.mp ha] at hc
        exact hchildren c hc
    rw [putItem_of_isSome hk hc']
    exact hc'
  · intro a ha
    rcases mem_append.mp ha with ha | ha
    · rcases h.placed a ha with ⟨p, hp, hdir, hge, hle, hsz, hend⟩
      refine ⟨p, (hplaced a ha).trans hp, hdir, hge, hle, hsz, ?_⟩
      intro hseq
      rw [length_putItem]
      exact le_trans (hend hseq) (Nat.le_add_right _ _)
    · rw [mem_singleton.mp ha]
      refine ⟨_, putItem_self s k, h.directory, h.sequence_ge, le_rfl, hlength, ?_⟩
      intro _
      rw [hoffset, hlength, length_putItem]
  · rw [pairwise_append]
    refine ⟨?_, pairwise_singleton _ _, ?_⟩
    · refine h.ordered.imp_of_mem ?_
      intro a b ha hb hab
      exact hab.congr (hplaced a ha) (hplaced b hb)
    · intro a ha b hb
      rw [mem_singleton.mp hb]
      rcases h.placed a ha with ⟨p, hp, -, -, hle, -, hend⟩
      refine ⟨p, _, (hplaced a ha).trans hp, putItem_self s k, ?_⟩
      by_cases hseq : p.sequence = s.sequence
      · refine Or.inr ⟨hseq, ?_⟩
        rw [hoffset]
        exact hend hseq
      · refine Or.inl (lt_of_le_of_ne hle ?_)
        intro heq
        exact hseq (BitVec.eq_of_toNat_eq heq)

end Put

variable {s₀ : SegmentLog n}

/-- Handing the open segment over. -/
theorem Layout.flush (h : Layout g crypt s₀ s l) (hwrap : s.sequence.toNat + 1 < 2 ^ 32) :
    Layout g crypt s₀ s.cloudlogFlush l := by
  by_cases hdata : s.data = []
  · rwa [SegmentLog.cloudlogFlush, if_pos hdata]
  have hnext : (s.sequence + 1).toNat = s.sequence.toNat + 1 := by
    rw [BitVec.toNat_add]
    exact Nat.mod_eq_of_lt hwrap
  have hge := h.sequence_ge
  rw [SegmentLog.cloudlogFlush, if_neg hdata]
  refine ⟨h.directory, ?_, ?_, h.frame, h.children, ?_, h.ordered, ?_, h.offsets⟩
  · dsimp only
    omega
  · exact h.handed.trans (suffix_cons _ _)
  · intro k hk
    rcases h.placed k hk with ⟨p, hp, hdir, hpge, hple, hsize, -⟩
    refine ⟨p, hp, hdir, hpge, by dsimp only; omega, hsize, ?_⟩
    intro hseq
    dsimp only at hseq
    rw [hseq] at hple
    omega
  · intro q hqge hqle
    dsimp only at hqle
    by_cases hq : q = s.sequence + 1
    · -- the new open segment holds nothing yet
      have hbase : s₀.base q = [] := by
        rw [SegmentLog.base, if_neg]
        intro heq
        rw [hq] at heq
        rw [← heq] at hge
        omega
      have hnone : members s.location l q = [] := by
        rw [eq_nil_iff_forall_not_mem]
        intro k hk
        rcases mem_members.mp hk with ⟨hkl, p, hp, hpq⟩
        rcases h.placed k hkl with ⟨p', hp', -, -, hple, -⟩
        rw [hp, some_inj] at hp'
        rw [← hp', hpq, hq] at hple
        omega
      rw [hbase, hnone, SegmentLog.contents, if_pos hq]
      rfl
    · have hle : q.toNat ≤ s.sequence.toNat := by
        have hne : q.toNat ≠ s.sequence.toNat + 1 := by
          rw [← hnext]
          intro heq
          exact hq (BitVec.eq_of_toNat_eq heq)
        omega
      rw [← h.contents q hqge hle, SegmentLog.contents, SegmentLog.contents, if_neg hq]
      by_cases hlast : q = s.sequence
      · simp [hlast]
      · have hne : (q == s.sequence) = false := beq_eq_false_iff_ne.mpr hlast
        rw [if_neg hlast, lookup_cons, hne]

/-- One item more, with a flush behind it if the segment is full. -/
theorem Layout.append (h : Layout g crypt s₀ s l) (hk : s.location k = none)
    (hchildren : ∀ c ∈ g.children k, (s.location c).isSome)
    (hopen : s.data.length ≤ cloudlogSegmentSize) (hsize : g.size k < 2 ^ 32)
    (hwrap : s.sequence.toNat + 1 < 2 ^ 32) :
    Layout g crypt s₀ (g.appendItem crypt s k) (l ++ [k]) := by
  have hlt : s.data.length < 2 ^ 32 :=
    lt_of_le_of_lt hopen (by decide)
  have hput := h.put hk hchildren hlt hsize
  simp only [ObjectGraph.appendItem]
  split_ifs with hfull
  · exact hput.flush hwrap
  · exact hput

/-- An append leaves an open segment of bounded size and starts at most one segment. -/
theorem appendItem_open (s : SegmentLog n) (k : Fin n)
    (hwrap : s.sequence.toNat + 1 < 2 ^ 32) :
    (g.appendItem crypt s k).data.length ≤ cloudlogSegmentSize ∧
      (g.appendItem crypt s k).sequence.toNat ≤ s.sequence.toNat + 1 := by
  simp only [ObjectGraph.appendItem]
  split_ifs with hfull
  · rw [SegmentLog.cloudlogFlush]
    split_ifs with hdata
    · rw [hdata]
      exact ⟨Nat.zero_le _, Nat.le_succ _⟩
    · refine ⟨Nat.zero_le _, le_of_eq ?_⟩
      change (s.sequence + 1).toNat = _
      rw [BitVec.toNat_add]
      exact Nat.mod_eq_of_lt hwrap
  · rw [not_or, not_lt] at hfull
    exact ⟨hfull.1, Nat.le_succ _⟩

/-- Appending the items of a post-order one after the other. -/
theorem layout_foldl {s : SegmentLog n} (hopen : s.data.length ≤ cloudlogSegmentSize)
    (hsize : ∀ k, g.size k < 2 ^ 32) {l : List (Fin n)}
    (hl : PostOrder g.children (fun k => (s.location k).isSome) l)
    (hwrap : s.sequence.toNat + l.length < 2 ^ 32) :
    Layout g crypt s (l.foldl (g.appendItem crypt) s) l ∧
      (l.foldl (g.appendItem crypt) s).data.length ≤ cloudlogSegmentSize ∧
      (l.foldl (g.appendItem crypt) s).sequence.toNat ≤ s.sequence.toNat + l.length := by
  induction hl with
  | nil => exact ⟨.refl s, hopen, le_rfl⟩
  | @snoc l k hl hdone hkl hchildren ih =>
    rw [length_append, length_singleton] at hwrap
    rcases ih (by omega) with ⟨hlayout, hopen', hseq⟩
    rw [foldl_append, foldl_cons, foldl_nil]
    have hsome := g.isSome_location_foldl crypt s l
    have hk : (l.foldl (g.appendItem crypt) s).location k = none := by
      rw [← not_isSome_iff_eq_none, hsome, hdone]
      simpa using hkl
    have hbelow : ∀ c ∈ g.children k,
        ((l.foldl (g.appendItem crypt) s).location c).isSome := by
      intro c hc
      rw [hsome]
      rcases hchildren c hc with hd | hmem
      · rw [hd, Bool.true_or]
      · simp [hmem]
    have hnext := @appendItem_open n g crypt (l.foldl (g.appendItem crypt) s) k (by omega)
    refine ⟨hlayout.append hk hbelow hopen' (hsize k) (by omega), hnext.1, ?_⟩
    rw [length_append, length_singleton]
    omega

/-! ## Serializing a graph -/

/-- What serializing {lit}`root` and flushing does to the log: the items {lit}`l` are written,
which are those that {lit}`root` leads to and that were not in the cloud. -/
structure Written (g : ObjectGraph n) (crypt : Fin n → CryptFields) (root : Fin n)
    (s s' : SegmentLog n) (l : List (Fin n)) : Prop where
  nodup : l.Nodup
  mem_iff : ∀ k, k ∈ l ↔ PathTo g.children root k ∧ s.location k = none
  frame : ∀ k, k ∉ l → s'.location k = s.location k
  flushed : s'.data = []
  handed : s.segments <:+ s'.segments
  /-- The produced segments hold, behind what was in the open segment, the records of their
  items one after the other, and nothing else. -/
  contiguous : ∀ q : BitVec 32, s.sequence.toNat ≤ q.toNat → q.toNat < s'.sequence.toNat →
    s'.segments.lookup q = some (s.base q ++ g.records crypt s'.location (members s'.location l q))
  /-- At its location, each item has its header and its sections. -/
  located : ∀ k ∈ l, ∃ p bytes, s'.location k = some p ∧ p.directory = s.directory ∧
    s.sequence.toNat ≤ p.sequence.toNat ∧ p.sequence.toNat < s'.sequence.toNat ∧
    s'.segments.lookup p.sequence = some bytes ∧
    slice bytes p.offset.toNat p.size.toNat = g.record crypt s'.location k
  /-- No two items overlap. -/
  apart : l.Pairwise (LiesBefore s'.location)
  /-- Items lie behind those that they link to. -/
  children_before : ∀ k ∈ l, ∀ c ∈ g.children k, c ∈ l → LiesBefore s'.location c k
  /-- The location table of an item has the final locations of what it links to. -/
  table : ∀ k ∈ l, ∃ places : List CloudPointer,
    (g.children k).map s'.location = places.map some ∧
    (g.logItem s'.location k).linkLocations = (places.map CloudPointer.toBytes).flatten

/-- The bytes at the recorded location of an item. -/
theorem Layout.slice_eq (h : Layout g crypt s₀ s l) (hk : k ∈ l) {p : CloudPointer}
    (hp : s.location k = some p) :
    ∃ bytes, s.contents p.sequence = some bytes ∧
      slice bytes p.offset.toNat p.size.toNat = g.record crypt s.location k := by
  rcases h.placed k hk with ⟨p', hp', -, hge, hle, hsize, -⟩
  rw [hp, some_inj] at hp'
  subst hp'
  have hmem : k ∈ members s.location l p.sequence := mem_members.mpr ⟨hk, p, hp, rfl⟩
  rcases append_of_mem hmem with ⟨pre, post, hsplit⟩
  refine ⟨_, h.contents p.sequence hge hle, ?_⟩
  have hoffset := h.offsets p.sequence pre k p ⟨post, by simp [hsplit]⟩ hp
  have hrecords : g.records crypt s.location (members s.location l p.sequence) =
      g.records crypt s.location pre ++
        (g.record crypt s.location k ++ g.records crypt s.location post) := by
    simp [ObjectGraph.records, hsplit]
  rw [hrecords, hoffset, hsize, ← g.length_record crypt s.location k, ← append_assoc]
  exact slice_middle _ _ _

/-- Items lie in the order in which they are listed. -/
theorem Layout.liesBefore (h : Layout g crypt s₀ s l) {a b : Fin n} (hab : [a, b].Sublist l) :
    LiesBefore s.location a b := by
  have := h.ordered.sublist hab
  simpa using this

theorem SegmentLog.data_cloudlogFlush (s : SegmentLog n) : s.cloudlogFlush.data = [] := by
  rw [SegmentLog.cloudlogFlush]
  split_ifs with hdata
  · exact hdata
  · rfl

/-- Once everything is flushed, the layout of a post-order is what was to be written. -/
theorem Layout.written {root : Fin n} {s' : SegmentLog n} (h : Layout g crypt s s' l)
    (hdata : s'.data = []) (hordered : PostOrder g.children (fun k => (s.location k).isSome) l)
    (hmem : ∀ k, k ∈ l ↔ PathTo g.children root k ∧ (s.location k).isSome = false) :
    Written g crypt root s s' l := by
  have hlookup : ∀ q : BitVec 32, q.toNat < s'.sequence.toNat →
      s'.contents q = s'.segments.lookup q := by
    intro q hq
    rw [SegmentLog.contents, if_neg]
    rintro rfl
    exact lt_irrefl _ hq
  refine ⟨hordered.nodup, ?_, h.frame, hdata, h.handed, ?_, ?_, h.ordered, ?_, ?_⟩
  · intro k
    rw [hmem k, isSome_eq_false_iff, isNone_iff_eq_none]
  · intro q hge hlt
    rw [← hlookup q hlt]
    exact h.contents q hge (le_of_lt hlt)
  · intro k hk
    rcases h.placed k hk with ⟨p, hp, hdir, hge, hle, hpsize, hend⟩
    have hlt : p.sequence.toNat < s'.sequence.toNat := by
      refine lt_of_le_of_ne hle ?_
      intro heq
      have hfits := hend (BitVec.eq_of_toNat_eq heq)
      rw [hdata, length_nil, hpsize, ObjectGraph.size, cloudlogHeaderSize] at hfits
      omega
    rcases h.slice_eq hk hp with ⟨bytes, hbytes, hslice⟩
    exact ⟨p, bytes, hp, hdir, hge, hlt, (hlookup _ hlt).symm.trans hbytes, hslice⟩
  · intro k hk c hc hcl
    exact h.liesBefore (hordered.sublist_of_edge hk hcl hc)
  · intro k hk
    refine ⟨(g.children k).map fun c => (s'.location c).getD ⟨0, 0, 0, 0⟩, ?_, ?_⟩
    · rw [List.map_map]
      refine map_congr_left ?_
      intro c hc
      rcases isSome_iff_exists.mp (h.children k hk c hc) with ⟨p, hp⟩
      simp [hp]
    · rw [g.linkLocations_logItem, List.map_map]
      rfl

/-- Serializing {lit}`root` returns, and after a flush everything is written. -/
def SerializesSegments (g : ObjectGraph n) (crypt : Fin n → CryptFields) (s : SegmentLog n)
    (root : Fin n) : Prop :=
  ∃ s', g.cloudlogSerialize crypt n s root = some s' ∧
    ∃ l, Written g crypt root s s'.cloudlogFlush l

/-- Serializing an item and flushing writes each item that is not in the cloud yet once,
behind what it links to, with the final locations of what it links to. -/
theorem cloudlogSerialize_segments (g : ObjectGraph n) (crypt : Fin n → CryptFields)
    (s : SegmentLog n) (root : Fin n) (hopen : s.data.length ≤ cloudlogSegmentSize)
    (hclosed : ∀ k, (s.location k).isSome → ∀ c ∈ g.children k, (s.location c).isSome)
    (hsize : ∀ k, g.size k < 2 ^ 32) (hwrap : s.sequence.toNat + n + 1 < 2 ^ 32) :
    SerializesSegments g crypt s root := by
  have hspec : ∃ l, visit g.children (fun k => (s.location k).isSome) n [] root = some l ∧
      PostOrder g.children (fun k => (s.location k).isSome) l ∧
      ∀ k, k ∈ l ↔ PathTo g.children root k ∧ (s.location k).isSome = false := by
    have := visit_spec g.acyclic hclosed root
    rwa [Fintype.card_fin] at this
  rcases hspec with ⟨l, hl, hordered, hmem⟩
  have hrun := g.cloudlogSerialize_eq crypt s n [] root
  rw [foldl_nil, hl, map_some] at hrun
  have hcard : l.length ≤ n := by
    have := hordered.nodup.length_le_card
    rwa [Fintype.card_fin] at this
  rcases @layout_foldl n g crypt s hopen hsize l hordered (by omega) with
    ⟨hlayout, -, hseq⟩
  exact ⟨_, hrun, l, (hlayout.flush (by omega)).written (SegmentLog.data_cloudlogFlush _)
    hordered hmem⟩

/-- Two inodes that share a block; the second links to the first. -/
def sharedGraph : ObjectGraph 3 where
  item k := match k with
    | 0 => { type := .data, id := 9, inum := 2, data := [0x61], links := [] }
    | 1 => { type := .inode, id := 7, inum := 2, data := [0x62], links := [none, some 0] }
    | 2 => { type := .inode, id := 8, inum := 3, data := [0x63], links := [some 1, some 0] }
  acyclic := acyclic_of_rank Fin.val (by decide)

/-- A log that already holds some bytes, with a segment for each item. -/
def openLog : SegmentLog 3 where
  directory := 0
  sequence := 5
  data := [0x64]
  segments := []
  location := fun _ => none
  inodeMap := fun _ => none
  disableAggregation := true

/-- A graph with a shared child and a null link. -/
theorem cloudlogSerialize_segments_shared :
    SerializesSegments sharedGraph (fun _ => ⟨1, 2⟩) openLog 2 :=
  cloudlogSerialize_segments sharedGraph (fun _ => ⟨1, 2⟩) openLog 2 (by decide)
    (by decide) (by decide) (by decide)

end Layout

/-! ## Limits -/

section Limits

/-- The number of the open segment is the last one. -/
def lastLog : SegmentLog 3 :=
  { openLog with sequence := 0xffffffff }

/-- The inode is in the cloud, but not what it links to. -/
def danglingLog : SegmentLog 3 :=
  { openLog with
    location := fun k => if k = 2 then some ⟨0, 1, 0, 200⟩ else none }

/-- One block of zeros. -/
def blockGraph (size : Nat) : ObjectGraph 1 where
  item _ := { type := .data, id := 9, inum := 2, data := zeros size, links := [] }
  acyclic := acyclic_of_rank Fin.val (by simp)

def emptyLog : SegmentLog 1 where
  directory := 0
  sequence := 0
  data := []
  segments := []
  location := fun _ => none
  inodeMap := fun _ => none
  disableAggregation := false

theorem SegmentLog.location_cloudlogFlush {n : Nat} (s : SegmentLog n) :
    s.cloudlogFlush.location = s.location := by
  rw [SegmentLog.cloudlogFlush]
  split_ifs <;> rfl

/-- What an item in the cloud links to is not looked at. -/
theorem not_serializes_dangling (crypt : Fin 3 → CryptFields) :
    ¬ SerializesSegments sharedGraph crypt danglingLog 2 := by
  rintro ⟨s', hrun, l, hwritten⟩
  have hs' : s' = danglingLog := by
    rw [ObjectGraph.cloudlogSerialize, if_pos (by rfl), some_inj] at hrun
    exact hrun.symm
  have hreach : PathTo sharedGraph.children 2 0 :=
    .single (show (0 : Fin 3) ∈ sharedGraph.children 2 by decide)
  have hmem := (hwritten.mem_iff 0).mpr ⟨hreach, rfl⟩
  rcases hwritten.located 0 hmem with ⟨p, bytes, hp, -⟩
  rw [hs', SegmentLog.location_cloudlogFlush] at hp
  simp [danglingLog, openLog] at hp

/-- When the sequence number wraps around, an item comes to lie in a segment with a smaller
number than what it links to. -/
theorem not_serializes_wrapped :
    ¬ SerializesSegments sharedGraph (fun _ => ⟨1, 2⟩) lastLog 2 := by
  rintro ⟨s', hrun, l, hwritten⟩
  have hplaces : (sharedGraph.cloudlogSerialize (fun _ => ⟨1, 2⟩) 3 lastLog 2).map
      (fun s => (s.location 0, s.location 1)) =
        some (some ⟨0, 0xffffffff, 1, 90⟩, some ⟨0, 0, 0, 138⟩) := by
    decide +kernel
  rw [hrun, map_some, some_inj, Prod.mk.injEq] at hplaces
  have hone : PathTo sharedGraph.children 2 1 :=
    .single (show (1 : Fin 3) ∈ sharedGraph.children 2 by decide)
  have hedge : (0 : Fin 3) ∈ sharedGraph.children 1 := by decide
  have hmem := fun k hpath => (hwritten.mem_iff k).mpr ⟨hpath, rfl⟩
  rcases hwritten.children_before 1 (hmem 1 hone) 0 hedge (hmem 0 (hone.tail hedge)) with
    ⟨p, q, hp, hq, hbefore⟩
  rw [SegmentLog.location_cloudlogFlush] at hp hq
  rw [hplaces.1, some_inj] at hp
  rw [hplaces.2, some_inj] at hq
  rw [← hp, ← hq] at hbefore
  exact absurd hbefore (by decide)

/-- The size in the location of an item of four gigabytes is that of its header. -/
theorem not_serializes_block (crypt : Fin 1 → CryptFields) {size : Nat}
    (hsize : size = 2 ^ 32) : ¬ SerializesSegments (blockGraph size) crypt emptyLog 0 := by
  rintro ⟨s', hrun, l, hwritten⟩
  have hs' : s' = (blockGraph size).appendItem crypt emptyLog 0 :=
    (some_inj.mp hrun).symm
  have hrecord : (blockGraph size).size 0 = cloudlogHeaderSize + size := by
    simp [ObjectGraph.size, ObjectGraph.children, blockGraph]
  have hmem := (hwritten.mem_iff 0).mpr ⟨.refl, rfl⟩
  rcases hwritten.located 0 hmem with ⟨p, bytes, hp, -, -, -, -, hslice⟩
  rw [SegmentLog.location_cloudlogFlush, hs', ObjectGraph.location_appendItem, putItem_self,
    some_inj] at hp
  have hshort : p.size.toNat = cloudlogHeaderSize := by
    rw [← hp, hrecord, hsize]
    rfl
  have hlength := congrArg List.length hslice
  rw [ObjectGraph.length_record, hrecord, slice, length_take, hshort] at hlength
  omega

/-- An item below one in the cloud, a number that wraps around, a size that does not fit. -/
theorem cloudlogSerialize_limits :
    ¬ SerializesSegments sharedGraph (fun _ => ⟨1, 2⟩) danglingLog 2 ∧
      ¬ SerializesSegments sharedGraph (fun _ => ⟨1, 2⟩) lastLog 2 ∧
      ¬ SerializesSegments (blockGraph (2 ^ 32)) (fun _ => ⟨1, 2⟩) emptyLog 0 :=
  ⟨not_serializes_dangling _, not_serializes_wrapped, not_serializes_block _ rfl⟩

end Limits

end BlueSky
