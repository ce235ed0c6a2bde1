import BlueSky.Cloud.Counters
import BlueSky.Lib.Transition

/-!
# The counters of log items over whole runs

Three places change an item without counting it anew: the loop over the links in
`bluesky_deserialize_cloudlog`, which flags the linked items as in the cloud,
`bluesky_cloudlog_prefetch`, which takes away the journal flag, and `bluesky_cloudlog_erase`,
which drops the data.

Main results:

- Theorem {lit}`accounting_exact`: the counters are exact as long as the steps at these places
  leave the counter of each item alone, and such a step makes them wrong otherwise.
-/

namespace BlueSky

open List TransitionLib TallyLib

namespace ItemTable

variable {s s' : ItemTable}

/-! ## Reading items -/

/-- All items that are linked to are known to be in the cloud. -/
def Flagged (s : ItemTable) (links : List (Option Nat)) : Prop :=
  ∀ link ∈ links.reduceOption, link ∈ s.live ∧ (s.item link).locationFlags.cloud = true

instance (s : ItemTable) (links : List (Option Nat)) : Decidable (s.Flagged links) :=
  inferInstanceAs (Decidable (∀ link ∈ links.reduceOption, _ ∧ _))

/-- An item that has the flag does not change. -/
theorem setCloud_of_cloud {item : CountedItem} (h : item.locationFlags.cloud = true) :
    item.setCloud = item := by
  unfold CountedItem.setCloud
  rw [← h]

/-- A link to a flagged item changes nothing. -/
theorem linkItem_of_cloud {link : Nat} (hlive : link ∈ s.live)
    (hcloud : (s.item link).locationFlags.cloud = true) : s.linkItem (some link) = s := by
  have hget : s.getItem link = s := if_pos hlive
  unfold linkItem change
  simp only [hget, setCloud_of_cloud hcloud, Function.update_eq_self]

theorem nodup_linkItem (hnodup : s.live.Nodup) (link : Option Nat) :
    (s.linkItem link).live.Nodup := by
  cases link with
  | none => exact hnodup
  | some link => exact nodup_getItem hnodup

theorem live_linkItem (link : Option Nat) {j : Nat} (hj : j ∈ s.live) :
    j ∈ (s.linkItem link).live := by
  cases link with
  | none => exact hj
  | some link => exact live_getItem hj

/-- The loop over the links keeps every item live. -/
theorem nodup_foldl_linkItem (hnodup : s.live.Nodup) (links : List (Option Nat)) :
    (links.foldl linkItem s).live.Nodup ∧ ∀ j ∈ s.live, j ∈ (links.foldl linkItem s).live := by
  induction links generalizing s with
  | nil => exact ⟨hnodup, fun _ h => h⟩
  | cons link links ih =>
    rcases ih (nodup_linkItem hnodup link) with ⟨hrest, hlive⟩
    exact ⟨hrest, fun j hj => hlive j (live_linkItem link hj)⟩

/-- Flagging an item that is not in the cloud yet makes one more. -/
theorem off_linkItem {link : Nat} (hnodup : s.live.Nodup)
    (hnew : ¬ (link ∈ s.live ∧ (s.item link).locationFlags.cloud = true)) :
    (s.linkItem (some link)).off .cacheLogCloud = s.off .cacheLogCloud + 1 := by
  have hold : (s.getItem link).kind link ≠ some .cacheLogCloud := by
    intro h
    have hcloud := (CountedItem.counter_eq_cloud_iff _).mp h
    unfold getItem at hcloud
    split at hcloud
    · rename_i hlive
      exact hnew ⟨hlive, hcloud⟩
    · simp at hcloud
  have hset : ((s.getItem link).item link).setCloud.counter = some .cacheLogCloud :=
    (CountedItem.counter_eq_cloud_iff _).mpr rfl
  unfold linkItem
  rw [off_change (nodup_getItem hnodup) mem_live_getItem, hset, off_getItem]
  simp [unit, hold]

/-- The loop over the links makes items of the cloud, and it makes none only if all links have
been flagged before. -/
theorem off_foldl_linkItem (links : List (Option Nat)) (hnodup : s.live.Nodup) :
    s.off .cacheLogCloud ≤ (links.foldl linkItem s).off .cacheLogCloud ∧
      ((links.foldl linkItem s).off .cacheLogCloud = s.off .cacheLogCloud → s.Flagged links) := by
  induction links generalizing s with
  | nil => exact ⟨Int.le_refl _, fun _ => by simp [Flagged]⟩
  | cons link links ih =>
    rw [foldl_cons]
    rcases ih (nodup_linkItem hnodup link) with ⟨hle, heq⟩
    cases link with
    | none => exact ⟨hle, fun h => by simpa [Flagged, linkItem] using heq h⟩
    | some link =>
      by_cases hold : link ∈ s.live ∧ (s.item link).locationFlags.cloud = true
      · rw [linkItem_of_cloud hold.1 hold.2] at hle heq ⊢
        refine ⟨hle, fun h => ?_⟩
        have hrest := heq h
        intro j hj
        rcases mem_cons.mp (by simpa using hj) with rfl | hj
        · exact hold
        · exact hrest j hj
      · have hmore := off_linkItem hnodup hold
        refine ⟨by omega, fun h => ?_⟩
        omega

/-- If all linked items are flagged, the loop changes nothing. -/
theorem foldl_linkItem_of_flagged {links : List (Option Nat)} (h : s.Flagged links) :
    links.foldl linkItem s = s := by
  induction links with
  | nil => rfl
  | cons link links ih =>
    have hrest : s.Flagged links := by
      intro j hj
      apply h
      cases link with
      | none => simpa using hj
      | some link => simp [hj]
    rw [foldl_cons]
    cases link with
    | none => exact ih hrest
    | some link =>
      rcases h link (by simp) with ⟨hlive, hcloud⟩
      rw [linkItem_of_cloud hlive hcloud]
      exact ih hrest

/-! ## What the functions do to the counters -/

/-- The counters are as wrong as before. -/
structure Kept (s s' : ItemTable) : Prop where
  nodup : s'.live.Nodup
  live : ∀ id ∈ s.live, id ∈ s'.live
  off : ∀ c, s'.off c = s.off c

/-- The counters are as wrong as before exactly under a condition. -/
structure KeptIff (s s' : ItemTable) (ok : Prop) : Prop where
  nodup : s'.live.Nodup
  live : ∀ id ∈ s.live, id ∈ s'.live
  off_iff : (∀ c, s'.off c = s.off c) ↔ ok

theorem Kept.refl (hnodup : s.live.Nodup) : s.Kept s :=
  ⟨hnodup, fun _ h => h, fun _ => rfl⟩

variable {s₁ : ItemTable}

/-- Two changes that keep the counters keep them together. -/
theorem Kept.trans (h : s.Kept s₁) (h' : s₁.Kept s') : s.Kept s' where
  nodup := h'.nodup
  live := fun id hid => h'.live id (h.live id hid)
  off := fun c => (h'.off c).trans (h.off c)

variable {ok : Prop}

theorem Kept.keptIff (h : s.Kept s') (hok : ok) : s.KeptIff s' ok :=
  ⟨h.nodup, h.live, iff_of_true h.off hok⟩

/-- What comes before, and keeps the counters, does not matter. -/
theorem Kept.trans_iff (h : s.Kept s₁) (h' : s₁.KeptIff s' ok) :
    s.KeptIff s' ok where
  nodup := h'.nodup
  live := fun id hid => h'.live id (h.live id hid)
  off_iff := by
    rw [← h'.off_iff]
    exact forall_congr' fun c => by rw [h.off c]

/-- What comes after, and keeps the counters, does not matter. -/
theorem KeptIff.trans_kept (h : s.KeptIff s₁ ok) (h' : s₁.Kept s') :
    s.KeptIff s' ok where
  nodup := h'.nodup
  live := fun id hid => h'.live id (h.live id hid)
  off_iff := by
    rw [← h.off_iff]
    exact forall_congr' fun c => by rw [h'.off c]

/-- The loop over the links. -/
theorem keptIff_foldl_linkItem (hnodup : s.live.Nodup) (links : List (Option Nat)) :
    s.KeptIff (links.foldl linkItem s) (s.Flagged links) where
  nodup := (nodup_foldl_linkItem hnodup links).1
  live := (nodup_foldl_linkItem hnodup links).2
  off_iff := by
    constructor
    · intro h
      exact (off_foldl_linkItem links hnodup).2 (h _)
    · intro h c
      rw [foldl_linkItem_of_flagged h]

section Functions

variable {id : Nat}

/-- A change between the two updates of the statistics is counted. -/
theorem kept_countedChange (hnodup : s.live.Nodup) (hid : id ∈ s.live)
    (f : CountedItem → CountedItem) : s.Kept (s.countedChange id f) where
  nodup := by simpa using hnodup
  live := fun _ h => by simpa using h
  off := fun _ => off_countedChange hnodup hid f

/-- A change that is not counted leaves the counters as they were if the item is counted by the
same counter afterwards. -/
theorem keptIff_change (hnodup : s.live.Nodup) (hid : id ∈ s.live)
    (f : CountedItem → CountedItem) :
    s.KeptIff (s.change id f) ((f (s.item id)).counter = (s.item id).counter) where
  nodup := hnodup
  live := fun _ h => h
  off_iff := by
    rw [← unit_eq_iff]
    apply forall_congr'
    intro c
    rw [off_change hnodup hid, kind]
    constructor
    · intro h
      omega
    · intro h
      omega

/-- Without the updates, the item has to stay in its class. -/
theorem kept_change (hnodup : s.live.Nodup) (hid : id ∈ s.live) {f : CountedItem → CountedItem}
    (hf : (f (s.item id)).counter = (s.item id).counter) : s.Kept (s.change id f) where
  nodup := hnodup
  live := fun _ h => h
  off := (keptIff_change hnodup hid f).off_iff.mpr hf

theorem kept_addItem (hnodup : s.live.Nodup) (hid : id ∉ s.live) (item : CountedItem) :
    s.Kept (s.addItem id item) where
  nodup := nodup_addItem hnodup hid item
  live := fun _ h => by simp [h]
  off := fun _ => off_addItem hid item

/-- A new item is counted. -/
theorem kept_getItem (hnodup : s.live.Nodup) : s.Kept (s.getItem id) where
  nodup := nodup_getItem hnodup
  live := fun _ => live_getItem
  off := fun _ => off_getItem

variable {journalExists : Bool}

/-- Mapping an item clears its journal flag at most, and finds it in the journal or in the
cloud. -/
theorem mapObject_cases (h : s.mapObject id journalExists = some s') :
    (s' = s.countedChange id (fun item => item) ∧ (s.item id).journaled = true) ∨
      (s' = s.countedChange id .clearJournal ∧ (s.item id).locationFlags.cloud = true) := by
  unfold mapObject at h
  split_ifs at h with hjournal hcloud
  · exact Or.inl ⟨(Option.some.inj h).symm, (Bool.and_eq_true_iff.mp hjournal).1⟩
  · exact Or.inr ⟨(Option.some.inj h).symm, hcloud⟩

theorem kept_mapObject (hnodup : s.live.Nodup) (hid : id ∈ s.live)
    (h : s.mapObject id journalExists = some s') : s.Kept s' := by
  rcases mapObject_cases h with ⟨rfl, -⟩ | ⟨rfl, -⟩
  · exact kept_countedChange hnodup hid _
  · exact kept_countedChange hnodup hid _

/-- An item that has been mapped is counted as one of the journal or of the cloud, with or
without its data. -/
theorem counter_setData {item : CountedItem} (hasData : Bool)
    (h : item.journaled = true ∨ item.locationFlags.cloud = true) :
    (item.setData hasData).counter = item.counter := by
  unfold CountedItem.journaled at h
  unfold CountedItem.counter CountedItem.setData
  split_ifs <;> simp_all

/-- An item is mapped from the journal or from the cloud. -/
theorem found_of_mapObject (h : s.mapObject id journalExists = some s') :
    (s'.item id).journaled = true ∨ (s'.item id).locationFlags.cloud = true := by
  rcases mapObject_cases h with ⟨rfl, hjournal⟩ | ⟨rfl, hcloud⟩
  · exact Or.inl (by simpa using hjournal)
  · exact Or.inr (by simpa [CountedItem.clearJournal] using hcloud)

/-- Mapping an item leaves alone which items exist and are in the cloud, and which have data. -/
theorem same_of_mapObject (h : s.mapObject id journalExists = some s') :
    s'.live = s.live ∧ ∀ j,
      (s'.item j).locationFlags.cloud = (s.item j).locationFlags.cloud ∧
        (s'.item j).hasData = (s.item j).hasData := by
  rcases mapObject_cases h with ⟨rfl, -⟩ | ⟨rfl, -⟩
  all_goals
    refine ⟨by simp, fun j => ?_⟩
    by_cases hj : j = id
    · subst hj
      simp [CountedItem.clearJournal]
    · simp [item_change_of_ne _ hj]

theorem flagged_congr (hlive : s'.live = s.live)
    (hcloud : ∀ j, (s'.item j).locationFlags.cloud = (s.item j).locationFlags.cloud)
    (links : List (Option Nat)) : s'.Flagged links ↔ s.Flagged links := by
  unfold Flagged
  rw [hlive]
  simp only [hcloud]

/-- Reading an item leaves the counters as they were if the items that it links to are known to
be in the cloud. -/
theorem keptIff_deserialize (hnodup : s.live.Nodup) (hid : id ∈ s.live)
    (hdata : (s.item id).hasData = false) (found : Option (List (Option Nat))) :
    s.KeptIff (s.deserialize id found) (s.Flagged (found.getD [])) := by
  cases found with
  | none => exact (Kept.refl hnodup).keptIff (by simp [Flagged])
  | some links =>
    have hread : s.Kept (s.change id .deserialized) := by
      apply kept_change hnodup hid
      unfold CountedItem.counter CountedItem.deserialized
      rw [hdata]
    have hflagged : (s.change id .deserialized).Flagged links ↔ s.Flagged links := by
      apply flagged_congr (live_change _)
      intro j
      by_cases hj : j = id
      · subst hj
        simp [CountedItem.deserialized]
      · rw [item_change_of_ne _ hj]
    refine hread.trans_iff ?_
    rw [Option.getD_some, ← hflagged]
    exact keptIff_foldl_linkItem hread.nodup links

/-- What a fetch reads is counted: the item is in memory, or its type is known, or it links to
items only that are known to be in the cloud. -/
def ReadsCounted (s : ItemTable) (id : Nat) (found : Option (List (Option Nat))) : Prop :=
  (s.item id).hasData = true ∨ (s.item id).typeKnown = true ∨ s.Flagged (found.getD [])

instance (s : ItemTable) (id : Nat) (found : Option (List (Option Nat))) :
    Decidable (s.ReadsCounted id found) :=
  inferInstanceAs (Decidable (_ ∨ _ ∨ _))

/-- Parsing the item counts its links only if they are flagged already. -/
theorem keptIff_fetchType {found : Option (List (Option Nat))} (hnodup : s.live.Nodup)
    (hid : id ∈ s.live) (hdata : (s.item id).hasData = false)
    (h : s.fetchType id journalExists found = some s') :
    s.KeptIff s' (s.ReadsCounted id found) := by
  unfold fetchType at h
  split_ifs at h with htype
  · cases Option.some.inj h
    exact (Kept.refl hnodup).keptIff (Or.inr (Or.inl htype))
  · rcases Option.map_eq_some_iff.mp h with ⟨s₁, hmap, rfl⟩
    have hkept := kept_mapObject hnodup hid hmap
    rcases same_of_mapObject hmap with ⟨hlive, hsame⟩
    have hread : s.ReadsCounted id found ↔ s₁.Flagged (found.getD []) := by
      rw [flagged_congr hlive (fun j => (hsame j).1)]
      simp [ReadsCounted, hdata, htype]
    rw [hread]
    refine hkept.trans_iff (keptIff_deserialize hkept.nodup (hkept.live id hid) ?_ found)
    rw [(hsame id).2, hdata]

/-- The same for the whole of `bluesky_cloudlog_fetch`. -/
theorem keptIff_fetch {found : Option (List (Option Nat))} (hnodup : s.live.Nodup)
    (hid : id ∈ s.live) (h : s.fetch id journalExists found = some s') :
    s.KeptIff s' (s.ReadsCounted id found) := by
  unfold fetch at h
  split_ifs at h with hdata
  · cases Option.some.inj h
    exact (Kept.refl hnodup).keptIff (Or.inl hdata)
  · simp only [Option.bind_eq_bind, Option.bind_eq_some_iff] at h
    rcases h with ⟨s₁, htype, s₂, hmap, heq⟩
    cases Option.some.inj heq
    have hfirst := keptIff_fetchType hnodup hid (by simpa using hdata) htype
    have hkept := kept_mapObject hfirst.nodup (hfirst.live id hid) hmap
    have hset := kept_change hkept.nodup (hkept.live id (hfirst.live id hid))
      (counter_setData true (found_of_mapObject hmap))
    exact hfirst.trans_kept (hkept.trans hset)

theorem counter_unlockData (item : CountedItem) : item.unlockData.counter = item.counter :=
  rfl

/-- The log thread counts what it changes. -/
theorem kept_logWrite (hnodup : s.live.Nodup) (hid : id ∈ s.live)
    (h : s.logWrite id = some s') : s.Kept s' := by
  unfold logWrite at h
  split_ifs at h with hdata hjournal
  · cases Option.some.inj h
    exact kept_change hnodup hid (counter_unlockData _)
  · simp only [Option.bind_eq_bind, Option.bind_eq_some_iff] at h
    rcases h with ⟨s₁, hfetch, heq⟩
    cases Option.some.inj heq
    have hpending := kept_countedChange hnodup hid CountedItem.journalPending
    have hid₁ := hpending.live id hid
    have hset := kept_change hpending.nodup hid₁
      (counter_setData false (Or.inl (by simp [CountedItem.journaled, CountedItem.journalPending])))
    have hread := keptIff_fetch hset.nodup (hset.live id hid₁) hfetch
    have hkept : Kept _ s₁ :=
      ⟨hread.nodup, hread.live, hread.off_iff.mpr (Or.inr (Or.inr (by simp [Flagged])))⟩
    have hunlock := kept_change hkept.nodup (hkept.live id (hset.live id hid₁))
      (counter_unlockData _)
    exact hpending.trans (hset.trans (hkept.trans hunlock))

/-- Serializing an item fetches it. -/
theorem keptIff_serialize {found : Option (List (Option Nat))} (hnodup : s.live.Nodup)
    (hid : id ∈ s.live) (h : s.serialize id journalExists found = some s') :
    s.KeptIff s' ((s.item id).locationFlags.cloud = true ∨ (s.item id).pendingWrite.cloud = true ∨
      s.ReadsCounted id found) := by
  unfold serialize at h
  split_ifs at h with hcloud
  · cases Option.some.inj h
    exact (Kept.refl hnodup).keptIff (or_assoc.mp (Or.inl (by simpa using hcloud)))
  · rcases Option.map_eq_some_iff.mp h with ⟨s₁, hfetch, rfl⟩
    have hread := keptIff_fetch hnodup hid hfetch
    have hcondition : ((s.item id).locationFlags.cloud = true ∨
        (s.item id).pendingWrite.cloud = true ∨ s.ReadsCounted id found) ↔
        s.ReadsCounted id found := by
      rw [← or_assoc]
      exact or_iff_right (by simpa using hcloud)
    rw [hcondition]
    exact hread.trans_kept (kept_countedChange hread.nodup (hread.live id hid) _)

/-- When an item without its journal copy stays in its class. -/
theorem counter_clearJournal_iff (item : CountedItem) (hdata : item.hasData = false) :
    item.clearJournal.counter = item.counter ↔
      item.locationFlags.journal = false ∨ item.locationFlags.cloud = true ∨
        item.pendingWrite.journal = true := by
  unfold CountedItem.counter CountedItem.clearJournal
  cases item.locationFlags.journal <;> cases item.locationFlags.cloud <;>
    cases item.pendingWrite.journal <;> simp [hdata]

/-- `bluesky_cloudlog_prefetch` does not take the last reason away for which an item is
counted. -/
def PrefetchCounted (options : FetchOptions) (s : ItemTable) (id : Nat) (journalExists : Bool) :
    Prop :=
  (s.item id).hasData = true ∨ options.unaggregated = true ∨
    ((s.item id).journaled && journalExists) = true ∨
    (s.item id).locationFlags.journal = false ∨ (s.item id).locationFlags.cloud = true ∨
      (s.item id).pendingWrite.journal = true

instance (options : FetchOptions) (s : ItemTable) (id : Nat) (journalExists : Bool) :
    Decidable (s.PrefetchCounted options id journalExists) :=
  inferInstanceAs (Decidable (_ ∨ _ ∨ _ ∨ _ ∨ _ ∨ _))

/-- Prefetching is counted unless it takes the item out of its class. -/
theorem keptIff_prefetch (options : FetchOptions) (hnodup : s.live.Nodup) (hid : id ∈ s.live)
    (journalExists : Bool) :
    s.KeptIff (s.prefetch options id journalExists)
      (s.PrefetchCounted options id journalExists) := by
  unfold prefetch
  split_ifs with hdata hoptions hjournal
  · exact (Kept.refl hnodup).keptIff (Or.inl hdata)
  · exact (Kept.refl hnodup).keptIff (Or.inr (Or.inl hoptions))
  · exact (Kept.refl hnodup).keptIff (Or.inr (Or.inr (Or.inl hjournal)))
  · have hcondition : s.PrefetchCounted options id journalExists ↔
        (s.item id).clearJournal.counter = (s.item id).counter := by
      rw [counter_clearJournal_iff _ (by simpa using hdata)]
      unfold PrefetchCounted
      rw [or_iff_right hdata, or_iff_right hoptions, or_iff_right hjournal]
    rw [hcondition]
    exact keptIff_change hnodup hid _

/-- `bluesky_cloudlog_erase` finds no data that are counted. -/
def EraseCounted (s : ItemTable) (id : Nat) : Prop :=
  (s.item id).typeKnown = false ∨ (s.item id).hasData = false ∨
    (s.item id).locationFlags.cloud = true ∨ (s.item id).journaled = true

instance (s : ItemTable) (id : Nat) : Decidable (s.EraseCounted id) :=
  inferInstanceAs (Decidable (_ ∨ _ ∨ _ ∨ _))

/-- When an item without its data stays in its class. -/
theorem counter_erased_iff (item : CountedItem) :
    item.erased.counter = item.counter ↔
      item.hasData = false ∨ item.locationFlags.cloud = true ∨ item.journaled = true := by
  unfold CountedItem.counter CountedItem.erased CountedItem.journaled
  cases item.locationFlags.journal <;> cases item.locationFlags.cloud <;>
    cases item.pendingWrite.journal <;> cases item.hasData <;> simp

/-- Erasing is counted unless it takes the item out of its class. -/
theorem keptIff_erase (hnodup : s.live.Nodup) (hid : id ∈ s.live) (h : s.erase id = some s') :
    s.KeptIff s' (s.EraseCounted id) := by
  unfold erase at h
  split_ifs at h with hlock htype
  · cases Option.some.inj h
    have hcondition : s.EraseCounted id ↔ (s.item id).erased.counter = (s.item id).counter := by
      rw [counter_erased_iff]
      unfold EraseCounted
      rw [or_iff_right (by simp [htype])]
    rw [hcondition]
    exact keptIff_change hnodup hid _
  · cases Option.some.inj h
    exact (Kept.refl hnodup).keptIff (Or.inl (by simpa using htype))

theorem kept_reload (hnodup : s.live.Nodup) : s.Kept (s.reload id) := by
  have hget : s.Kept (s.getItem id) := kept_getItem hnodup
  have hcounted := kept_countedChange hget.nodup mem_live_getItem CountedItem.reloaded
  have hid₁ := hcounted.live id mem_live_getItem
  have hset := kept_change hcounted.nodup hid₁
    (counter_setData true (Or.inl (by simp [CountedItem.journaled, CountedItem.reloaded])))
  have hunset := kept_change hset.nodup (hset.live id hid₁)
    (counter_setData false
      (Or.inl (by simp [CountedItem.journaled, CountedItem.reloaded, CountedItem.setData])))
  exact hget.trans (hcounted.trans (hset.trans hunset))

/-- The item of the checkpoint is new, and so not counted before. -/
theorem kept_loadCheckpoint (hnodup : s.live.Nodup) (hid : id ∉ s.live) :
    s.Kept (s.loadCheckpoint id) := by
  have hnew : s.loadCheckpoint id = s.addItem id (CountedItem.setCloud {}) := by
    simp [loadCheckpoint, getItem, hid, addItem, statsUpdate, change, CountedItem.counter,
      CountedItem.setCloud]
  rw [hnew]
  exact kept_addItem hnodup hid _

end Functions

/-! ## Whole runs -/

/-- The step leaves each item with its counter, or counts it anew. -/
def Counted (options : FetchOptions) (s : ItemTable) : ItemEvent → Prop
  | .serialize id _ found =>
    (s.item id).locationFlags.cloud = true ∨ (s.item id).pendingWrite.cloud = true ∨
      s.ReadsCounted id found
  | .fetch id _ found => s.ReadsCounted id found
  | .prefetch id journalExists => s.PrefetchCounted options id journalExists
  | .erase id => s.EraseCounted id
  | _ => True

instance (options : FetchOptions) (s : ItemTable) (e : ItemEvent) :
    Decidable (s.Counted options e) :=
  match e with
  | .serialize _ _ _ => inferInstanceAs (Decidable (_ ∨ _ ∨ _))
  | .fetch id _ found => inferInstanceAs (Decidable (s.ReadsCounted id found))
  | .prefetch id journalExists =>
    inferInstanceAs (Decidable (s.PrefetchCounted options id journalExists))
  | .erase id => inferInstanceAs (Decidable (s.EraseCounted id))
  | .create _ | .get _ | .submit _ | .logWrite _ | .logCommit _ | .flushComplete _
  | .dropCached _ | .reload _ | .loadCheckpoint _ | .unref _ => inferInstanceAs (Decidable True)

variable {options : FetchOptions} {e : ItemEvent}

/-- What a step does to the counters. -/
theorem off_stepLive (hnodup : s.live.Nodup) (hid : e.id ∈ s.live)
    (h : s.stepLive options e = some s') :
    s'.live.Nodup ∧ ((∀ c, s'.off c = s.off c) ↔ s.Counted options e) := by
  have hof : s.KeptIff s' (s.Counted options e) →
      s'.live.Nodup ∧ ((∀ c, s'.off c = s.off c) ↔ s.Counted options e) :=
    fun h => ⟨h.nodup, h.off_iff⟩
  cases e with
  | create id => cases h
  | loadCheckpoint id => cases h
  | get id =>
    cases Option.some.inj h
    exact hof ((kept_getItem hnodup).keptIff trivial)
  | submit id =>
    simp only [stepLive] at h
    split_ifs at h
    · cases Option.some.inj h
      exact hof ((Kept.refl hnodup).keptIff trivial)
    · cases Option.some.inj h
      exact hof ((kept_change hnodup hid rfl).keptIff trivial)
  | logWrite id => exact hof ((kept_logWrite hnodup hid h).keptIff trivial)
  | logCommit id =>
    simp only [stepLive] at h
    split_ifs at h
    cases Option.some.inj h
    exact hof ((kept_countedChange hnodup hid _).keptIff trivial)
  | serialize id journalExists found => exact hof (keptIff_serialize hnodup hid h)
  | flushComplete id =>
    simp only [stepLive] at h
    split_ifs at h
    cases Option.some.inj h
    exact hof ((kept_countedChange hnodup hid _).keptIff trivial)
  | fetch id journalExists found => exact hof (keptIff_fetch hnodup hid h)
  | prefetch id journalExists =>
    cases Option.some.inj h
    exact hof (keptIff_prefetch options hnodup hid journalExists)
  | dropCached id =>
    simp only [stepLive] at h
    split_ifs at h
    · cases Option.some.inj h
      exact hof ((kept_countedChange hnodup hid _).keptIff trivial)
    · cases Option.some.inj h
      exact hof ((Kept.refl hnodup).keptIff trivial)
  | erase id => exact hof (keptIff_erase hnodup hid h)
  | reload id =>
    cases Option.some.inj h
    exact hof ((kept_reload hnodup).keptIff trivial)
  | unref id =>
    cases Option.some.inj h
    exact ⟨hnodup.erase id, iff_of_true (fun _ => off_dropItem hid) trivial⟩

/-- What makes a new item is always counted. -/
theorem kept_stepNew (hnodup : s.live.Nodup) (hid : e.id ∉ s.live) (h : s.stepNew e = some s') :
    s.Kept s' ∧ s.Counted options e := by
  cases e with
  | create id =>
    cases Option.some.inj h
    exact ⟨kept_addItem hnodup hid _, trivial⟩
  | get id =>
    cases Option.some.inj h
    exact ⟨kept_getItem hnodup, trivial⟩
  | reload id =>
    cases Option.some.inj h
    exact ⟨kept_reload hnodup, trivial⟩
  | loadCheckpoint id =>
    cases Option.some.inj h
    exact ⟨kept_loadCheckpoint hnodup hid, trivial⟩
  | _ => cases h

/-- A step leaves the counters as wrong as they were exactly if it is counted. -/
theorem off_step (hnodup : s.live.Nodup) (h : s.step options e = some s') :
    s'.live.Nodup ∧ ((∀ c, s'.off c = s.off c) ↔ s.Counted options e) := by
  unfold step at h
  split_ifs at h with hid
  · exact off_stepLive hnodup hid h
  · rcases kept_stepNew hnodup hid h with ⟨hkept, hcounted⟩
    exact ⟨hkept.nodup, iff_of_true hkept.off hcounted⟩

/-- A step keeps exact counters exact only if it is counted. -/
theorem exact_step_iff (hnodup : s.live.Nodup) (hexact : s.Exact) (h : s.step options e = some s') :
    s'.Exact ↔ s.Counted options e := by
  rw [← (off_step hnodup h).2, exact_iff_off]
  apply forall_congr'
  intro c
  rw [exact_iff_off.mp hexact c]

/-- In a run of counted steps. -/
theorem exact_of_reachable (hs : Reachable (step options) (Counted options) empty s) :
    s.live.Nodup ∧ s.Exact := by
  refine hs.invariant (I := fun s => s.live.Nodup ∧ s.Exact) ⟨nodup_nil, rfl, rfl, rfl⟩ ?_
  intro s e s' hinv hcounted hstep
  exact ⟨(off_step hinv.1 hstep).1, (exact_step_iff hinv.1 hinv.2 hstep).mpr hcounted⟩

/-- The counters are exact, and not negative, in every state of a run of counted steps, and a
further step keeps them so exactly if it is counted. -/
theorem accounting_exact (options : FetchOptions) (s : ItemTable)
    (hs : Reachable (step options) (Counted options) empty s) :
    s.Exact ∧ (∀ c, 0 ≤ s.counters c) ∧
      ∀ e s', s.step options e = some s' → (s'.Exact ↔ s.Counted options e) := by
  rcases exact_of_reachable hs with ⟨hnodup, hexact⟩
  refine ⟨hexact, ?_, fun e s' hstep => exact_step_iff hnodup hexact hstep⟩
  intro c
  rw [exact_iff_tally.mp hexact c]
  exact tally_nonneg c

/-- A block and its inode are written to the journal and to the cloud, and the inode is erased
and read again. -/
def orderlyItems : List ItemEvent :=
  [.create 1, .submit 1, .create 2, .submit 2, .logWrite 1, .logWrite 2, .logCommit 1,
    .logCommit 2, .serialize 1 true none, .serialize 2 true none, .flushComplete 1,
    .flushComplete 2, .dropCached 1, .erase 2, .prefetch 2 false,
    .fetch 2 false (some [none, some 1])]

/-- A run in which every linked item is flagged before it is fetched. -/
theorem accounting_exact_orderly :
    ∃ s, runWhile (step .default) (Counted .default) empty orderlyItems = some s ∧ s.Exact ∧
      s.counters .cacheLogCloud = 2 := by
  have hfacts : ∃ s ∈ runWhile (step .default) (Counted .default) empty orderlyItems,
      s.counters .cacheLogCloud = 2 := by
    decide +kernel
  rcases hfacts with ⟨s, hrun, hcloud⟩
  exact ⟨s, hrun, (accounting_exact .default s (reachable_of_runWhile .start hrun)).1, hcloud⟩

/-- A file system is mounted: the checkpoint 0 leads to a section 1 of the inode map, and the
section to an inode 2, which the inode map keeps. -/
def mountedItems : List ItemEvent :=
  [.loadCheckpoint 0, .fetch 0 false (some [some 1]), .fetch 1 false (some [some 2]), .unref 0,
    .unref 1]

/-- Mounting a file system leaves `cache_log_cloud` negative. -/
theorem mount_miscounts :
    ∃ s, runWhile (step .default) (fun _ _ => True) empty mountedItems = some s ∧
      s.counters .cacheLogCloud = -1 ∧
      (s.live.countP fun id => (s.item id).locationFlags.cloud) = 1 ∧ ¬ s.Exact := by
  have hfacts : ∃ s ∈ runWhile (step .default) (fun _ _ => True) empty mountedItems,
      s.counters .cacheLogCloud = -1 ∧
        (s.live.countP fun id => (s.item id).locationFlags.cloud) = 1 := by
    decide +kernel
  rcases hfacts with ⟨s, hrun, hcounter, hcount⟩
  refine ⟨s, hrun, hcounter, hcount, ?_⟩
  intro hexact
  have hcloud := hexact.cloud
  rw [hcounter, hcount] at hcloud
  cases hcloud

end ItemTable

end BlueSky
