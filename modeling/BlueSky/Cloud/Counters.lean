import BlueSky.Cloud.ItemTable
import BlueSky.Lib.Tally
import Mathlib.Tactic.SplitIfs

/-!
# Exact counters

What it means that the counters of log items are right, and by how much a change of one item
makes them wrong.

Main results:

- Theorem {lit}`ItemTable.exact_iff_tally`: each counter is to be the number of the items that
  it counts.
- Theorem {lit}`ItemTable.off_countedChange`: a change between two updates of the counters keeps
  them as they were.
- Theorem {lit}`ItemTable.off_change`: another change moves an item from one counter to another.
-/

namespace BlueSky

open Function TallyLib

namespace ItemTable

/-! ## The numbers of items -/

/-- Each counter says how many live items there are of its kind. -/
structure Exact (s : ItemTable) : Prop where
  cloud : s.counters .cacheLogCloud = s.live.countP fun id => (s.item id).locationFlags.cloud
  journal : s.counters .cacheLogJournal =
    s.live.countP fun id => !(s.item id).locationFlags.cloud && (s.item id).journaled
  dirty : s.counters .cacheLogDirty =
    s.live.countP fun id =>
      !(s.item id).locationFlags.cloud && !(s.item id).journaled && (s.item id).hasData

/-- The counter of each item. -/
def kind (s : ItemTable) (id : Nat) : Option LogCounter :=
  (s.item id).counter

end ItemTable

namespace CountedItem

variable (item : CountedItem)

/-- An item that is in the cloud is counted as such. -/
theorem counter_eq_cloud_iff :
    item.counter = some .cacheLogCloud ↔ item.locationFlags.cloud = true := by
  unfold counter
  split_ifs <;> simp_all

/-- An item counts for the journal if it is not in the cloud. -/
theorem counter_eq_journal_iff :
    item.counter = some .cacheLogJournal ↔
      (!item.locationFlags.cloud && item.journaled) = true := by
  unfold counter journaled
  split_ifs <;> simp_all

/-- An item is dirty if it is in memory only. -/
theorem counter_eq_dirty_iff :
    item.counter = some .cacheLogDirty ↔
      (!item.locationFlags.cloud && !item.journaled && item.hasData) = true := by
  unfold counter journaled
  split_ifs <;> simp_all

end CountedItem

namespace ItemTable

variable {s s' : ItemTable}

/-- The counters are exact if each is the number of the items that it counts. -/
theorem exact_iff_tally : s.Exact ↔ ∀ c, s.counters c = tally s.live s.kind c := by
  have hcloud : tally s.live s.kind .cacheLogCloud =
      s.live.countP fun id => (s.item id).locationFlags.cloud := by
    unfold tally kind
    simp only [CountedItem.counter_eq_cloud_iff, Bool.decide_eq_true]
  have hjournal : tally s.live s.kind .cacheLogJournal =
      s.live.countP fun id => !(s.item id).locationFlags.cloud && (s.item id).journaled := by
    unfold tally kind
    simp only [CountedItem.counter_eq_journal_iff, Bool.decide_eq_true]
  have hdirty : tally s.live s.kind .cacheLogDirty =
      s.live.countP fun id =>
        !(s.item id).locationFlags.cloud && !(s.item id).journaled && (s.item id).hasData := by
    unfold tally kind
    simp only [CountedItem.counter_eq_dirty_iff, Bool.decide_eq_true]
  constructor
  · intro h c
    cases c with
    | cacheLogCloud => rw [h.cloud, hcloud]
    | cacheLogJournal => rw [h.journal, hjournal]
    | cacheLogDirty => rw [h.dirty, hdirty]
  · intro h
    exact ⟨by rw [h, hcloud], by rw [h, hjournal], by rw [h, hdirty]⟩

/-! ## By how much the counters are off -/

/-- How many more items there are of a kind than their counter says. -/
def off (s : ItemTable) (c : LogCounter) : Int :=
  tally s.live s.kind c - s.counters c

/-- The counters are exact if no counter is off. -/
theorem exact_iff_off : s.Exact ↔ ∀ c, s.off c = 0 := by
  rw [exact_iff_tally]
  constructor
  · intro h c
    rw [off, h c, Int.sub_self]
  · intro h c
    exact (Int.sub_eq_zero.mp (h c)).symm

section Changes

variable {id : Nat} {c : LogCounter}

@[simp]
theorem live_statsUpdate (type : Int) : (s.statsUpdate id type).live = s.live := by
  unfold statsUpdate
  split <;> rfl

@[simp]
theorem item_statsUpdate (type : Int) : (s.statsUpdate id type).item = s.item := by
  unfold statsUpdate
  split <;> rfl

/-- The update changes the counter of the item's class. -/
theorem counters_statsUpdate (type : Int) :
    (s.statsUpdate id type).counters c = s.counters c + type * unit (s.kind id) c := by
  unfold statsUpdate kind unit
  cases hk : (s.item id).counter with
  | none => simp
  | some k =>
    by_cases hc : c = k
    · subst hc
      simp
    · have hck : k ≠ c := Ne.symm hc
      simp [hc, hck]

@[simp]
theorem live_change (f : CountedItem → CountedItem) : (s.change id f).live = s.live :=
  rfl

@[simp]
theorem item_change_self (f : CountedItem → CountedItem) :
    (s.change id f).item id = f (s.item id) :=
  update_self id _ s.item

theorem item_change_of_ne (f : CountedItem → CountedItem) {j : Nat} (hj : j ≠ id) :
    (s.change id f).item j = s.item j :=
  update_of_ne hj _ s.item

@[simp]
theorem live_countedChange (f : CountedItem → CountedItem) :
    (s.countedChange id f).live = s.live := by
  simp [countedChange]

@[simp]
theorem item_countedChange (f : CountedItem → CountedItem) :
    (s.countedChange id f).item = (s.change id f).item := by
  simp [countedChange, change]

@[simp]
theorem live_addItem (item : CountedItem) : (s.addItem id item).live = id :: s.live := by
  simp [addItem]

@[simp]
theorem item_addItem (item : CountedItem) :
    (s.addItem id item).item = update s.item id item := by
  simp [addItem]

/-- A change that is not counted. -/
theorem off_change (hnodup : s.live.Nodup) (hid : id ∈ s.live) (f : CountedItem → CountedItem) :
    (s.change id f).off c = s.off c - unit (s.kind id) c + unit (f (s.item id)).counter c := by
  have hother : ∀ j, j ≠ id → (s.change id f).kind j = s.kind j := by
    intro j hj
    unfold kind
    rw [item_change_of_ne f hj]
  have htally := tally_change hnodup hid hother c
  have hself : (s.change id f).kind id = (f (s.item id)).counter := by
    unfold kind
    rw [item_change_self]
  rw [hself] at htally
  simp only [off, live_change, htally]
  have hcounters : (s.change id f).counters c = s.counters c := rfl
  omega

/-- A change between two updates of the counters. -/
theorem off_countedChange (hnodup : s.live.Nodup) (hid : id ∈ s.live)
    (f : CountedItem → CountedItem) : (s.countedChange id f).off c = s.off c := by
  have hkind : ∀ j, (s.countedChange id f).kind j = (s.change id f).kind j := by
    intro j
    simp [kind]
  have hcounters : (s.countedChange id f).counters c =
      s.counters c - unit (s.kind id) c + unit (f (s.item id)).counter c := by
    unfold countedChange
    rw [counters_statsUpdate]
    have hmiddle : ((s.statsUpdate id (-1)).change id f).counters c =
        s.counters c + -1 * unit (s.kind id) c := counters_statsUpdate (-1)
    have hself : ((s.statsUpdate id (-1)).change id f).kind id = (f (s.item id)).counter := by
      simp [kind]
    rw [hmiddle, hself]
    omega
  have hchange := off_change (c := c) hnodup hid f
  simp only [off, live_change] at hchange
  have hsame : (s.change id f).counters c = s.counters c := rfl
  simp only [off, live_countedChange, hcounters]
  rw [tally_congr fun j _ => hkind j]
  omega

/-- A new item is counted. -/
theorem off_addItem (hid : id ∉ s.live) (item : CountedItem) :
    (s.addItem id item).off c = s.off c := by
  have hrest : tally s.live (s.addItem id item).kind c = tally s.live s.kind c := by
    apply tally_congr
    intro j hj
    have hne : j ≠ id := by
      rintro rfl
      exact hid hj
    simp [kind, hne]
  have hself : (s.addItem id item).kind id = item.counter := by
    simp [kind]
  have hcounters : (s.addItem id item).counters c = s.counters c + 1 * unit item.counter c := by
    unfold addItem
    rw [counters_statsUpdate]
    simp [kind]
  simp only [off, live_addItem, tally_cons, hrest, hself, hcounters]
  omega

theorem off_getItem : (s.getItem id).off c = s.off c := by
  unfold getItem
  split
  · rfl
  · rename_i hid
    exact off_addItem hid {}

/-- The last reference takes the item out of its counter. -/
theorem off_dropItem (hid : id ∈ s.live) : (s.dropItem id).off c = s.off c := by
  have hkind : (s.dropItem id).kind = s.kind := by
    funext j
    simp [kind, dropItem]
  have hcounters : (s.dropItem id).counters c = s.counters c + -1 * unit (s.kind id) c :=
    counters_statsUpdate (-1)
  have hlive : (s.dropItem id).live = s.live.erase id := rfl
  simp only [off, hkind, hcounters, hlive]
  rw [tally_erase hid]
  omega

theorem mem_live_getItem : id ∈ (s.getItem id).live := by
  unfold getItem
  split
  · assumption
  · simp

theorem live_getItem {j : Nat} (hj : j ∈ s.live) : j ∈ (s.getItem id).live := by
  unfold getItem
  split
  · exact hj
  · simp [hj]

theorem nodup_addItem (hnodup : s.live.Nodup) (hid : id ∉ s.live) (item : CountedItem) :
    (s.addItem id item).live.Nodup := by
  rw [live_addItem]
  exact List.nodup_cons.mpr ⟨hid, hnodup⟩

theorem nodup_getItem (hnodup : s.live.Nodup) : (s.getItem id).live.Nodup := by
  unfold getItem
  split
  · exact hnodup
  · rename_i hid
    exact nodup_addItem hnodup hid {}

end Changes

end ItemTable

end BlueSky
