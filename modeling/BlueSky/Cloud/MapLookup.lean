import BlueSky.Cloud.InodeMap
import Mathlib.Logic.Function.Basic

/-!
# Lookups in the inode map

`bluesky_inode_map_lookup` with all its actions, on sequences whose positions are numbers.  The
bounds for a new range come from the neighbours at the position where the search ended, and at
the ends of the sequence they are incomplete; the alignment of the ranges makes up for that.

Main results:

- Theorem {lit}`lookupEntry_cases`, {lit}`mapLookup_cases`: what a lookup does to a range and to
  the map.
- Theorem {lit}`MapAgrees.lookup`: a lookup does to the map what it does to a finite map.
- Theorem {lit}`MapAgrees.insert`, {lit}`MapAgrees.inodeMapLookup_eq`: the same for the two uses of
  the function by the proxy.
- Theorem {lit}`mapLookups_agree`: whatever calls are made on an empty map, the assertion never
  fails, and the structure and the entries of the map are sound.
-/

namespace BlueSky

open Function List Option SortedSeqLib

/-! ## Sequences -/

/-- The position that `g_sequence_search` and `g_sequence_iter_prev` give: that of the last
element up to the key, or the first position. -/
def searchPrev {α : Type*} (upTo : α → Bool) (xs : List α) : Nat :=
  (xs.takeWhile upTo).length - 1

/-- `g_sequence_insert_sorted` of an entry. -/
def insertEntry (es : List (Nat × Nat)) (inum id : Nat) : List (Nat × Nat) :=
  es.takeWhile (keyUpTo inum) ++ (inum, id) :: es.dropWhile (keyUpTo inum)

/-! ## The lookup -/

/-- The part of `bluesky_inode_map_lookup` that looks for the entry in the range.  A new entry is
{lit}`fresh`; the result is the entry. -/
def lookupEntry (r : InodeMapRange) (inum : Nat) (action : Int) (fresh : Nat) :
    InodeMapRange × Option Nat :=
  let i := searchPrev (keyUpTo inum) r.entries
  match (r.entries[i]?).filter fun entry => entry.1 = inum with
  | none =>
    if action ≤ 0 then (r, none)
    else ({ r with entries := insertEntry r.entries inum fresh, serialized := none }, some fresh)
  | some entry =>
    let r := if action = 0 then r else { r with serialized := none }
    if action < 0 then ({ r with entries := r.entries.eraseIdx i }, none) else (r, some entry.2)

/-- The bounds for a new range, at the position where the search for its number ended. -/
def lookupBounds (m : InodeMap) (i : Nat) : Nat × Nat :=
  (if i = 0 then 0 else ((m[i]?).map fun r => (r.stop + 1) % 2 ^ 64).getD 0,
    ((m[i + 1]?).map fun r => (r.start + (2 ^ 64 - 1)) % 2 ^ 64).getD (2 ^ 64 - 1))

/-- A new range within the bounds that covers the number. -/
def lookupRange (bounds : Nat × Nat) (inum : Nat) : InodeMapRange :=
  let start := max bounds.1 (inum - inum % targetImapSize)
  { start := start
    stop := min bounds.2 ((start + targetImapSize - 1) % 2 ^ 64)
    entries := []
    serialized := none }

/-- `bluesky_inode_map_lookup`: the map and the entry, or {lean}`none` if the assertion fails. -/
def mapLookup (m : InodeMap) (inum : Nat) (action : Int) (fresh : Nat) :
    Option (InodeMap × Option Nat) :=
  let i := searchPrev (startsUpTo inum) m
  match (m[i]?).filter fun r => r.start ≤ inum ∧ inum ≤ r.stop with
  | some r =>
    let found := lookupEntry r inum action fresh
    some (m.set i found.1, found.2)
  | none =>
    if action ≤ 0 then some (m, none)
    else
      let bounds := lookupBounds m i
      if bounds.1 ≤ inum ∧ inum ≤ bounds.2 then
        let found := lookupEntry (lookupRange bounds inum) inum action fresh
        some (insertRange m found.1, found.2)
      else none

/-! ## What a lookup does -/

variable {r : InodeMapRange}

/-- What the lookup of an entry does, if there is one, and if there is none. -/
theorem lookupEntry_cases (hkeys : r.entries.Pairwise fun a b => a.1 < b.1) (inum : Nat)
    (action : Int) (fresh : Nat) :
    (∃ pre x post, r.entries = pre ++ (inum, x) :: post ∧ (∀ e ∈ pre, e.1 < inum) ∧
      (∀ e ∈ post, inum < e.1) ∧
      lookupEntry r inum action fresh =
        if action = 0 then (r, some x)
        else if action < 0 then ({ r with entries := pre ++ post, serialized := none }, none)
        else ({ r with serialized := none }, some x)) ∨
    ∃ pre post, r.entries = pre ++ post ∧ (∀ e ∈ pre, e.1 < inum) ∧ (∀ e ∈ post, inum < e.1) ∧
      lookupEntry r inum action fresh =
        if action ≤ 0 then (r, none)
        else ({ r with entries := pre ++ (inum, fresh) :: post, serialized := none },
          some fresh) := by
  rcases Sorted.split hkeys inum with ⟨pre, mid, post, hes, hpre, hpost, hmid⟩
  have hpreUpTo : ∀ e ∈ pre, keyUpTo inum e = true := fun e he => decide_eq_true (hpre e he).le
  have hpostUpTo : ∀ e ∈ post, keyUpTo inum e = false :=
    fun e he => decide_eq_false (Nat.not_le_of_lt (hpost e he))
  unfold lookupEntry
  dsimp only
  rcases hmid with rfl | ⟨⟨k, x⟩, rfl, hk⟩
  · refine Or.inr ⟨pre, post, hes, hpre, hpost, ?_⟩
    have hinsert : insertEntry r.entries inum fresh = pre ++ (inum, fresh) :: post := by
      rcases takeWhile_of_split hpreUpTo hpostUpTo with ⟨htake, hdrop⟩
      rw [insertEntry, hes, nil_append, htake, hdrop]
    have hfilter : ∀ i : Nat,
        (r.entries[i]?).filter (fun entry : Nat × Nat => decide (entry.1 = inum)) = none := by
      intro i
      refine filter_eq_none_iff.mpr fun e he => ?_
      have hmem : e ∈ pre ++ post := hes ▸ mem_of_getElem? he
      rcases mem_append.mp hmem with he | he
      · simpa using (hpre e he).ne
      · simpa using (hpost e he).ne'
    rw [hfilter, hinsert]
  · obtain rfl : k = inum := hk
    refine Or.inl ⟨pre, x, post, hes, hpre, hpost, ?_⟩
    have hi : searchPrev (keyUpTo k) r.entries = pre.length := by
      rw [searchPrev, hes, singleton_append,
        takeWhile_concat_of_split hpreUpTo (decide_eq_true le_rfl) hpostUpTo]
      simp
    have hget : r.entries[pre.length]? = some (k, x) := by simp [hes]
    have herase : r.entries.eraseIdx pre.length = pre ++ post := by
      rw [hes, eraseIdx_append_of_length_le (Nat.le_refl _), Nat.sub_self]
      rfl
    rw [hi, hget]
    simp only [filter_some, decide_true, if_true]
    by_cases hzero : action = 0
    · simp [hzero]
    · by_cases hneg : action < 0
      · simp [hzero, hneg, herase]
      · simp [hzero, hneg]

variable {m : InodeMap} {inum : Nat}

/-- The bounds for a range that the search does not find. -/
theorem RangeAt.lookupRange_eq {pre post : InodeMap} (hm : InodeMapOk m)
    (hend : ∀ r ∈ m, r.stop < 2 ^ 64) (h : RangeAt m inum pre [] (blockRange inum) post)
    (hinum : inum < 2 ^ 64) :
    ((lookupBounds m (pre.length - 1)).1 ≤ inum ∧ inum ≤ (lookupBounds m (pre.length - 1)).2) ∧
      lookupRange (lookupBounds m (pre.length - 1)) inum = blockRange inum := by
  have hsplit := h.split
  rw [append_nil] at hsplit
  have hlow : (lookupBounds m (pre.length - 1)).1 ≤ (blockRange inum).start := by
    unfold lookupBounds
    by_cases hi : pre.length - 1 = 0
    · simp [hi]
    · cases hr : m[pre.length - 1]? with
      | none => simp [hi]
      | some r =>
        rw [hsplit, getElem?_append_left (by omega)] at hr
        have hmem := mem_of_getElem? hr
        have hblock := hm.stop_lt_block (h.of_mem (Or.inl hmem)) (h.before r hmem)
        have hle := h.inside.1
        simp only [hi, if_false, map_some, getD_some]
        rw [Nat.mod_eq_of_lt (by omega)]
        exact hblock
  have hhigh : (blockRange inum).stop ≤ (lookupBounds m (pre.length - 1)).2 := by
    unfold lookupBounds
    cases hr : m[pre.length - 1 + 1]? with
    | none => exact Nat.le_sub_one_of_lt ((blockRange_shape inum).2.2.2 hinum)
    | some r =>
      rw [hsplit, getElem?_append_right (by omega)] at hr
      have hmem := mem_of_getElem? hr
      have hr' := h.of_mem (Or.inr hmem)
      have hblock := hm.block_lt_start hr' (h.behind r hmem)
      have hstop := hm.stop_eq r hr'
      have hlt := hend r hr'
      have hprev : r.start + (2 ^ 64 - 1) = r.start - 1 + 2 ^ 64 := by omega
      have hsmall : r.start - 1 < 2 ^ 64 := by omega
      rw [map_some, getD_some, hprev, Nat.add_mod_right, Nat.mod_eq_of_lt hsmall]
      exact Nat.le_sub_one_of_lt hblock
  generalize lookupBounds m (pre.length - 1) = bounds at *
  have hstart : max bounds.1 (inum - inum % targetImapSize) = inum - inum % targetImapSize :=
    max_eq_right hlow
  have hstop : (inum - inum % targetImapSize + targetImapSize - 1) % 2 ^ 64 =
      inum - inum % targetImapSize + (targetImapSize - 1) := by
    unfold targetImapSize
    omega
  refine ⟨⟨hlow.trans h.inside.1, h.inside.2.trans hhigh⟩, ?_⟩
  have hmin : min bounds.2 (inum - inum % targetImapSize + (targetImapSize - 1)) =
      inum - inum % targetImapSize + (targetImapSize - 1) := min_eq_right hhigh
  simp only [lookupRange, blockRange, hstart, hstop, hmin]

/-- A lookup looks for the entry in the range of the number, and creates the range if there is none
and the action asks for that. -/
theorem mapLookup_cases (hm : InodeMapOk m) (hend : ∀ r ∈ m, r.stop < 2 ^ 64)
    (hinum : inum < 2 ^ 64) (action : Int) (fresh : Nat) :
    ∃ pre mid r post, RangeAt m inum pre mid r post ∧
      ((action ≤ 0 → mid = [r]) ∧ mapLookup m inum action fresh =
          some (pre ++ (lookupEntry r inum action fresh).1 :: post,
            (lookupEntry r inum action fresh).2) ∨
        action ≤ 0 ∧ r = blockRange inum ∧ mapLookup m inum action fresh = some (m, none)) := by
  rcases hm.locate inum with ⟨pre, mid, r, post, h, htake, -⟩
  refine ⟨pre, mid, r, post, h, ?_⟩
  have hi : searchPrev (startsUpTo inum) m = (pre ++ mid).length - 1 := by
    rw [searchPrev, htake]
  have hsplit := h.split
  unfold mapLookup
  dsimp only
  rw [hi]
  rcases h.range with rfl | ⟨rfl, rfl⟩
  · refine Or.inl ⟨fun _ => rfl, ?_⟩
    have hget : m[pre.length]? = some r := by
      rw [hsplit]
      simp
    rw [length_append, length_singleton, Nat.add_sub_cancel, hget]
    simp only [filter_some, h.inside, and_self, decide_true, if_true]
    rw [hsplit, append_assoc, set_append_right _ _ (Nat.le_refl _), Nat.sub_self]
    rfl
  · rw [append_nil] at hsplit ⊢
    have hfilter : (m[pre.length - 1]?).filter
        (fun r => decide (r.start ≤ inum ∧ inum ≤ r.stop)) = none := by
      refine filter_eq_none_iff.mpr fun r hr => ?_
      have hmem : r ∈ pre ++ post := hsplit ▸ mem_of_getElem? hr
      rcases mem_append.mp hmem with hr | hr
      · simp [Nat.not_le_of_lt (h.before r hr)]
      · simp [Nat.not_le_of_lt (h.behind r hr)]
    rw [hfilter]
    dsimp only
    by_cases haction : action ≤ 0
    · exact Or.inr ⟨haction, rfl, if_pos haction⟩
    · refine Or.inl ⟨fun hle => absurd hle haction, ?_⟩
      rcases h.lookupRange_eq hm hend hinum with ⟨hassert, hrange⟩
      have hentry : lookupEntry (blockRange inum) inum action fresh =
          ((blockRange inum).enter inum fresh, some fresh) := by
        simp [lookupEntry, blockRange, InodeMapRange.enter, setEntry, insertEntry, haction]
      rw [if_neg haction, if_pos hassert, hrange, hentry, h.insertRange_block hm]

/-! ## Entries of the map -/

/-- The finite map that the calls are about. -/
def tableLookup (table : Nat → Option Nat) (inum : Nat) (action : Int) (fresh : Nat) :
    (Nat → Option Nat) × Option Nat :=
  if action < 0 then (update table inum none, none)
  else if action = 0 then (table, table inum)
  else
    match table inum with
    | some entry => (table, some entry)
    | none => (update table inum (some fresh), some fresh)

variable {table : Nat → Option Nat}

theorem tableLookup_other {k : Nat} (hk : k ≠ inum) (action : Int) (fresh : Nat) :
    (tableLookup table inum action fresh).1 k = table k := by
  unfold tableLookup
  split
  · exact update_of_ne hk _ _
  · split
    · rfl
    · cases table inum with
      | some entry => rfl
      | none => exact update_of_ne hk _ _

theorem tableLookup_of_none (hnone : table inum = none) {action : Int} (haction : action ≤ 0)
    (fresh : Nat) :
    tableLookup table inum action fresh = (table, none) := by
  unfold tableLookup
  split
  · rw [← hnone, update_eq_self]
  · rw [if_pos (by omega), hnone]

/-- The entries of a range, as the finite map has them. -/
def EntriesAt (r : InodeMapRange) (inum : Nat) (entry : Option Nat) : Prop :=
  ∀ x, (inum, x) ∈ r.entries ↔ entry = some x

/-- What a lookup keeps and changes in a range. -/
structure EntryLookup (r : InodeMapRange) (table : Nat → Option Nat) (inum : Nat) (action : Int)
    (fresh : Nat) (found : InodeMapRange × Option Nat) : Prop where
  result : found.2 = (tableLookup table inum action fresh).2
  start : found.1.start = r.start
  stop : found.1.stop = r.stop
  keys : found.1.entries.Pairwise fun a b => a.1 < b.1
  others : ∀ e : Nat × Nat, e.1 ≠ inum → (e ∈ found.1.entries ↔ e ∈ r.entries)
  entry : EntriesAt found.1 inum ((tableLookup table inum action fresh).1 inum)
  unchanged : action = 0 → found.1 = r

/-- Sorted entries with another entry for the number, or with none. -/
theorem entries_replaced {pre mid mid' post : List (Nat × Nat)} {inum : Nat}
    (hkeys : (pre ++ (mid ++ post)).Pairwise fun a b => a.1 < b.1)
    (hpre : ∀ e ∈ pre, e.1 < inum) (hpost : ∀ e ∈ post, inum < e.1)
    (hmid : ∀ e ∈ mid, e.1 = inum) (hmid' : mid' = [] ∨ ∃ x, mid' = [(inum, x)]) :
    (pre ++ (mid' ++ post)).Pairwise (fun a b => a.1 < b.1) ∧
      (∀ e : Nat × Nat, e.1 ≠ inum → (e ∈ pre ++ (mid' ++ post) ↔ e ∈ pre ++ (mid ++ post))) ∧
      ∀ x, (inum, x) ∈ pre ++ (mid' ++ post) ↔ (inum, x) ∈ mid' := by
  have hat : ∀ e ∈ mid', e.1 = inum := by
    rcases hmid' with rfl | ⟨x, rfl⟩
    · exact nofun
    · exact forall_mem_singleton.mpr rfl
  refine ⟨?_, ?_, ?_⟩
  · simp only [pairwise_append, forall_mem_append] at hkeys ⊢
    refine ⟨hkeys.1, ⟨?_, hkeys.2.1.2.1, fun a ha b hb => hat a ha ▸ hpost b hb⟩,
      fun a ha => ⟨fun b hb => hat b hb ▸ hpre a ha, (hkeys.2.2 a ha).2⟩⟩
    rcases hmid' with rfl | ⟨x, rfl⟩
    · exact List.Pairwise.nil
    · exact pairwise_singleton _ _
  · intro e he
    have hout : e ∉ mid ∧ e ∉ mid' := ⟨fun h => he (hmid e h), fun h => he (hat e h)⟩
    simp only [mem_append, hout]
  · intro x
    have hout : (inum, x) ∉ pre ∧ (inum, x) ∉ post :=
      ⟨fun h => lt_irrefl _ (hpre _ h), fun h => lt_irrefl _ (hpost _ h)⟩
    simp [hout]

theorem entryLookup_lookupEntry (hkeys : r.entries.Pairwise fun a b => a.1 < b.1)
    (hr : EntriesAt r inum (table inum)) (action : Int) (fresh : Nat) :
    EntryLookup r table inum action fresh (lookupEntry r inum action fresh) := by
  rcases lookupEntry_cases hkeys inum action fresh with
    ⟨pre, x, post, hes, hpre, hpost, heq⟩ | ⟨pre, post, hes, hpre, hpost, heq⟩
  · have hentry : table inum = some x := (hr x).mp (by rw [hes]; simp)
    rw [heq]
    by_cases hzero : action = 0
    · subst hzero
      exact ⟨by simp [tableLookup, hentry], rfl, rfl, hkeys, fun _ _ => Iff.rfl, hr, fun _ => rfl⟩
    rw [if_neg hzero]
    by_cases hneg : action < 0
    · rw [if_pos hneg]
      rcases @entries_replaced pre [(inum, x)] [] post inum (hes ▸ hkeys) hpre hpost (by simp)
        (Or.inl rfl) with ⟨hkeys', hothers, hat⟩
      refine ⟨by simp [tableLookup, hneg], rfl, rfl, hkeys', hes ▸ hothers, ?_,
        fun h => absurd h hzero⟩
      intro y
      simpa [tableLookup, hneg] using hat y
    · rw [if_neg hneg]
      refine ⟨by simp [tableLookup, hneg, hzero, hentry], rfl, rfl, hkeys, fun _ _ => Iff.rfl, ?_,
        fun h => absurd h hzero⟩
      intro y
      simpa [tableLookup, hneg, hzero, hentry] using hr y
  · rcases @entries_replaced pre [] [(inum, fresh)] post inum (hes ▸ hkeys) hpre hpost
      nofun (Or.inr ⟨fresh, rfl⟩) with ⟨hkeys', hothers, hat⟩
    have hentry : table inum = none := by
      refine eq_none_iff_forall_ne_some.mpr fun x htable => ?_
      have hx := (hr x).mpr htable
      rw [hes, mem_append] at hx
      exact hx.elim (fun hx => lt_irrefl _ (hpre _ hx)) (fun hx => lt_irrefl _ (hpost _ hx))
    rw [heq]
    by_cases hle : action ≤ 0
    · rw [if_pos hle]
      have hsame := tableLookup_of_none hentry hle fresh
      refine ⟨by rw [hsame], rfl, rfl, hkeys, fun _ _ => Iff.rfl, ?_, fun _ => rfl⟩
      rw [hsame]
      exact hr
    · rw [if_neg hle]
      have hnew : tableLookup table inum action fresh =
          (update table inum (some fresh), some fresh) := by
        unfold tableLookup
        rw [if_neg (by omega), if_neg (by omega), hentry]
      refine ⟨by rw [hnew], rfl, rfl, hkeys', hes ▸ hothers, ?_, fun h => absurd h (by omega)⟩
      intro y
      simpa [hnew, eq_comm] using hat y

/-- The map and the finite map agree. -/
structure MapAgrees (m : InodeMap) (table : Nat → Option Nat) : Prop where
  shape : InodeMapOk m
  stop_lt : ∀ r ∈ m, r.stop < 2 ^ 64
  entries : ∀ k x, MapEntry m k x ↔ table k = some x

theorem MapAgrees.nil : MapAgrees [] fun _ => none where
  shape := InodeMapOk.nil
  stop_lt := by simp
  entries := by simp [MapEntry]

/-- The agreement after a change of the entry for a number. -/
theorem MapAgrees.replace {pre mid post : InodeMap} {r' : InodeMapRange} {table' : Nat → Option Nat}
    (hm : MapAgrees m table) (h : RangeAt m inum pre mid r post) (hinum : inum < 2 ^ 64)
    (hstart : r'.start = r.start) (hstop : r'.stop = r.stop)
    (hkeys : r'.entries.Pairwise fun a b => a.1 < b.1)
    (hothers : ∀ e : Nat × Nat, e.1 ≠ inum → (e ∈ r'.entries ↔ e ∈ r.entries))
    (hentry : EntriesAt r' inum (table' inum)) (htable : ∀ k, k ≠ inum → table' k = table k) :
    MapAgrees (pre ++ r' :: post) table' := by
  refine ⟨h.replace hm.shape hstart hstop hkeys hothers, ?_, ?_⟩
  · refine forall_mem_append.mpr ⟨fun a ha => hm.stop_lt a (h.of_mem (Or.inl ha)),
      forall_mem_cons.mpr ⟨?_, fun a ha => hm.stop_lt a (h.of_mem (Or.inr ha))⟩⟩
    rw [hstop]
    exact h.forall_range hm.stop_lt ((blockRange_shape inum).2.2.2 hinum)
  · intro k x
    rw [h.mapEntry_replace hm.shape hothers]
    split_ifs with hk
    · rw [hk]
      exact hentry x
    · rw [hm.entries, htable k hk]

/-- A lookup keeps the agreement and gives the entry that the finite map gives. -/
theorem MapAgrees.lookup (hm : MapAgrees m table) (hinum : inum < 2 ^ 64) (action : Int)
    (fresh : Nat) :
    ∃ m', mapLookup m inum action fresh = some (m', (tableLookup table inum action fresh).2) ∧
      MapAgrees m' (tableLookup table inum action fresh).1 ∧ (action = 0 → m' = m) := by
  rcases mapLookup_cases hm.shape hm.stop_lt hinum action fresh with
    ⟨pre, mid, r, post, h, ⟨hmid, heq⟩ | ⟨hle, rfl, heq⟩⟩
  · have hat : EntriesAt r inum (table inum) :=
      fun x => (h.mapEntry hm.shape).symm.trans (hm.entries inum x)
    have hfound := entryLookup_lookupEntry (h.keys hm.shape) hat action fresh
    generalize lookupEntry r inum action fresh = found at *
    refine ⟨pre ++ found.1 :: post, by rw [heq, hfound.result], ?_, ?_⟩
    · exact hm.replace h hinum hfound.start hfound.stop hfound.keys hfound.others hfound.entry
        fun k hk => tableLookup_other hk action fresh
    · intro hzero
      rw [hfound.unchanged hzero, h.split, hmid hzero.le, append_assoc]
      rfl
  · have hnone : table inum = none := by
      refine eq_none_iff_forall_ne_some.mpr fun x htable => ?_
      cases (h.mapEntry hm.shape).mp ((hm.entries inum x).mpr htable)
    have hsame := tableLookup_of_none hnone hle fresh
    refine ⟨m, by rw [heq, hsame], ?_, fun _ => rfl⟩
    rw [hsame]
    exact hm

/-- The lookup with action 1 and the assignment of the item, as the proxy makes them. -/
theorem MapAgrees.insert (hm : MapAgrees m table) (hinum : inum < 2 ^ 64) (id : Nat) :
    MapAgrees (inodeMapInsert m inum id) (update table inum (some id)) := by
  rcases inodeMapInsert_cases hm.shape hinum id with ⟨pre, mid, r, post, h, heq⟩
  rw [heq]
  refine hm.replace h hinum rfl rfl (setEntry_sorted inum id (h.keys hm.shape))
    (h.enter_others hm.shape id) ?_ fun k hk => update_of_ne hk _ _
  intro x
  rw [h.mem_enter hm.shape]
  simp [eq_comm]

/-- The lookup with action 0, as the proxy makes it. -/
theorem MapAgrees.inodeMapLookup_eq (hm : MapAgrees m table) (inum : Nat) :
    inodeMapLookup m inum = table inum := by
  cases htable : table inum with
  | some x => exact inodeMapLookup_of_mapEntry hm.shape ((hm.entries inum x).mpr htable)
  | none =>
    have hno : ∀ r ∈ m, ∀ entry ∈ r.entries, entry.1 ≠ inum := by
      intro r hr entry hentry hk
      have hsome := (hm.entries inum entry.2).mp ⟨r, hr, by rw [← hk]; exact hentry⟩
      rw [htable] at hsome
      cases hsome
    unfold inodeMapLookup
    cases hr : (m.takeWhile (startsUpTo inum)).getLast? with
    | none => rfl
    | some r =>
      have hmem : r ∈ m := (takeWhile_sublist _).subset (mem_of_getLast? hr)
      dsimp only
      split
      · cases he : (r.entries.takeWhile (keyUpTo inum)).getLast? with
        | none => rfl
        | some entry =>
          have hentry : entry ∈ r.entries :=
            (takeWhile_sublist _).subset (mem_of_getLast? he)
          exact if_neg (hno r hmem entry hentry)
      · rfl

/-! ## Sequences of lookups -/

/-- A call of `bluesky_inode_map_lookup`, with the entry that it allocates. -/
structure MapCall where
  inum : BitVec 64
  action : Int
  fresh : Nat

/-- Calls of `bluesky_inode_map_lookup` one after the other, and their results. -/
def mapLookups : InodeMap → List MapCall → Option (InodeMap × List (Option Nat))
  | m, [] => some (m, [])
  | m, call :: calls => do
      let (m, entry) ← mapLookup m call.inum.toNat call.action call.fresh
      let (m, entries) ← mapLookups m calls
      some (m, entry :: entries)

/-- The calls on the finite map. -/
def tableLookups : (Nat → Option Nat) → List MapCall → (Nat → Option Nat) × List (Option Nat)
  | table, [] => (table, [])
  | table, call :: calls =>
    let (table, entry) := tableLookup table call.inum.toNat call.action call.fresh
    let (table, entries) := tableLookups table calls
    (table, entry :: entries)

/-- What the structure of the map is to be. -/
structure MapStructure (m : InodeMap) : Prop where
  sorted : m.Pairwise fun a b => a.start < b.start
  disjoint : m.Pairwise fun a b => a.stop < b.start
  nonempty : ∀ r ∈ m, r.start ≤ r.stop ∧ r.stop < 2 ^ 64
  inside : ∀ r ∈ m, ∀ entry ∈ r.entries, r.start ≤ entry.1 ∧ entry.1 ≤ r.stop
  keys : ∀ r ∈ m, r.entries.Pairwise fun a b => a.1 < b.1

theorem MapAgrees.mapStructure (hm : MapAgrees m table) :
    MapStructure m where
  sorted := hm.shape.sorted
  disjoint := hm.shape.sorted.imp_of_mem fun ha hb h => hm.shape.stop_lt_start ha hb h
  nonempty := fun r hr => ⟨by rw [hm.shape.stop_eq r hr]; exact Nat.le_add_right _ _,
    hm.stop_lt r hr⟩
  inside := hm.shape.inside
  keys := hm.shape.keys

/-- Calls on a map that agrees with a finite map. -/
theorem MapAgrees.lookups (hm : MapAgrees m table) (calls : List MapCall) :
    ∃ m', mapLookups m calls = some (m', (tableLookups table calls).2) ∧
      MapAgrees m' (tableLookups table calls).1 := by
  induction calls generalizing m table with
  | nil => exact ⟨m, rfl, hm⟩
  | cons call calls ih =>
    rcases hm.lookup call.inum.isLt call.action call.fresh with ⟨m', heq, hm', -⟩
    rcases ih hm' with ⟨m'', heq', hm''⟩
    refine ⟨m'', ?_, hm''⟩
    simp only [mapLookups, heq, heq', bind_eq_bind, bind_some, tableLookups]

/-- Whatever calls are made on an empty map, the assertion never fails, the structure of the map
is sound, its entries and the results are those of the finite map, and a call with action 0 leaves
the map alone. -/
theorem mapLookups_agree (calls : List MapCall) :
    ∃ m, mapLookups [] calls = some (m, (tableLookups (fun _ => none) calls).2) ∧
      MapStructure m ∧
      (∀ k x, MapEntry m k x ↔ (tableLookups (fun _ => none) calls).1 k = some x) ∧
      ∀ (inum : BitVec 64) (fresh : Nat), mapLookup m inum.toNat 0 fresh =
        some (m, (tableLookups (fun _ => none) calls).1 inum.toNat) := by
  rcases MapAgrees.nil.lookups calls with ⟨m, heq, hm⟩
  refine ⟨m, heq, hm.mapStructure, hm.entries, ?_⟩
  intro inum fresh
  rcases hm.lookup inum.isLt 0 fresh with ⟨m', heq', -, hsame⟩
  rw [heq', hsame rfl]
  rfl

end BlueSky
