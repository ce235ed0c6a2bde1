import BlueSky.Lib.SortedSeq
import Mathlib

/-!
# Range sets

`BlueSkyRangeset` of `util.c`: ranges of integers in a sequence sorted by where they start.
`g_sequence_search` finds the position behind all ranges that start at or below a key, and
stepping back from the first position of a sequence stays there.  Nothing checks that
ranges do not overlap.

Main results:

- Theorem {lit}`rangesetInsert_perm`, {lit}`rangesetInsert_sorted`: an insertion adds the range, and
  keeps the order.
- Theorem {lit}`rangesetInsert_last`: a range that starts above all others goes to the end.
- Theorem {lit}`rangesetLookup_eq_some_iff`, {lit}`rangesetLookupNext_eq_some_iff`: what the two
  lookups find.
- Theorem {lit}`rangesetIterate_eq`: the iteration with `bluesky_rangeset_lookup_next` goes through
  the ranges in order.
- Theorem {lit}`SegmentLayout.extents`: the extents of a set cover all of its ranges.
- Theorem {lit}`rangeset_queries`: what all queries return for a set of disjoint ranges.
-/

namespace BlueSky

open SortedSeqLib

/-- `BlueSkyRangesetItem`, without its data pointer. -/
structure RangesetItem where
  start : Nat
  length : Nat
deriving DecidableEq, Repr

/-- `BlueSkyRangeset`. -/
abbrev Rangeset := List RangesetItem

/-- Whether a range lies before the position that a search for a key finds. -/
def RangesetItem.startsBy (key : Nat) (item : RangesetItem) : Bool :=
  item.start ≤ key

/-- `bluesky_rangeset_insert`: the set, and the result, which is always true. -/
def rangesetInsert (set : Rangeset) (start length : Nat) : Rangeset × Bool :=
  (set.takeWhile (RangesetItem.startsBy start) ++
    ⟨start, length⟩ :: set.dropWhile (RangesetItem.startsBy start), true)

/-- `bluesky_rangeset_lookup`. -/
def rangesetLookup (set : Rangeset) (offset : Nat) : Option RangesetItem :=
  match (set.takeWhile (RangesetItem.startsBy offset)).getLast? with
  | some item => if offset < item.start + item.length then some item else none
  -- the first range, if there is one, starts above the offset
  | none => none

/-- `bluesky_rangeset_lookup_next`. -/
def rangesetLookupNext (set : Rangeset) (offset : Nat) : Option RangesetItem :=
  match (set.takeWhile (RangesetItem.startsBy offset)).getLast? with
  | some item =>
    if item.start < offset then (set.dropWhile (RangesetItem.startsBy offset)).head?
    else some item
  | none => set.head?

/-- `bluesky_rangeset_get_extents`: where the first range starts, and the length up to the end of
the last one.  Offsets and lengths have 32 bits where the function is used, so that sums of 64 bits
do not wrap around. -/
def rangesetGetExtents (set : Rangeset) : Nat × Nat :=
  match set.head?, set.getLast? with
  | some first, some last => (first.start, last.start + last.length - first.start)
  | _, _ => (0, 0)

/-- The insertion of ranges into a new set, one after the other. -/
def rangesetOf (ranges : List RangesetItem) : Rangeset :=
  ranges.foldl (fun set r => (rangesetInsert set r.start r.length).1) []

/-- The iteration of `cloudlog_partial_fetch_complete` and `bluesky_cleaner_find_checkpoint`: the
ranges that are visited from an offset on, or {lean}`none` if the rounds do not suffice. -/
def rangesetIterate (set : Rangeset) : Nat → Nat → Option (List RangesetItem)
  | 0, _ => none
  | fuel + 1, offset =>
    match rangesetLookupNext set offset with
    | none => some []
    | some item => (rangesetIterate set fuel (item.start + 1)).map (item :: ·)

/-! ## Disjoint ranges -/

/-- Two ranges that have no byte in common. -/
def Apart (a m b n : Nat) : Prop :=
  a + m ≤ b ∨ b + n ≤ a

instance (a m b n : Nat) : Decidable (Apart a m b n) :=
  inferInstanceAs (Decidable (_ ∨ _))

/-- Two ranges that have no byte in common. -/
def RangesetItem.Apart (r r' : RangesetItem) : Prop :=
  BlueSky.Apart r.start r.length r'.start r'.length

instance (r r' : RangesetItem) : Decidable (r.Apart r') :=
  inferInstanceAs (Decidable (_ ∨ _))

theorem RangesetItem.Apart.symm {r r' : RangesetItem} (h : r.Apart r') : r'.Apart r :=
  Or.symm h

/-- The ranges of a set are pairwise disjoint. -/
def Rangeset.Disjoint (set : Rangeset) : Prop :=
  set.Pairwise RangesetItem.Apart

variable {set : Rangeset}

theorem Rangeset.Disjoint.perm {set' : Rangeset} (h : set.Perm set') :
    Rangeset.Disjoint set ↔ Rangeset.Disjoint set' :=
  h.pairwise_iff RangesetItem.Apart.symm

/-! ## Insertions -/

/-- An insertion adds the range, whatever the set holds. -/
theorem rangesetInsert_perm (set : Rangeset) (start length : Nat) :
    (rangesetInsert set start length).1.Perm (⟨start, length⟩ :: set) := by
  have hmiddle := @List.perm_middle _ (⟨start, length⟩ : RangesetItem)
    (set.takeWhile (RangesetItem.startsBy start)) (set.dropWhile (RangesetItem.startsBy start))
  rw [List.takeWhile_append_dropWhile] at hmiddle
  exact hmiddle

variable {item : RangesetItem}

theorem mem_rangesetInsert {start length : Nat} :
    item ∈ (rangesetInsert set start length).1 ↔ item = ⟨start, length⟩ ∨ item ∈ set := by
  rw [(rangesetInsert_perm set start length).mem_iff, List.mem_cons]

/-- A range that starts above all others goes to the end. -/
theorem rangesetInsert_last {start : Nat} (length : Nat) (h : ∀ item ∈ set, item.start < start) :
    (rangesetInsert set start length).1 = set ++ [⟨start, length⟩] := by
  have hall : ∀ item ∈ set, RangesetItem.startsBy start item = true := by
    intro item hitem
    simpa [RangesetItem.startsBy] using (h item hitem).le
  simp only [rangesetInsert, List.takeWhile_eq_self_iff.mpr hall,
    List.dropWhile_eq_nil_iff.mpr hall]

/-- The set is in the order that searches rely on. -/
def Rangeset.Ordered (set : Rangeset) : Prop :=
  set.Pairwise fun r r' => r.start ≤ r'.start

theorem rangesetInsert_sorted (h : set.Ordered) (start length : Nat) :
    Rangeset.Ordered (rangesetInsert set start length).1 := by
  have hbefore : ∀ r ∈ set.takeWhile (RangesetItem.startsBy start), r.start ≤ start := by
    intro r hr
    simpa [RangesetItem.startsBy] using List.mem_takeWhile_imp hr
  have hafter : ∀ r ∈ set.dropWhile (RangesetItem.startsBy start), start ≤ r.start :=
    fun r hr => (lt_of_mem_dropWhile h hr).le
  refine List.pairwise_append.mpr ⟨h.sublist (List.takeWhile_sublist _),
    List.pairwise_cons.mpr ⟨hafter, h.sublist (List.dropWhile_sublist _)⟩, ?_⟩
  intro r hr r' hr'
  rcases List.mem_cons.mp hr' with rfl | hr'
  · exact hbefore r hr
  · exact (hbefore r hr).trans (hafter r' hr')

theorem rangesetOf_perm (ranges : List RangesetItem) : (rangesetOf ranges).Perm ranges := by
  have hfrom : ∀ set : Rangeset,
      (ranges.foldl (fun set r => (rangesetInsert set r.start r.length).1) set).Perm
        (ranges ++ set) := by
    induction ranges with
    | nil => exact fun set => List.Perm.refl _
    | cons r ranges ih =>
      intro set
      refine (ih _).trans (((rangesetInsert_perm _ _ _).append_left _).trans ?_)
      exact List.perm_middle
  have hnil := hfrom []
  rwa [List.append_nil] at hnil

theorem rangesetOf_ordered (ranges : List RangesetItem) : (rangesetOf ranges).Ordered := by
  refine List.foldlRecOn ranges _ (motive := Rangeset.Ordered) List.Pairwise.nil ?_
  intro set hset r _
  exact rangesetInsert_sorted hset _ _

/-! ## Lookups -/

variable {offset : Nat}

/-- A lookup finds a range of the set that covers the offset. -/
theorem rangesetLookup_mem (h : rangesetLookup set offset = some item) :
    item ∈ set ∧ item.start ≤ offset ∧ offset < item.start + item.length := by
  unfold rangesetLookup at h
  cases hlast : (set.takeWhile (RangesetItem.startsBy offset)).getLast? with
  | none => simp [hlast] at h
  | some found =>
    simp only [hlast] at h
    split_ifs at h with hinside
    cases h
    have hmem := List.mem_of_getLast? hlast
    have hstarts := List.mem_takeWhile_imp hmem
    exact ⟨(List.takeWhile_prefix _).subset hmem, by simpa [RangesetItem.startsBy] using hstarts,
      hinside⟩

/-- A lookup in a set of disjoint ranges that are in order. -/
theorem rangesetLookup_eq_some_iff (hset : set.Pairwise fun r r' => r.start + r.length ≤ r'.start) :
    rangesetLookup set offset = some item ↔
      item ∈ set ∧ item.start ≤ offset ∧ offset < item.start + item.length := by
  refine ⟨rangesetLookup_mem, ?_⟩
  rintro ⟨hitem, hstart, hstop⟩
  rcases List.append_of_mem hitem with ⟨pre, post, rfl⟩
  rcases List.pairwise_append.mp hset with ⟨-, hpost, hpre⟩
  have htake : (pre ++ item :: post).takeWhile (RangesetItem.startsBy offset) = pre ++ [item] := by
    refine takeWhile_concat_of_split ?_ (decide_eq_true hstart) ?_
    · intro r hr
      have hle := hpre r hr item List.mem_cons_self
      exact decide_eq_true (by omega)
    · intro r hr
      have hle := (List.pairwise_cons.mp hpost).1 r hr
      exact decide_eq_false (by omega)
  rw [rangesetLookup, htake, List.getLast?_concat]
  exact if_pos hstop

/-- The iteration goes through the ranges in order: behind the ranges that start below the
offset, the next one is found. -/
theorem rangesetLookupNext_append {pre post : Rangeset} (hpre : ∀ item ∈ pre, item.start < offset)
    (hpost : ∀ item ∈ post, offset ≤ item.start)
    (hsorted : post.Pairwise fun a b => a.start < b.start) :
    rangesetLookupNext (pre ++ post) offset = post.head? := by
  have hbefore : ∀ item ∈ pre, RangesetItem.startsBy offset item = true :=
    fun item hitem => decide_eq_true (hpre item hitem).le
  by_cases hat : ∃ item ∈ post, item.start = offset
  · -- a range that starts at the offset is the next one, and the search steps back to it
    rcases hat with ⟨item, hitem, rfl⟩
    rcases List.append_of_mem hitem with ⟨_ | ⟨next, front⟩, rest, rfl⟩
    · have hrest : ∀ r ∈ rest, RangesetItem.startsBy item.start r = false :=
        fun r hr => decide_eq_false (Nat.not_le_of_lt ((List.pairwise_cons.mp hsorted).1 r hr))
      rw [List.nil_append, rangesetLookupNext,
        takeWhile_concat_of_split hbefore (decide_eq_true le_rfl) hrest, List.getLast?_concat]
      exact if_neg (lt_irrefl _)
    · have hlt := (List.pairwise_cons.mp hsorted).1 item (by simp)
      exact absurd (hpost next List.mem_cons_self) (Nat.not_le_of_lt hlt)
  · have hafter : ∀ item ∈ post, RangesetItem.startsBy offset item = false := by
      intro item hitem
      exact decide_eq_false fun hle => hat ⟨item, hitem, le_antisymm hle (hpost item hitem)⟩
    rcases takeWhile_of_split hbefore hafter with ⟨htake, hdrop⟩
    rw [rangesetLookupNext, htake, hdrop]
    cases hlast : pre.getLast? with
    | none =>
      rw [List.getLast?_eq_none_iff.mp hlast]
      rfl
    | some item => exact if_pos (hpre item (List.mem_of_getLast? hlast))

/-- The next range is the first one that does not start below the offset. -/
theorem rangesetLookupNext_eq_some_iff (hset : set.Pairwise fun r r' => r.start < r'.start) :
    rangesetLookupNext set offset = some item ↔
      item ∈ set ∧ offset ≤ item.start ∧ ∀ r ∈ set, offset ≤ r.start → item.start ≤ r.start := by
  have hsucc : Sorted (fun r : RangesetItem => r.start + 1) set := hset.imp Nat.succ_lt_succ
  have hnext : rangesetLookupNext set offset = after (fun r => r.start + 1) set offset := by
    rw [after, ← List.head?_drop, drop_search]
    conv_lhs => rw [← List.takeWhile_append_dropWhile
      (p := fun r : RangesetItem => decide (r.start + 1 ≤ offset)) (l := set)]
    apply rangesetLookupNext_append
    · intro r hr
      simpa using List.mem_takeWhile_imp hr
    · intro r hr
      exact Nat.le_of_lt_succ (lt_of_mem_dropWhile (hsucc.imp le_of_lt) hr)
    · exact hset.sublist (List.dropWhile_sublist _)
  rw [hnext, hsucc.after_eq_some_iff]
  simp only [Nat.lt_succ_iff, Nat.add_le_add_iff_right]

/-- The iteration visits all ranges that do not start below the offset, in order. -/
theorem rangesetIterate_eq {pre post : Rangeset} {fuel offset : Nat} (hfuel : post.length < fuel)
    (hpre : ∀ item ∈ pre, item.start < offset) (hpost : ∀ item ∈ post, offset ≤ item.start)
    (hsorted : post.Pairwise fun a b => a.start < b.start) :
    rangesetIterate (pre ++ post) fuel offset = some post := by
  induction post generalizing pre fuel offset with
  | nil =>
    cases fuel with
    | zero => cases hfuel
    | succ fuel =>
      rw [rangesetIterate, rangesetLookupNext_append hpre hpost hsorted]
      rfl
  | cons item post ih =>
    cases fuel with
    | zero => cases hfuel
    | succ fuel =>
      rcases List.pairwise_cons.mp hsorted with ⟨hfirst, hrest⟩
      have hle := hpost item List.mem_cons_self
      have hpre' : ∀ r ∈ pre ++ [item], r.start < item.start + 1 := by
        refine List.forall_mem_append.mpr ⟨?_, by simp⟩
        intro r hr
        have hlt := hpre r hr
        omega
      have hvisited := ih (Nat.lt_of_succ_lt_succ hfuel) hpre' hfirst hrest
      rw [List.append_assoc, List.singleton_append] at hvisited
      rw [rangesetIterate, rangesetLookupNext_append hpre hpost hsorted, List.head?_cons]
      dsimp only
      rw [hvisited, Option.map_some]

theorem rangesetIterate_all {fuel : Nat} (hfuel : set.length < fuel)
    (hsorted : set.Pairwise fun a b => a.start < b.start) :
    rangesetIterate set fuel 0 = some set :=
  @rangesetIterate_eq [] set fuel 0 hfuel nofun (fun _ _ => Nat.zero_le _) hsorted

/-! ## Queries -/

/-- The items of a segment: none is empty, and no two overlap. -/
structure SegmentLayout where
  ranges : List RangesetItem
  positive : ∀ r ∈ ranges, 0 < r.length
  apart : ranges.Pairwise RangesetItem.Apart

namespace SegmentLayout

variable {layout : SegmentLayout} {r r' : RangesetItem} {set : Rangeset}

theorem eq_or_apart (hr : r ∈ layout.ranges) (hr' : r' ∈ layout.ranges) : r = r' ∨ r.Apart r' := by
  have : Std.Symm RangesetItem.Apart := ⟨fun _ _ h => h.symm⟩
  by_cases heq : r = r'
  · exact Or.inl heq
  · exact Or.inr (layout.apart.forall hr hr' heq)

/-- Of two items, the one that starts first ends first. -/
theorem stop_le (hr : r ∈ layout.ranges) (hr' : r' ∈ layout.ranges) (hle : r.start ≤ r'.start) :
    r.start + r.length ≤ r'.start + r'.length := by
  have hpos := layout.positive r' hr'
  rcases layout.eq_or_apart hr hr' with rfl | happart | happart
  · exact le_rfl
  · omega
  · omega

/-- The extents of a queue of items cover all of them, and no more. -/
theorem extents (hset : ∀ r ∈ set, r ∈ layout.ranges) (hordered : set.Ordered) (hne : set ≠ []) :
    ∃ first ∈ set, ∃ last ∈ set,
      rangesetGetExtents set = (first.start, last.start + last.length - first.start) ∧
      (∀ r ∈ set, first.start ≤ r.start) ∧
      ∀ r ∈ set, r.start + r.length ≤ last.start + last.length := by
  have hfirst := List.head_mem hne
  have hlast := List.getLast_mem hne
  refine ⟨set.head hne, hfirst, set.getLast hne, hlast, ?_, ?_, ?_⟩
  · rw [rangesetGetExtents, List.head?_eq_some_head hne, List.getLast?_eq_some_getLast hne]
  · intro r hr
    exact hordered.rel_head hr
  · intro r hr
    exact layout.stop_le (hset r hr) (hset _ hlast) (hordered.rel_getLast hr)

/-- In order, each range ends where the next one starts, or before. -/
theorem separated (hset : set.Perm layout.ranges) (hordered : set.Ordered) :
    set.Pairwise fun r r' => r.start + r.length ≤ r'.start := by
  have hapart : set.Pairwise RangesetItem.Apart :=
    (hset.pairwise_iff RangesetItem.Apart.symm).mpr layout.apart
  refine (hordered.and hapart).imp_of_mem ?_
  rintro r r' hr hr' ⟨hle, happart | happart⟩
  · exact happart
  · have hpos := layout.positive r' (hset.mem_iff.mp hr')
    omega

end SegmentLayout

/-- Ranges with ends that fit into 64 bits. -/
structure RangeList extends SegmentLayout where
  bounded : ∀ r ∈ ranges, r.start + r.length < 2 ^ 64

/-- What all queries return for the set of some disjoint ranges, whatever the order in which they
have been inserted: the range that covers an offset, the first range that starts no earlier than
an offset, all ranges in increasing order, and where the ranges start and end.  The sums of 64 bits
that the queries compute do not wrap around. -/
theorem rangeset_queries (l : RangeList) :
    (∀ offset item, rangesetLookup (rangesetOf l.ranges) offset = some item ↔
      item ∈ l.ranges ∧ item.start ≤ offset ∧ offset < item.start + item.length) ∧
    (∀ offset item, rangesetLookupNext (rangesetOf l.ranges) offset = some item ↔
      item ∈ l.ranges ∧ offset ≤ item.start ∧
        ∀ r ∈ l.ranges, offset ≤ r.start → item.start ≤ r.start) ∧
    (∀ fuel, l.ranges.length < fuel →
      ∃ visited, rangesetIterate (rangesetOf l.ranges) fuel 0 = some visited ∧
        visited.Perm l.ranges ∧ visited.Pairwise fun r r' => r.start < r'.start) ∧
    (l.ranges = [] → rangesetGetExtents (rangesetOf l.ranges) = (0, 0)) ∧
    (l.ranges ≠ [] → ∃ first ∈ l.ranges, ∃ last ∈ l.ranges,
      rangesetGetExtents (rangesetOf l.ranges) =
        (first.start, last.start + last.length - first.start) ∧
      (∀ r ∈ l.ranges, first.start ≤ r.start) ∧
      ∀ r ∈ l.ranges, r.start + r.length ≤ last.start + last.length) ∧
    ∀ r ∈ rangesetOf l.ranges, r.start + r.length < 2 ^ 64 ∧ r.start + 1 < 2 ^ 64 := by
  have hperm := rangesetOf_perm l.ranges
  have hordered := rangesetOf_ordered l.ranges
  have hmem : ∀ r, r ∈ rangesetOf l.ranges ↔ r ∈ l.ranges := fun r => hperm.mem_iff
  have hseparated := l.separated hperm hordered
  have hsorted : (rangesetOf l.ranges).Pairwise fun r r' => r.start < r'.start := by
    refine hseparated.imp_of_mem ?_
    intro r r' hr _ hle
    have hpos := l.positive r ((hmem r).mp hr)
    omega
  refine ⟨?_, ?_, ?_, ?_, ?_, ?_⟩
  · intro offset item
    rw [rangesetLookup_eq_some_iff hseparated, hmem]
  · intro offset item
    rw [rangesetLookupNext_eq_some_iff hsorted]
    simp only [hmem]
  · intro fuel hfuel
    rw [← hperm.length_eq] at hfuel
    exact ⟨_, rangesetIterate_all hfuel hsorted, hperm, hsorted⟩
  · intro hnil
    rw [hnil]
    rfl
  · intro hne
    have hne' : rangesetOf l.ranges ≠ [] := by
      intro hnil
      rw [hnil] at hperm
      exact hne hperm.nil_eq.symm
    simpa only [hmem] using l.extents (fun r => (hmem r).mp) hordered hne'
  · intro r hr
    have hpos := l.positive r ((hmem r).mp hr)
    have hlt := l.bounded r ((hmem r).mp hr)
    exact ⟨hlt, by omega⟩

theorem rangeset_queries_between :
    rangesetLookup (rangesetOf [⟨10, 5⟩, ⟨0, 3⟩]) 4 = none ∧
      rangesetLookupNext (rangesetOf [⟨10, 5⟩, ⟨0, 3⟩]) 4 = some ⟨10, 5⟩ := by
  have h := rangeset_queries ⟨⟨[⟨10, 5⟩, ⟨0, 3⟩], by decide, by decide⟩, by decide⟩
  refine ⟨Option.eq_none_iff_forall_ne_some.mpr ?_, (h.2.1 4 ⟨10, 5⟩).mpr (by decide)⟩
  intro item hitem
  rcases (h.1 4 item).mp hitem with ⟨hmem, hle, hlt⟩
  simp only [List.mem_cons, List.not_mem_nil, or_false] at hmem
  rcases hmem with rfl | rfl
  · exact absurd hle (by decide)
  · exact absurd hlt (by decide)

end BlueSky
