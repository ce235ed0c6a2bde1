import BlueSky.Cloud.Object
import BlueSky.Lib.SortedSeq

/-!
# The inode map

The inode map of the proxy is a sorted sequence of ranges of inode numbers, each with
its entries and with the inode-map section last written for it, if the range has not
changed since.  `bluesky_inode_map_lookup` creates ranges of {lit}`targetImapSize`
numbers; the bounds that it takes from the neighbours never bind, because all ranges
are aligned.

Main results:

- Theorem {lit}`inodeMapInsert_cases`: an insertion changes one range or adds one.
- Theorem {lit}`mapEntry_inodeMapInsert`: the entries after an insertion.
- Theorem {lit}`InodeMapOk.insert`: an insertion keeps the map well formed.
-/

namespace BlueSky

open List SortedSeqLib

/-- `target_imap_size`. -/
def targetImapSize : Nat := 4096

/-- `InodeMapRange`. -/
structure InodeMapRange where
  start : Nat
  stop : Nat
  /-- Inode numbers with the items that hold the inodes. -/
  entries : List (Nat × Nat)
  /-- The section last written for the range, until the range changes. -/
  serialized : Option Nat
deriving DecidableEq, Repr

/-- The inode map, in order of the ranges. -/
abbrev InodeMap := List InodeMapRange

/-- Enter an item for an inode number in a sorted list of entries. -/
def setEntry (inum id : Nat) : List (Nat × Nat) → List (Nat × Nat)
  | [] => [(inum, id)]
  | (k, x) :: rest =>
    if inum < k then (inum, id) :: (k, x) :: rest
    else if inum = k then (inum, id) :: rest
    else (k, x) :: setEntry inum id rest

/-- Enter an item in a range, which makes the section of the range outdated. -/
def InodeMapRange.enter (r : InodeMapRange) (inum id : Nat) : InodeMapRange :=
  { r with entries := setEntry inum id r.entries, serialized := none }

/-- A new range for an inode number between two bounds. -/
def newRange (low high inum : Nat) : InodeMapRange :=
  let start := max low (inum - inum % targetImapSize)
  { start := start
    stop := min high (start + targetImapSize - 1)
    entries := []
    serialized := none }

/-- The order in which `g_sequence_search` compares a number with a range. -/
def startsUpTo (n : Nat) (r : InodeMapRange) : Bool :=
  r.start ≤ n

/-- `g_sequence_insert_sorted`. -/
def insertRange (m : InodeMap) (r : InodeMapRange) : InodeMap :=
  m.takeWhile (startsUpTo r.start) ++ r :: m.dropWhile (startsUpTo r.start)

/-- The upper bound that the next range of the sequence sets. -/
def boundBy : Option InodeMapRange → Nat
  | some r => r.start - 1
  | none => 2 ^ 64 - 1

/-- `bluesky_inode_map_lookup` with action 1, followed by the assignment of the item. -/
def inodeMapInsert (m : InodeMap) (inum id : Nat) : InodeMap :=
  let pre := m.takeWhile (startsUpTo inum)
  let post := m.dropWhile (startsUpTo inum)
  match pre.getLast? with
  | some r =>
    if inum ≤ r.stop then pre.dropLast ++ r.enter inum id :: post
    else
      -- The first range of the sequence sets no lower bound.
      let low := if pre.length = 1 then 0 else r.stop + 1
      insertRange m ((newRange low (boundBy post.head?) inum).enter inum id)
  | none =>
    -- The search stays at the first range, so that the second one sets the bound.
    insertRange m ((newRange 0 (boundBy post.tail.head?) inum).enter inum id)

/-! ## Well-formed maps -/

/-- An entry of the map. -/
def MapEntry (m : InodeMap) (inum id : Nat) : Prop :=
  ∃ r ∈ m, (inum, id) ∈ r.entries

/-- The shape that insertions give to the map. -/
structure InodeMapOk (m : InodeMap) : Prop where
  start_aligned : ∀ r ∈ m, r.start % targetImapSize = 0
  stop_eq : ∀ r ∈ m, r.stop = r.start + (targetImapSize - 1)
  sorted : m.Pairwise fun a b => a.start < b.start
  inside : ∀ r ∈ m, ∀ entry ∈ r.entries, r.start ≤ entry.1 ∧ entry.1 ≤ r.stop
  keys : ∀ r ∈ m, r.entries.Pairwise fun a b => a.1 < b.1

theorem InodeMapOk.nil : InodeMapOk [] where
  start_aligned := by simp
  stop_eq := by simp
  sorted := List.Pairwise.nil
  inside := by simp
  keys := by simp

variable {inum : Nat}

/-- An entry goes between those for smaller and those for larger numbers. -/
theorem setEntry_split {id : Nat} {pre mid post : List (Nat × Nat)} (hpre : ∀ e ∈ pre, e.1 < inum)
    (hpost : ∀ e ∈ post, inum < e.1) (hmid : mid = [] ∨ ∃ e, mid = [e] ∧ e.1 = inum) :
    setEntry inum id (pre ++ (mid ++ post)) = pre ++ (inum, id) :: post := by
  induction pre with
  | nil =>
    rcases hmid with rfl | ⟨e, rfl, rfl⟩
    · cases post with
      | nil => rfl
      | cons e post => exact if_pos (hpost e mem_cons_self)
    · exact (if_neg (lt_irrefl _)).trans (if_pos rfl)
  | cons e pre ih =>
    have hlt := hpre e mem_cons_self
    rw [cons_append, setEntry, if_neg hlt.not_gt, if_neg hlt.ne',
      ih fun e' he' => hpre e' (mem_cons_of_mem _ he')]
    rfl

theorem mem_setEntry {id : Nat} {es : List (Nat × Nat)} (hes : es.Pairwise fun a b => a.1 < b.1)
    {entry : Nat × Nat} :
    entry ∈ setEntry inum id es ↔ entry = (inum, id) ∨ (entry ∈ es ∧ entry.1 ≠ inum) := by
  rcases Sorted.split hes inum with ⟨pre, mid, post, rfl, hpre, hpost, hmid⟩
  rw [setEntry_split hpre hpost hmid]
  have hpre' : entry ∈ pre → entry.1 ≠ inum := fun h => (hpre entry h).ne
  have hpost' : entry ∈ post → entry.1 ≠ inum := fun h => (hpost entry h).ne'
  have hmid' : entry ∈ mid → entry.1 = inum := by
    rcases hmid with rfl | ⟨e, rfl, he⟩
    · exact nofun
    · exact fun h => mem_singleton.mp h ▸ he
  simp only [mem_append, mem_cons]
  tauto

theorem setEntry_sorted {es : List (Nat × Nat)} (inum id : Nat)
    (hes : es.Pairwise fun a b => a.1 < b.1) :
    (setEntry inum id es).Pairwise fun a b => a.1 < b.1 := by
  rcases Sorted.split hes inum with ⟨pre, mid, post, rfl, hpre, hpost, hmid⟩
  rw [setEntry_split hpre hpost hmid]
  rcases pairwise_append.mp hes with ⟨hpreSorted, hrest, hcross⟩
  refine pairwise_append.mpr ⟨hpreSorted, pairwise_cons.mpr
    ⟨hpost, hrest.sublist (sublist_append_right _ _)⟩, ?_⟩
  intro a ha b hb
  rcases mem_cons.mp hb with rfl | hb
  · exact hpre a ha
  · exact hcross a ha b (mem_append_right _ hb)

/-! ## The place of a number -/

/-- The range that an insertion creates when nothing bounds it further. -/
def blockRange (inum : Nat) : InodeMapRange where
  start := inum - inum % targetImapSize
  stop := inum - inum % targetImapSize + (targetImapSize - 1)
  entries := []
  serialized := none

variable {m : InodeMap}

theorem InodeMapOk.stop_lt_start (hm : InodeMapOk m) {a b : InodeMapRange} (ha : a ∈ m) (hb : b ∈ m)
    (h : a.start < b.start) : a.stop < b.start := by
  have hstop := hm.stop_eq a ha
  have h1 := hm.start_aligned a ha
  have h2 := hm.start_aligned b hb
  unfold targetImapSize at *
  omega

variable {r : InodeMapRange}

/-- A range of the map that ends before a number ends before its block. -/
theorem InodeMapOk.stop_lt_block (hm : InodeMapOk m) (hr : r ∈ m) (h : r.stop < inum) :
    r.stop < (blockRange inum).start := by
  have hstop := hm.stop_eq r hr
  have halign := hm.start_aligned r hr
  unfold blockRange targetImapSize at *
  dsimp only
  omega

/-- A range of the map that starts behind a number starts behind its block. -/
theorem InodeMapOk.block_lt_start (hm : InodeMapOk m) (hr : r ∈ m) (h : inum < r.start) :
    (blockRange inum).stop < r.start := by
  have halign := hm.start_aligned r hr
  unfold blockRange targetImapSize at *
  dsimp only
  omega

theorem blockRange_shape (inum : Nat) :
    (blockRange inum).start % targetImapSize = 0 ∧ (blockRange inum).start ≤ inum ∧
      inum ≤ (blockRange inum).stop ∧ (inum < 2 ^ 64 → (blockRange inum).stop < 2 ^ 64) := by
  unfold blockRange targetImapSize
  dsimp only
  omega

/-- The place of a number in a map: the ranges before it and behind it, and the range that it is
in, which is one of the map or is still to be created. -/
structure RangeAt (m : InodeMap) (inum : Nat) (pre mid : InodeMap) (r : InodeMapRange)
    (post : InodeMap) : Prop where
  split : m = pre ++ mid ++ post
  before : ∀ r ∈ pre, r.stop < inum
  behind : ∀ r ∈ post, inum < r.start
  inside : r.start ≤ inum ∧ inum ≤ r.stop
  range : mid = [r] ∨ mid = [] ∧ r = blockRange inum

/-- The search for a number ends at its place. -/
theorem InodeMapOk.locate (hm : InodeMapOk m) (inum : Nat) :
    ∃ pre mid r post, RangeAt m inum pre mid r post ∧
      m.takeWhile (startsUpTo inum) = pre ++ mid ∧ m.dropWhile (startsUpTo inum) = post := by
  have hsplit : m = m.takeWhile (startsUpTo inum) ++ m.dropWhile (startsUpTo inum) :=
    takeWhile_append_dropWhile.symm
  have hpost : ∀ r ∈ m.dropWhile (startsUpTo inum), inum < r.start :=
    fun r hr => lt_of_mem_dropWhile (hm.sorted.imp le_of_lt) hr
  have hblock : (blockRange inum).start ≤ inum ∧ inum ≤ (blockRange inum).stop :=
    ⟨(blockRange_shape inum).2.1, (blockRange_shape inum).2.2.1⟩
  rcases eq_nil_or_concat (m.takeWhile (startsUpTo inum)) with hnil | ⟨front, r, hfront⟩
  · rw [hnil] at hsplit
    exact ⟨[], [], blockRange inum, _, ⟨hsplit, nofun, hpost, hblock, Or.inr ⟨rfl, rfl⟩⟩, hnil, rfl⟩
  rw [concat_eq_append] at hfront
  have hstart : r.start ≤ inum := by
    have hmem : r ∈ m.takeWhile (startsUpTo inum) := by simp [hfront]
    simpa [startsUpTo] using mem_takeWhile_imp hmem
  rw [hfront] at hsplit
  have hbefore : ∀ r' ∈ front, r'.stop < inum := by
    intro r' hr'
    have hsorted := hm.sorted
    rw [hsplit, append_assoc] at hsorted
    have hlt := (pairwise_append.mp hsorted).2.2 r' hr' r (by simp)
    exact lt_of_lt_of_le (hm.stop_lt_start (by rw [hsplit]; simp [hr']) (by rw [hsplit]; simp) hlt)
      hstart
  by_cases hin : inum ≤ r.stop
  · exact ⟨front, [r], r, _, ⟨hsplit, hbefore, hpost, ⟨hstart, hin⟩, Or.inl rfl⟩, hfront, rfl⟩
  · rw [← append_nil (front ++ [r])] at hsplit hfront
    refine ⟨front ++ [r], [], blockRange inum, _, ⟨hsplit, forall_mem_append.mpr ⟨hbefore, ?_⟩,
      hpost, hblock, Or.inr ⟨rfl, rfl⟩⟩, hfront, rfl⟩
    exact forall_mem_singleton.mpr (Nat.lt_of_not_le hin)

variable {k x : Nat}

/-- The entries of the parts of a map. -/
theorem mapEntry_append {m' : InodeMap} :
    MapEntry (m ++ m') k x ↔ MapEntry m k x ∨ MapEntry m' k x := by
  simp only [MapEntry, mem_append, or_and_right, exists_or]

theorem mapEntry_cons : MapEntry (r :: m) k x ↔ (k, x) ∈ r.entries ∨ MapEntry m k x := by
  simp [MapEntry]

section RangeAt

variable {m pre mid post : InodeMap} {r r' : InodeMapRange} {inum k x : Nat}

theorem RangeAt.of_mem (h : RangeAt m inum pre mid r post) {a : InodeMapRange}
    (ha : a ∈ pre ∨ a ∈ post) : a ∈ m := by
  rw [h.split]
  simp only [mem_append]
  tauto

/-- What a range of the map has, the range of a number has. -/
theorem RangeAt.forall_range (h : RangeAt m inum pre mid r post) {P : InodeMapRange → Prop}
    (hold : ∀ r ∈ m, P r) (hnew : P (blockRange inum)) : P r := by
  rcases h.range with hmid | ⟨-, rfl⟩
  · exact hold r (by rw [h.split, hmid]; simp)
  · exact hnew

theorem RangeAt.keys (hm : InodeMapOk m) (h : RangeAt m inum pre mid r post) :
    r.entries.Pairwise fun a b => a.1 < b.1 :=
  h.forall_range hm.keys List.Pairwise.nil

theorem RangeAt.entries (h : RangeAt m inum pre mid r post) :
    (k, x) ∈ r.entries ↔ MapEntry mid k x := by
  rcases h.range with rfl | ⟨rfl, rfl⟩
  · simp [MapEntry]
  · simp [MapEntry, blockRange]

/-- No other range has an entry for the number. -/
theorem RangeAt.others (hm : InodeMapOk m) (h : RangeAt m inum pre mid r post) :
    ¬ MapEntry pre inum x ∧ ¬ MapEntry post inum x := by
  constructor
  · rintro ⟨a, ha, hx⟩
    exact (h.before a ha).not_ge (hm.inside a (h.of_mem (Or.inl ha)) _ hx).2
  · rintro ⟨a, ha, hx⟩
    exact (h.behind a ha).not_ge (hm.inside a (h.of_mem (Or.inr ha)) _ hx).1

theorem RangeAt.mapEntry (hm : InodeMapOk m) (h : RangeAt m inum pre mid r post) :
    MapEntry m inum x ↔ (inum, x) ∈ r.entries := by
  have hothers := h.others hm (x := x)
  rw [h.split, mapEntry_append, mapEntry_append, h.entries]
  tauto

/-- The map with other entries for the number. -/
theorem RangeAt.mapEntry_replace (hm : InodeMapOk m) (h : RangeAt m inum pre mid r post)
    (hentries : ∀ e : Nat × Nat, e.1 ≠ inum → (e ∈ r'.entries ↔ e ∈ r.entries)) :
    MapEntry (pre ++ r' :: post) k x ↔
      if k = inum then (k, x) ∈ r'.entries else MapEntry m k x := by
  rw [mapEntry_append, mapEntry_cons]
  split_ifs with hk
  · subst hk
    have hothers := h.others hm (x := x)
    tauto
  · rw [h.split, mapEntry_append, mapEntry_append, hentries (k, x) hk, h.entries]
    tauto

theorem RangeAt.replace (hm : InodeMapOk m) (h : RangeAt m inum pre mid r post)
    (hstart : r'.start = r.start) (hstop : r'.stop = r.stop)
    (hkeys : r'.entries.Pairwise fun a b => a.1 < b.1)
    (hentries : ∀ e : Nat × Nat, e.1 ≠ inum → (e ∈ r'.entries ↔ e ∈ r.entries)) :
    InodeMapOk (pre ++ r' :: post) := by
  have hmem : ∀ {P : InodeMapRange → Prop}, (∀ a ∈ m, P a) → P r' → ∀ a ∈ pre ++ r' :: post, P a :=
    fun hold hnew => forall_mem_append.mpr ⟨fun a ha => hold a (h.of_mem (Or.inl ha)),
      forall_mem_cons.mpr ⟨hnew, fun a ha => hold a (h.of_mem (Or.inr ha))⟩⟩
  have halign := h.forall_range hm.start_aligned (blockRange_shape inum).1
  have hsize : r.stop = r.start + (targetImapSize - 1) := h.forall_range hm.stop_eq rfl
  refine ⟨hmem hm.start_aligned (by rwa [hstart]), hmem hm.stop_eq (by rw [hstart, hstop, hsize]),
    ?_, hmem hm.inside ?_, hmem hm.keys hkeys⟩
  · have hsorted := hm.sorted
    rw [h.split] at hsorted
    rcases pairwise_append.mp hsorted with ⟨hfront, hback, hcross⟩
    refine pairwise_append.mpr ⟨(pairwise_append.mp hfront).1, pairwise_cons.mpr ⟨?_, hback⟩, ?_⟩
    · intro a ha
      rw [hstart]
      exact lt_of_le_of_lt h.inside.1 (h.behind a ha)
    · refine fun a ha => forall_mem_cons.mpr ⟨?_, hcross a (mem_append_left _ ha)⟩
      have hlt := h.before a ha
      have hstopA := hm.stop_eq a (h.of_mem (Or.inl ha))
      have hinside := h.inside
      omega
  · intro e he
    rw [hstart, hstop]
    by_cases hk : e.1 = inum
    · rw [hk]
      exact h.inside
    · exact h.forall_range hm.inside (by simp [blockRange]) e ((hentries e hk).mp he)

end RangeAt

/-! ## What an insertion does -/

theorem newRange_eq {low high : Nat} (hlow : low ≤ (blockRange inum).start)
    (hhigh : (blockRange inum).stop ≤ high) : newRange low high inum = blockRange inum := by
  have hstart : max low (inum - inum % targetImapSize) = inum - inum % targetImapSize :=
    max_eq_right hlow
  have hsize : 0 < targetImapSize := by decide
  simp only [newRange, blockRange, hstart, InodeMapRange.mk.injEq, and_true, true_and]
  rw [Nat.add_sub_assoc hsize]
  exact min_eq_right hhigh

variable {pre post : InodeMap}

/-- The range that an insertion creates goes where its number belongs. -/
theorem RangeAt.insertRange_block (hm : InodeMapOk m)
    (h : RangeAt m inum pre [] (blockRange inum) post) (id : Nat) :
    insertRange m ((blockRange inum).enter inum id) =
      pre ++ (blockRange inum).enter inum id :: post := by
  have hbefore : ∀ r ∈ pre, startsUpTo (blockRange inum).start r = true := by
    intro r hr
    have hblock := hm.stop_lt_block (h.of_mem (Or.inl hr)) (h.before r hr)
    have hstop := hm.stop_eq r (h.of_mem (Or.inl hr))
    exact decide_eq_true (by omega)
  have hafter : ∀ r ∈ post, startsUpTo (blockRange inum).start r = false := by
    intro r hr
    have hlt := h.behind r hr
    have hle := h.inside.1
    exact decide_eq_false (by omega)
  rcases takeWhile_of_split hbefore hafter with ⟨htake, hdrop⟩
  unfold insertRange InodeMapRange.enter
  rw [h.split, append_nil, htake, hdrop]

variable {mid : InodeMap}

theorem RangeAt.le_boundBy (hm : InodeMapOk m) (h : RangeAt m inum pre mid r post)
    (hinum : inum < 2 ^ 64) {next : Option InodeMapRange} (hnext : ∀ r, next = some r → r ∈ post) :
    (blockRange inum).stop ≤ boundBy next := by
  cases next with
  | none => exact Nat.le_sub_one_of_lt ((blockRange_shape inum).2.2.2 hinum)
  | some r =>
    have hr := hnext r rfl
    exact Nat.le_sub_one_of_lt (hm.block_lt_start (h.of_mem (Or.inr hr)) (h.behind r hr))

/-- An insertion changes the range of the number, or creates a range between those
before and those behind the number. -/
theorem inodeMapInsert_cases (hm : InodeMapOk m) (hinum : inum < 2 ^ 64) (id : Nat) :
    ∃ pre mid r post, RangeAt m inum pre mid r post ∧
      inodeMapInsert m inum id = pre ++ r.enter inum id :: post := by
  rcases hm.locate inum with ⟨pre, mid, r, post, h, htake, hdrop⟩
  refine ⟨pre, mid, r, post, h, ?_⟩
  unfold inodeMapInsert
  dsimp only
  rw [htake, hdrop]
  rcases h.range with rfl | ⟨rfl, rfl⟩
  · rw [getLast?_concat]
    dsimp only
    rw [if_pos h.inside.2, dropLast_concat]
  · rw [append_nil]
    cases hlast : pre.getLast? with
    | none =>
      dsimp only
      rw [newRange_eq (Nat.zero_le _) (h.le_boundBy hm hinum ?_), h.insertRange_block hm]
      exact fun r hr => mem_of_mem_tail (mem_of_mem_head? hr)
    | some r =>
      have hr := mem_of_getLast? hlast
      have hlow := hm.stop_lt_block (h.of_mem (Or.inl hr)) (h.before r hr)
      dsimp only
      rw [if_neg (Nat.not_le_of_lt (h.before r hr)),
        newRange_eq ?_ (h.le_boundBy hm hinum fun r hr => mem_of_mem_head? hr),
        h.insertRange_block hm]
      split_ifs
      · exact Nat.zero_le _
      · exact hlow

theorem RangeAt.mem_enter (hm : InodeMapOk m) (h : RangeAt m inum pre mid r post) (id : Nat)
    {e : Nat × Nat} :
    e ∈ (r.enter inum id).entries ↔ e = (inum, id) ∨ (e ∈ r.entries ∧ e.1 ≠ inum) :=
  mem_setEntry (h.keys hm)

theorem RangeAt.enter_others (hm : InodeMapOk m) (h : RangeAt m inum pre mid r post) (id : Nat)
    (e : Nat × Nat) (he : e.1 ≠ inum) : e ∈ (r.enter inum id).entries ↔ e ∈ r.entries := by
  have hne : e ≠ (inum, id) := fun heq => he (by rw [heq])
  rw [h.mem_enter hm]
  tauto

/-- The entries after an insertion. -/
theorem mapEntry_inodeMapInsert (hm : InodeMapOk m) (hinum : inum < 2 ^ 64) (id : Nat) :
    MapEntry (inodeMapInsert m inum id) k x ↔
      (k = inum ∧ x = id) ∨ (k ≠ inum ∧ MapEntry m k x) := by
  rcases inodeMapInsert_cases hm hinum id with ⟨pre, mid, r, post, h, heq⟩
  rw [heq, h.mapEntry_replace hm (h.enter_others hm id), h.mem_enter hm]
  by_cases hk : k = inum
  · simp [hk]
  · simp [hk]

/-- A range whose section is current was not touched, and the range of the number has no
current section. -/
theorem serialized_inodeMapInsert (hm : InodeMapOk m) (hinum : inum < 2 ^ 64) (id : Nat) :
    (∀ r ∈ inodeMapInsert m inum id, r.serialized ≠ none → r ∈ m) ∧
      ∃ r ∈ inodeMapInsert m inum id, r.serialized = none := by
  rcases inodeMapInsert_cases hm hinum id with ⟨pre, mid, r, post, h, heq⟩
  rw [heq]
  constructor
  · intro r' hr' hcurrent
    rcases mem_append.mp hr' with hr' | hr'
    · exact h.of_mem (Or.inl hr')
    · rcases mem_cons.mp hr' with rfl | hr'
      · exact absurd rfl hcurrent
      · exact h.of_mem (Or.inr hr')
  · exact ⟨r.enter inum id, by simp, rfl⟩

theorem InodeMapOk.insert (hm : InodeMapOk m) (hinum : inum < 2 ^ 64) (id : Nat) :
    InodeMapOk (inodeMapInsert m inum id) := by
  rcases inodeMapInsert_cases hm hinum id with ⟨pre, mid, r, post, h, heq⟩
  rw [heq]
  exact h.replace hm rfl rfl (setEntry_sorted inum id (h.keys hm)) (h.enter_others hm id)

/-! ## Lookups -/

/-- The order in which `g_sequence_search` compares a number with an entry. -/
def keyUpTo (n : Nat) (entry : Nat × Nat) : Bool :=
  entry.1 ≤ n

/-- `bluesky_inode_map_lookup` with action 0. -/
def inodeMapLookup (m : InodeMap) (inum : Nat) : Option Nat :=
  match (m.takeWhile (startsUpTo inum)).getLast? with
  | some r =>
    if inum ≤ r.stop then
      match (r.entries.takeWhile (keyUpTo inum)).getLast? with
      | some entry => if entry.1 = inum then some entry.2 else none
      | none => none
    else none
  | none => none

/-- A lookup finds the entry of an inode. -/
theorem inodeMapLookup_of_mapEntry (hm : InodeMapOk m) (h : MapEntry m k x) :
    inodeMapLookup m k = some x := by
  rcases hm.locate k with ⟨pre, mid, r, post, hat, htake, -⟩
  have hx := (hat.mapEntry hm).mp h
  have hrange : (m.takeWhile (startsUpTo k)).getLast? = some r := by
    rcases hat.range with rfl | ⟨rfl, rfl⟩
    · rw [htake, getLast?_concat]
    · cases hx
  have hentry : (r.entries.takeWhile (keyUpTo k)).getLast? = some (k, x) := by
    rcases Sorted.split_of_mem (hat.keys hm) hx with ⟨pre, post, hsplit, hpre, hpost⟩
    rw [hsplit, takeWhile_concat_of_split, getLast?_concat]
    · exact fun e he => decide_eq_true (hpre e he).le
    · exact decide_eq_true le_rfl
    · exact fun e he => decide_eq_false (Nat.not_le_of_lt (hpost e he))
  unfold inodeMapLookup
  rw [hrange]
  dsimp only
  rw [if_pos hat.inside.2, hentry]
  dsimp only
  rw [if_pos rfl]

end BlueSky
