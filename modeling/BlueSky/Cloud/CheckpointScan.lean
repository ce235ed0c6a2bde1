import BlueSky.Cloud.SegmentCrypt
import BlueSky.Lib.Loop

/-!
# Scanning a segment for its checkpoint

`bluesky_checkpoint_load` decrypts the last segment of the cloud log and goes through its items to
find the last checkpoint.  The size of an item is added up in an `int` and compared with what is
left of the segment as an unsigned number of 64 bits.

Main results:

- Theorem {lit}`checkpointStep_eq`: a round of the loop goes on by the size of the header it comes
  to, if it goes on at all.
- Theorem {lit}`checkpointScan_dom_iff`: the loop ends if it comes to no header of size zero.
- Theorem {lit}`checkpointScan_inside`: what is selected lies inside the segment.
- Theorem {lit}`checkpointScan_items`: what is selected in a segment that consists of items.
- Theorem {lit}`checkpoint_scan`: when the scan is total, and when it finds the last checkpoint.
-/

namespace BlueSky

open List Option ByteLib LoopLib StateTransition

/-! ## The loop -/

/-- The variables of the loop; {lit}`offset` is `buf - last->data`. -/
structure CheckpointScan where
  offset : Nat
  len : Nat
  checkpoint : Option Nat
  checkpointSize : Nat
deriving DecidableEq, Repr

def CheckpointScan.start (data : Bytes) : CheckpointScan where
  offset := 0
  len := data.length
  checkpoint := none
  checkpointSize := 0

/-- Where the checkpoint selected is, and its size. -/
def CheckpointScan.selected (s : CheckpointScan) : Option (Nat × Nat) :=
  s.checkpoint.map fun offset => (offset, s.checkpointSize)

/-- The size of an item as it is added up in an `int`. -/
def CloudlogHeader.intSize (header : CloudlogHeader) : BitVec 32 :=
  BitVec.ofNat 32 cloudlogHeaderSize + header.size1 + header.size2 + header.size3

/-- The type of the item at the front of a buffer. -/
def IsCheckpoint (buf : Bytes) : Prop :=
  typeOfOctet (CloudlogHeader.ofBytes buf).type = LogType.checkpoint.code

instance (buf : Bytes) : Decidable (IsCheckpoint buf) :=
  inferInstanceAs (Decidable (_ = _))

/-- One round of the loop of `bluesky_checkpoint_load`, which is left at the end of the segment
and at entries that cannot be parsed or are too large. -/
def checkpointStep (data : Bytes) (s : CheckpointScan) : Option CheckpointScan :=
  if s.len ≤ cloudlogHeaderSize then none
  else
    let header := CloudlogHeader.ofBytes (data.drop s.offset)
    if header.magic ≠ cloudlogMagic then none
    else
      let size := header.intSize
      -- the comparison is between unsigned numbers of 64 bits
      if s.len < (size.signExtend 64).toNat then none
      else
        let s :=
          if IsCheckpoint (data.drop s.offset) then
            { s with checkpoint := some s.offset, checkpointSize := size.toNat }
          else s
        some { s with offset := s.offset + size.toNat, len := s.len - size.toNat }

/-! ## Arbitrary bytes -/

/-- By how much the loop goes on from an offset; nothing if it is left there. -/
def scanSize (data : Bytes) (offset : Nat) : Option Nat :=
  let header := CloudlogHeader.ofBytes (data.drop offset)
  if offset + cloudlogHeaderSize < data.length ∧ header.magic = cloudlogMagic ∧
      (header.intSize.signExtend 64).toNat ≤ data.length - offset then
    some header.intSize.toNat
  else none

/-- The offset that the loop comes to next. -/
def scanNext (data : Bytes) (offset : Nat) : Option Nat :=
  (scanSize data offset).map (offset + ·)

/-- The variables when the loop has gone on by a size. -/
def CheckpointScan.advance (data : Bytes) (s : CheckpointScan) (size : Nat) : CheckpointScan where
  offset := s.offset + size
  len := s.len - size
  checkpoint := if IsCheckpoint (data.drop s.offset) then some s.offset else s.checkpoint
  checkpointSize := if IsCheckpoint (data.drop s.offset) then size else s.checkpointSize

section Arbitrary

variable {data : Bytes} {s t : CheckpointScan} {offset size : Nat}

/-- The variables belong to the segment: what is left of it, and a checkpoint inside it. -/
structure CheckpointScan.Inv (data : Bytes) (s : CheckpointScan) : Prop where
  left : s.offset + s.len = data.length
  inside : ∀ o ∈ s.checkpoint, o + s.checkpointSize ≤ data.length

theorem CheckpointScan.inv_start (data : Bytes) : (CheckpointScan.start data).Inv data where
  left := Nat.zero_add _
  inside := nofun

/-- A negative size becomes a huge number in the comparison. -/
theorem toNat_signExtend_int (x : BitVec 32) :
    (x.signExtend 64).toNat =
      if x.toNat < 2 ^ 31 then x.toNat else x.toNat + (2 ^ 64 - 2 ^ 32) := by
  have hlt := x.isLt
  rw [BitVec.toNat_signExtend, BitVec.msb_eq_decide, BitVec.toNat_setWidth,
    Nat.mod_eq_of_lt (by omega)]
  simp only [decide_eq_true_eq]
  split_ifs <;> omega

theorem scanSize_le (h : scanSize data offset = some size) :
    size ≤ data.length - offset ∧ 0 < data.length - offset := by
  rw [scanSize] at h
  split_ifs at h with hgoes
  rw [← some_inj.mp h]
  have hsize := hgoes.2.2
  rw [toNat_signExtend_int] at hsize
  constructor
  · split_ifs at hsize
    · exact hsize
    · omega
  · have hlen := hgoes.1
    omega

/-- A round goes on by the size of the header that it comes to, or the loop is left. -/
theorem checkpointStep_eq (h : s.offset + s.len = data.length) :
    checkpointStep data s = (scanSize data s.offset).map (s.advance data) := by
  have hlen : data.length - s.offset = s.len := by omega
  rw [checkpointStep, scanSize, hlen]
  by_cases hend : s.len ≤ cloudlogHeaderSize
  · rw [if_pos hend, if_neg (by omega), map_none]
  rw [if_neg hend]
  dsimp only
  by_cases hmagic : (CloudlogHeader.ofBytes (data.drop s.offset)).magic = cloudlogMagic
  · rw [if_neg (not_not.mpr hmagic)]
    by_cases hsize : s.len < ((CloudlogHeader.ofBytes (data.drop s.offset)).intSize.signExtend
        64).toNat
    · rw [if_pos hsize, if_neg (by omega), map_none]
    · have hgoes : s.offset + cloudlogHeaderSize < data.length ∧
          (CloudlogHeader.ofBytes (data.drop s.offset)).magic = cloudlogMagic ∧
          ((CloudlogHeader.ofBytes (data.drop s.offset)).intSize.signExtend 64).toNat ≤ s.len :=
        ⟨by omega, hmagic, by omega⟩
      rw [if_neg hsize, if_pos hgoes, map_some, CheckpointScan.advance]
      split_ifs
      · rfl
      · rfl
  · rw [if_pos hmagic, if_neg (fun hgoes => hmagic hgoes.2.1), map_none]

theorem CheckpointScan.Inv.step (h : s.Inv data) (hstep : t ∈ checkpointStep data s) :
    t.Inv data ∧ t.offset ∈ scanNext data s.offset := by
  rw [checkpointStep_eq h.left] at hstep
  rcases map_eq_some_iff.mp hstep with ⟨size, hsize, rfl⟩
  have hleft := h.left
  have hle := (scanSize_le hsize).1
  refine ⟨⟨?_, ?_⟩, ?_⟩
  · rw [advance]
    dsimp only
    omega
  · intro o ho
    rw [advance] at ho ⊢
    dsimp only at ho ⊢
    split_ifs at ho ⊢
    · rw [← some_inj.mp ho]
      omega
    · exact h.inside o ho
  · rw [scanNext, hsize]
    rfl

/-- The offsets that the loop comes to depend on the segment only. -/
theorem CheckpointScan.Inv.reaches
    (h : StateTransition.Reaches (checkpointStep data) (CheckpointScan.start data) s) :
    s.Inv data ∧ StateTransition.Reaches (scanNext data) 0 s.offset := by
  have hstart : (CheckpointScan.start data).Inv data ∧
      StateTransition.Reaches (scanNext data) 0 (CheckpointScan.start data).offset :=
    ⟨CheckpointScan.inv_start data, .refl⟩
  refine reaches_invariant
    (I := fun s : CheckpointScan =>
      s.Inv data ∧ StateTransition.Reaches (scanNext data) 0 s.offset) ?_ h hstart
  rintro b c ⟨hb, hreach⟩ hc
  rcases hb.step hc with ⟨hc', hnext⟩
  exact ⟨hc', hreach.tail hnext⟩

theorem exists_reaches_of_scanNext (h : StateTransition.Reaches (scanNext data) 0 offset) :
    ∃ s, StateTransition.Reaches (checkpointStep data) (CheckpointScan.start data) s ∧
      s.offset = offset := by
  induction h with
  | refl => exact ⟨CheckpointScan.start data, .refl, rfl⟩
  | tail _ hnext ih =>
    rcases ih with ⟨s, hreach, rfl⟩
    rcases map_eq_some_iff.mp hnext with ⟨size, hsize, rfl⟩
    have hleft := (CheckpointScan.Inv.reaches hreach).1.left
    refine ⟨s.advance data size, hreach.tail ?_, rfl⟩
    rw [checkpointStep_eq hleft, hsize]
    rfl

/-- The loop ends exactly if no header that it comes to has the size zero. -/
theorem checkpointScan_dom_iff (data : Bytes) :
    (eval (checkpointStep data) (CheckpointScan.start data)).Dom ↔
      ∀ offset, StateTransition.Reaches (scanNext data) 0 offset →
        scanSize data offset ≠ some 0 := by
  constructor
  · intro hdom offset hreach hzero
    rcases exists_reaches_of_scanNext hreach with ⟨s, hs, rfl⟩
    rw [reaches_eval hs] at hdom
    refine not_dom_of_invariant
      (I := fun t => t.offset = s.offset ∧ t.offset + t.len = data.length) ?_
      ⟨rfl, (CheckpointScan.Inv.reaches hs).1.left⟩ hdom
    rintro t ⟨hoffset, hleft⟩
    refine ⟨t.advance data 0, ?_, hoffset, hleft⟩
    rw [checkpointStep_eq hleft, hoffset, hzero]
    rfl
  · intro hsizes
    refine dom_of_measure CheckpointScan.len ?_
    intro s t hs ht
    rcases CheckpointScan.Inv.reaches hs with ⟨hinv, hreach⟩
    have hleft := hinv.left
    rw [checkpointStep_eq hleft] at ht
    rcases map_eq_some_iff.mp ht with ⟨size, hsize, rfl⟩
    have hne := hsizes s.offset hreach
    have hpos : size ≠ 0 := by
      rintro rfl
      exact hne hsize
    have hle := scanSize_le hsize
    rw [CheckpointScan.advance]
    dsimp only
    omega

/-- What is selected lies inside the segment. -/
theorem checkpointScan_inside (h : s ∈ eval (checkpointStep data) (CheckpointScan.start data))
    (ho : s.checkpoint = some offset) : offset + s.checkpointSize ≤ data.length :=
  (CheckpointScan.Inv.reaches (mem_eval.mp h).1).1.inside offset ho

end Arbitrary

/-! ## Segments that consist of items -/

/-- A decrypted item, of a size that fits the 32 bits which a location has for it. -/
structure WellFormedItem (block : Bytes) : Prop where
  isItem : IsItem block
  magic : (CloudlogHeader.ofBytes block).magic = cloudlogMagic
  size_lt : block.length < 2 ^ 32

/-- Where the last checkpoint of some items is, and its size; the items begin at an offset. -/
def lastCheckpointItem : Nat → List Bytes → Option (Nat × Nat)
  | _, [] => none
  | offset, block :: blocks =>
    (lastCheckpointItem (offset + block.length) blocks).or
      (if IsCheckpoint block then some (offset, block.length) else none)

/-- The items that the loop goes through: it is left at an item whose size is negative as an
`int`, and before a header at the end of the segment. -/
def scannedItems : List Bytes → List Bytes
  | [] => []
  | block :: blocks =>
    if 2 ^ 31 ≤ block.length ∨ (block :: blocks).flatten.length ≤ cloudlogHeaderSize then []
    else block :: scannedItems blocks

section Items

variable {data block : Bytes} {blocks pre post : List Bytes} {s : CheckpointScan} {offset : Nat}

theorem WellFormedItem.intSize (h : WellFormedItem block) :
    (CloudlogHeader.ofBytes block).intSize.toNat = block.length := by
  have hsize := h.isItem
  have hlt := h.size_lt
  rw [IsItem, CloudlogHeader.itemSize] at hsize
  rw [CloudlogHeader.intSize, BitVec.toNat_add, BitVec.toNat_add, BitVec.toNat_add,
    BitVec.toNat_ofNat]
  rw [cloudlogHeaderSize] at hsize ⊢
  omega

/-- By how much the loop goes on from the beginning of an item. -/
theorem scanSize_item {front rest : Bytes} (hblock : WellFormedItem block)
    (hlength : (front ++ (block ++ rest)).length < 2 ^ 63) :
    scanSize (front ++ (block ++ rest)) front.length =
      if 2 ^ 31 ≤ block.length ∨ (block ++ rest).length ≤ cloudlogHeaderSize then none
      else some block.length := by
  have hheader := hblock.isItem.headerSize_le
  have hlt := hblock.size_lt
  rw [scanSize, drop_left, CloudlogHeader.ofBytes_append_right rest hheader,
    toNat_signExtend_int, hblock.intSize]
  rw [length_append, length_append] at *
  by_cases hstop : 2 ^ 31 ≤ block.length ∨ block.length + rest.length ≤ cloudlogHeaderSize
  · rw [if_pos hstop, if_neg]
    rintro ⟨hlong, -, hsize⟩
    split_ifs at hsize <;> omega
  · rw [if_neg hstop, if_pos]
    refine ⟨by omega, hblock.magic, ?_⟩
    rw [if_pos (by omega)]
    omega

theorem CheckpointScan.selected_advance (data : Bytes) (s : CheckpointScan) (size : Nat) :
    (s.advance data size).selected =
      (if IsCheckpoint (data.drop s.offset) then some (s.offset, size) else none).or
        s.selected := by
  rw [selected, advance]
  split_ifs
  · rfl
  · rfl

/-- The loop ends, and what it has selected is the last checkpoint of the items it has gone
through, or what was selected before. -/
theorem checkpointScan_items (hblocks : ∀ block ∈ blocks, WellFormedItem block) {front : Bytes}
    (hdata : data = front ++ blocks.flatten) (hlength : data.length < 2 ^ 63)
    (hoffset : s.offset = front.length) (hlen : s.len = blocks.flatten.length) :
    ∃ t ∈ eval (checkpointStep data) s,
      t.selected = (lastCheckpointItem s.offset (scannedItems blocks)).or s.selected := by
  have hleft : s.offset + s.len = data.length := by
    rw [hoffset, hlen, hdata, length_append]
  induction blocks generalizing s front with
  | nil =>
    refine ⟨s, mem_eval.mpr ⟨.refl, ?_⟩, rfl⟩
    rw [checkpointStep, if_pos]
    rw [hlen]
    exact Nat.zero_le _
  | cons block blocks ih =>
    have hblock := hblocks block mem_cons_self
    have hsize : scanSize data s.offset = if 2 ^ 31 ≤ block.length ∨
        (block :: blocks).flatten.length ≤ cloudlogHeaderSize then none
        else some block.length := by
      rw [hdata, flatten_cons] at hlength
      rw [hdata, hoffset, flatten_cons]
      exact scanSize_item hblock hlength
    rw [scannedItems]
    by_cases hstop : 2 ^ 31 ≤ block.length ∨ (block :: blocks).flatten.length ≤ cloudlogHeaderSize
    · rw [if_pos hstop] at hsize ⊢
      refine ⟨s, mem_eval.mpr ⟨.refl, ?_⟩, rfl⟩
      rw [checkpointStep_eq hleft, hsize, map_none]
    · rw [if_neg hstop] at hsize ⊢
      have hstep : s.advance data block.length ∈ checkpointStep data s := by
        rw [checkpointStep_eq hleft, hsize, map_some]
        exact mem_some_self _
      have hnext : (s.advance data block.length).offset = (front ++ block).length := by
        rw [CheckpointScan.advance, length_append, hoffset]
      have hrest : (s.advance data block.length).len = blocks.flatten.length := by
        rw [CheckpointScan.advance, hlen, flatten_cons, length_append]
        exact Nat.add_sub_cancel_left _ _
      have htype : IsCheckpoint (data.drop s.offset) ↔ IsCheckpoint block := by
        rw [IsCheckpoint, IsCheckpoint, hdata, hoffset, drop_left, flatten_cons,
          CloudlogHeader.ofBytes_append_right _ hblock.isItem.headerSize_le]
      rcases ih (fun b hb => hblocks b (mem_cons_of_mem _ hb))
        (by rw [hdata, flatten_cons, append_assoc]) hnext hrest
        (by rw [hnext, hrest, hdata, length_append, length_append,
          flatten_cons, length_append, Nat.add_assoc]) with ⟨t, ht, hselected⟩
      refine ⟨t, ?_, ?_⟩
      · rw [reaches_eval (.single hstep)]
        exact ht
      · rw [hselected, CheckpointScan.selected_advance, lastCheckpointItem, Option.or_assoc]
        simp only [htype]
        rfl

/-- A checkpoint that is found lies among the items. -/
theorem lastCheckpointItem_bounds {o n : Nat} (hblocks : ∀ block ∈ blocks, WellFormedItem block)
    (h : lastCheckpointItem offset blocks = some (o, n)) :
    0 < n ∧ o + n ≤ offset + blocks.flatten.length := by
  induction blocks generalizing offset with
  | nil => cases h
  | cons block blocks ih =>
    rw [lastCheckpointItem, or_eq_some_iff] at h
    rw [flatten_cons, length_append]
    rcases h with hlater | ⟨-, hfirst⟩
    · have hbounds := ih (fun b hb => hblocks b (mem_cons_of_mem _ hb)) hlater
      omega
    · split_ifs at hfirst
      rw [some_inj, Prod.mk.injEq] at hfirst
      have hheader := (hblocks block mem_cons_self).isItem.headerSize_le
      rw [cloudlogHeaderSize] at hheader
      omega

theorem lastCheckpointItem_eq_none (h : ∀ block ∈ blocks, ¬ IsCheckpoint block) :
    lastCheckpointItem offset blocks = none := by
  induction blocks generalizing offset with
  | nil => rfl
  | cons block blocks ih =>
    rw [lastCheckpointItem, ih fun b hb => h b (mem_cons_of_mem _ hb),
      if_neg (h block mem_cons_self)]
    rfl

/-- The last checkpoint is the one behind which there is none. -/
theorem lastCheckpointItem_append (hblock : IsCheckpoint block)
    (hpost : ∀ b ∈ post, ¬ IsCheckpoint b) :
    lastCheckpointItem offset (pre ++ block :: post) =
      some (offset + pre.flatten.length, block.length) := by
  induction pre generalizing offset with
  | nil =>
    rw [nil_append, lastCheckpointItem, lastCheckpointItem_eq_none hpost, if_pos hblock]
    rfl
  | cons first pre ih =>
    rw [cons_append, lastCheckpointItem, ih, flatten_cons, length_append, Nat.add_assoc]
    rfl

theorem scannedItems_sublist (blocks : List Bytes) : (scannedItems blocks).Sublist blocks := by
  induction blocks with
  | nil => exact List.Sublist.refl _
  | cons block blocks ih =>
    rw [scannedItems]
    split_ifs
    · exact nil_sublist _
    · exact ih.cons_cons block

/-- The loop goes through the items before some item if they are not too large. -/
theorem scannedItems_append (hblocks : ∀ b ∈ pre ++ block :: post, WellFormedItem b)
    (hsmall : ∀ b ∈ pre, b.length < 2 ^ 31) :
    scannedItems (pre ++ block :: post) = pre ++ scannedItems (block :: post) := by
  induction pre with
  | nil => rfl
  | cons first pre ih =>
    have hfirst := (hblocks first mem_cons_self).isItem.headerSize_le
    have hblock := (hblocks block (by simp)).isItem.headerSize_le
    have hgoes : ¬ (2 ^ 31 ≤ first.length ∨
        (first :: (pre ++ block :: post)).flatten.length ≤ cloudlogHeaderSize) := by
      rw [not_or]
      refine ⟨Nat.not_le.mpr (hsmall first mem_cons_self), ?_⟩
      rw [cloudlogHeaderSize] at *
      simp only [flatten_cons, flatten_append, length_append]
      omega
    rw [cons_append, scannedItems, if_neg hgoes,
      ih (fun b hb => hblocks b (mem_cons_of_mem _ hb)) fun b hb => hsmall b (mem_cons_of_mem _ hb)]
    rfl

/-- The loop goes no further than an item that is too large. -/
theorem scannedItems_stops (h : ∃ b ∈ pre, 2 ^ 31 ≤ b.length) :
    (scannedItems (pre ++ post)).Sublist pre := by
  induction pre with
  | nil =>
    rcases h with ⟨b, hb, -⟩
    cases hb
  | cons first pre ih =>
    rw [cons_append, scannedItems]
    split_ifs with hstop
    · exact nil_sublist _
    · refine (ih ?_).cons_cons first
      rcases h with ⟨b, hb, hlong⟩
      rcases mem_cons.mp hb with rfl | hb
      · exact absurd (Or.inl hlong) hstop
      · exact ⟨b, hb, hlong⟩

/-- The last checkpoint is selected exactly if it and all items before it are smaller than two
gigabytes, and it is not a mere header at the end of the segment. -/
theorem checkpointScan_selects_iff (hblocks : ∀ b ∈ pre ++ block :: post, WellFormedItem b)
    (hlength : (pre ++ block :: post).flatten.length < 2 ^ 63) (hblock : IsCheckpoint block)
    (hpost : ∀ b ∈ post, ¬ IsCheckpoint b) :
    (∃ t ∈ eval (checkpointStep (pre ++ block :: post).flatten)
        (CheckpointScan.start (pre ++ block :: post).flatten),
      t.selected = some (pre.flatten.length, block.length)) ↔
      (∀ b ∈ pre ++ [block], b.length < 2 ^ 31) ∧
        (post = [] → block.length ≠ cloudlogHeaderSize) := by
  rcases @checkpointScan_items (pre ++ block :: post).flatten (pre ++ block :: post)
    (CheckpointScan.start (pre ++ block :: post).flatten) hblocks [] rfl hlength rfl rfl with
    ⟨t, ht, hselected⟩
  change t.selected = (lastCheckpointItem 0 (scannedItems (pre ++ block :: post))).or none
    at hselected
  rw [or_none] at hselected
  have hunique : (∃ t ∈ eval (checkpointStep (pre ++ block :: post).flatten)
        (CheckpointScan.start (pre ++ block :: post).flatten),
      t.selected = some (pre.flatten.length, block.length)) ↔
      lastCheckpointItem 0 (scannedItems (pre ++ block :: post)) =
        some (pre.flatten.length, block.length) := by
    rw [← hselected]
    constructor
    · rintro ⟨t', ht', heq⟩
      rw [Part.mem_unique ht ht']
      exact heq
    · exact fun heq => ⟨t, ht, heq⟩
  rw [hunique]
  have hbefore : (scannedItems (pre ++ block :: post)).Sublist pre →
      lastCheckpointItem 0 (scannedItems (pre ++ block :: post)) ≠
        some (pre.flatten.length, block.length) := by
    intro hsub hfound
    have hscanned := fun b hb => hblocks b ((scannedItems_sublist _).subset hb)
    have hbounds := lastCheckpointItem_bounds hscanned hfound
    have hle := hsub.flatten.length_le
    omega
  constructor
  · intro hfound
    have hpre : ∀ b ∈ pre, b.length < 2 ^ 31 := by
      intro b hb
      by_contra hlong
      exact hbefore (scannedItems_stops ⟨b, hb, Nat.not_lt.mp hlong⟩) hfound
    have hgoes : ¬ (2 ^ 31 ≤ block.length ∨
        (block :: post).flatten.length ≤ cloudlogHeaderSize) := by
      intro hstop
      refine hbefore ?_ hfound
      rw [scannedItems_append hblocks hpre, scannedItems, if_pos hstop, append_nil]
    rw [not_or] at hgoes
    constructor
    · intro b hb
      rcases mem_append.mp hb with hb | hb
      · exact hpre b hb
      · rw [mem_singleton.mp hb]
        exact Nat.not_le.mp hgoes.1
    · rintro rfl hbare
      rw [flatten_singleton, hbare] at hgoes
      exact hgoes.2 le_rfl
  · rintro ⟨hsmall, hbare⟩
    have hgoes : ¬ (2 ^ 31 ≤ block.length ∨
        (block :: post).flatten.length ≤ cloudlogHeaderSize) := by
      have hlt := hsmall block (by simp)
      have hheader := (hblocks block (by simp)).isItem.headerSize_le
      rw [not_or, flatten_cons, length_append]
      refine ⟨Nat.not_le.mpr hlt, ?_⟩
      cases post with
      | nil =>
        have hne := hbare rfl
        rw [flatten_nil, length_nil]
        omega
      | cons next post =>
        have hnext := (hblocks next (by simp)).isItem.headerSize_le
        rw [flatten_cons, length_append]
        rw [cloudlogHeaderSize] at *
        omega
    have hpre : ∀ b ∈ pre, b.length < 2 ^ 31 := fun b hb => hsmall b (mem_append_left _ hb)
    rw [scannedItems_append hblocks hpre, scannedItems, if_neg hgoes,
      lastCheckpointItem_append hblock fun b hb => hpost b ((scannedItems_sublist _).subset hb),
      Nat.zero_add]

end Items

/-- For any bytes, the loop ends exactly if it comes to no header whose size is zero in 32 bits,
and what it selects lies inside the segment.  If the bytes are those of decrypted items, the last
checkpoint is selected, with its offset and size, exactly if it and the items before it are
smaller than two gigabytes and it is not a mere header at the end of the segment. -/
theorem checkpoint_scan (data : Bytes) :
    (((eval (checkpointStep data) (CheckpointScan.start data)).Dom ↔
        ∀ offset, StateTransition.Reaches (scanNext data) 0 offset →
          scanSize data offset ≠ some 0) ∧
      ∀ s ∈ eval (checkpointStep data) (CheckpointScan.start data), ∀ offset,
        s.checkpoint = some offset → offset + s.checkpointSize ≤ data.length) ∧
    ∀ (pre : List Bytes) (block : Bytes) (post : List Bytes),
      (∀ b ∈ pre ++ block :: post, WellFormedItem b) →
      (pre ++ block :: post).flatten.length < 2 ^ 63 → IsCheckpoint block →
      (∀ b ∈ post, ¬ IsCheckpoint b) →
      ((∃ s ∈ eval (checkpointStep (pre ++ block :: post).flatten)
          (CheckpointScan.start (pre ++ block :: post).flatten),
        s.selected = some (pre.flatten.length, block.length)) ↔
        (∀ b ∈ pre ++ [block], b.length < 2 ^ 31) ∧
          (post = [] → block.length ≠ cloudlogHeaderSize)) :=
  ⟨⟨checkpointScan_dom_iff data, fun _ hs _ ho => checkpointScan_inside hs ho⟩,
    fun _ _ _ hblocks hlength hblock hpost =>
      checkpointScan_selects_iff hblocks hlength hblock hpost⟩

/-- A decrypted item of a type, with some data and no links. -/
def plainItem (type : LogType) (data : Bytes) : Bytes :=
  (⟨cloudlogMagic, 0, 0, type.octet, 9, 0, BitVec.ofNat 32 data.length, 0, 0⟩ :
    CloudlogHeader).toBytes ++ data

theorem checkpoint_scan_found :
    ∃ s ∈ eval (checkpointStep (plainItem .data [1] ++ plainItem .checkpoint [2, 3]))
        (CheckpointScan.start (plainItem .data [1] ++ plainItem .checkpoint [2, 3])),
      s.selected = some (90, 91) := by
  have hwellFormed : ∀ b ∈ [plainItem .data [1]] ++ plainItem .checkpoint [2, 3] :: [],
      WellFormedItem b := by
    intro b hb
    rcases mem_cons.mp hb with rfl | hb
    · exact ⟨by unfold IsItem; decide +kernel, by decide +kernel, by decide +kernel⟩
    · rw [mem_singleton.mp hb]
      exact ⟨by unfold IsItem; decide +kernel, by decide +kernel, by decide +kernel⟩
  have hsmall : ∀ b ∈ [plainItem .data [1]] ++ [plainItem .checkpoint [2, 3]],
      b.length < 2 ^ 31 := by
    decide +kernel
  exact ((checkpoint_scan []).2 [plainItem .data [1]] (plainItem .checkpoint [2, 3]) [] hwellFormed
    (by decide +kernel) (by decide +kernel) nofun).mpr ⟨hsmall, fun _ => by decide +kernel⟩

/-- A segment of one entry, whose size is zero in 32 bits. -/
def stuckSegment : Bytes :=
  (⟨cloudlogMagic, 0, 0, LogType.data.octet, 9, 0, BitVec.ofNat 32 (2 ^ 32 - 89), 0, 0⟩ :
    CloudlogHeader).toBytes ++ [0]

/-- Decryption leaves the segment as it is, and the loop does not end; and a checkpoint that is a
mere header at the end of a segment is not selected. -/
theorem checkpoint_scan_stuck :
    (toyCrypt.cloudlogDecrypt false stuckSegment = some (stuckSegment, ⟨[], []⟩) ∧
      ¬ (eval (checkpointStep stuckSegment) (CheckpointScan.start stuckSegment)).Dom) ∧
    ∀ s ∈ eval (checkpointStep (plainItem .checkpoint []))
        (CheckpointScan.start (plainItem .checkpoint [])), s.selected = none := by
  refine ⟨⟨by decide +kernel, ?_⟩, ?_⟩
  · rw [checkpointScan_dom_iff]
    intro hsizes
    exact hsizes 0 .refl (by decide +kernel)
  · intro s hs
    rcases mem_eval.mp hs with ⟨hreach, -⟩
    have hend : checkpointStep (plainItem .checkpoint [])
        (CheckpointScan.start (plainItem .checkpoint [])) = none := by
      decide +kernel
    rcases Relation.ReflTransGen.cases_head hreach with rfl | ⟨t, ht, -⟩
    · rfl
    · rw [hend] at ht
      cases ht

end BlueSky
