import BlueSky.File.Model

/-!
# Touching and writing blocks

The invariant of a regular file between two operations, and what touching a block
and the loop of `bluesky_file_write` do to it.

Main results:

- Theorem {lit}`touch_update`: a touched block has a buffer of its own, with the old
  contents where they are kept.
- Theorem {lit}`FileInv.writeBlock` and theorem {lit}`FileInv.writeLoop`: writing
  overwrites the cells it is asked to, and no others.
-/

namespace BlueSky

open List Option ByteLib ChunkLib

/-! ## Shape and contents of the block array -/

/-- A block whose fields agree with its type, and whose item holds its payload. -/
def Block.Ok (b : Block) : Prop :=
  match b.type with
  | .zero => b.ref = none ∧ b.dirty = none
  | .ref => b.dirty = none ∧ ∃ item, b.ref = some item ∧ ∀ d ∈ item.data, d = item.payload
  | .dirty => b.ref = none ∧ ∃ d, b.dirty = some d

/-- The data a block stands for; a hole has none. -/
def Block.content (b : Block) : Chunk Byte :=
  match b.type with
  | .zero => none
  | .ref => b.ref.map BlockItem.payload
  | .dirty => b.dirty

/-- The contents of the block array. -/
def FileInode.contents (inode : FileInode) : List (Chunk Byte) :=
  inode.blocks.map Block.content

/-- The invariant of a regular file between two operations. -/
structure FileInv (inode : FileInode) : Prop where
  regular : inode.type = .regular
  blocks_ok : ∀ b ∈ inode.blocks, b.Ok
  chunked : Chunked blockSize inode.size inode.contents

/-- A block with dirty data. -/
def Block.ofDirty (d : Bytes) : Block where
  type := .dirty
  ref := none
  dirty := some d

theorem Block.ok_fresh : Block.fresh.Ok :=
  ⟨rfl, rfl⟩

theorem Block.ok_ofDirty (d : Bytes) : (Block.ofDirty d).Ok :=
  ⟨rfl, d, rfl⟩

@[simp]
theorem Block.content_fresh : Block.fresh.content = none :=
  rfl

@[simp]
theorem Block.content_ofDirty (d : Bytes) : (Block.ofDirty d).content = some d :=
  rfl

variable {b : Block}

/-- Only holes have no contents. -/
theorem Block.Ok.content_eq_none_iff (h : b.Ok) : b.content = none ↔ b.type = .zero := by
  unfold Block.Ok at h
  unfold Block.content
  cases ht : b.type with
  | zero => simp
  | ref =>
    simp only [ht] at h
    obtain ⟨-, item, hitem, -⟩ := h
    simp [hitem]
  | dirty =>
    simp only [ht] at h
    obtain ⟨-, d, hd⟩ := h
    simp [hd]

variable {i : Nat}

theorem FileInode.getD_contents {inode : FileInode} (h : inode.blocks[i]? = some b) :
    inode.contents.getD i none = b.content := by
  simp [FileInode.contents, getD_eq_getElem?_getD, h]

/-- A fetch leaves the payload of an item in memory. -/
theorem BlockItem.fetch_data {item : BlockItem} (h : ∀ d ∈ item.data, d = item.payload) :
    item.fetch.data = some item.payload := by
  cases hd : item.data with
  | none => simp [BlockItem.fetch, hd]
  | some d =>
    have := h d (by simp [hd])
    simp [BlockItem.fetch, hd, this]

/-! ## Touching and updating a block -/

theorem touchData_preserve (h : b.Ok) (len : Nat) :
    touchData b len true = some (some (solid 0 len b.content)) := by
  unfold Block.Ok at h
  unfold touchData Block.content
  cases ht : b.type with
  | zero => simp [solid, zeros]
  | ref =>
    simp only [ht] at h
    obtain ⟨-, item, hitem, hdata⟩ := h
    simp [hitem, BlockItem.fetch_data hdata, solid]
  | dirty =>
    simp only [ht] at h
    obtain ⟨-, d, hd⟩ := h
    simp [hd, solid]

/-- Without {lit}`preserve`, the buffer has the length the block should have, and
nothing is said about its bytes. -/
theorem touchData_length (h : b.Ok) {len : Nat} (hlen : ∀ d, b.content = some d → d.length = len)
    (preserve : Bool) :
    ∃ d, touchData b len preserve = some (some d) ∧ d.length = len := by
  cases preserve with
  | true =>
    refine ⟨_, touchData_preserve h len, ?_⟩
    cases hc : b.content with
    | none => simp [solid]
    | some d => simpa [solid] using hlen d hc
  | false =>
    unfold touchData
    cases ht : b.type with
    | zero => exact ⟨_, rfl, by simp⟩
    | ref => exact ⟨_, rfl, by simp⟩
    | dirty =>
      unfold Block.Ok at h
      simp only [ht] at h
      obtain ⟨-, d, hd⟩ := h
      exact ⟨d, by simp [hd], hlen d (by simp [Block.content, ht, hd])⟩

/-- Whichever buffer the touch leaves, the bytes stored in it make the same chunk: the
old contents are dropped only where all of the block is overwritten. -/
theorem touchData_splice (h : b.Ok) {len : Nat} (hlen : ∀ d, b.content = some d → d.length = len)
    (pos : Nat) (bytes : Bytes) :
    ∃ d, touchData b len (!decide (pos = 0 ∧ bytes.length = len)) = some (some d) ∧
      d.length = len ∧ splice d pos bytes = splice (solid 0 len b.content) pos bytes := by
  obtain ⟨d, hdata, hdlen⟩ := touchData_length h hlen (!decide (pos = 0 ∧ bytes.length = len))
  refine ⟨d, hdata, hdlen, ?_⟩
  by_cases hwhole : pos = 0 ∧ bytes.length = len
  · have hsolid : (solid (0 : Byte) len b.content).length = len := by
      cases hc : b.content with
      | none => simp [solid]
      | some d => simpa [solid] using hlen d hc
    rw [hwhole.1, splice_whole (by omega), splice_whole (by omega)]
  · rw [decide_eq_false hwhole, Bool.not_false, touchData_preserve h len] at hdata
    rw [some.inj (some.inj hdata)]

/-- A context with the block array replaced. -/
def FileCtx.withBlocks (ctx : FileCtx) (cacheDirty : Int) (blocks : List Block) : FileCtx where
  cacheDirty := cacheDirty
  inode := { ctx.inode with blocks := blocks }

variable {ctx : FileCtx} {preserve : Bool} {d : Bytes}

theorem blockTouch_eq (hget : ctx.inode.blocks[i]? = some b)
    (hdata : touchData b (touchLen ctx.inode i) preserve = some (some d)) :
    blockTouch ctx i preserve = some (ctx.withBlocks
      (if b.type = .dirty then ctx.cacheDirty else ctx.cacheDirty + 1)
      (ctx.inode.blocks.set i (Block.ofDirty d))) := by
  simp [blockTouch, hget, hdata, FileCtx.withBlocks, Block.ofDirty]

theorem updateDirty_eq {d' : Bytes} {f : Bytes → Option Bytes}
    (hget : ctx.inode.blocks[i]? = some (Block.ofDirty d)) (hf : f d = some d') :
    updateDirty ctx i f = some (ctx.withBlocks ctx.cacheDirty
      (ctx.inode.blocks.set i (Block.ofDirty d'))) := by
  simp [updateDirty, hget, Block.ofDirty, hf, FileCtx.withBlocks]

/-- Touching a block and updating its buffer. -/
theorem touch_update {d' : Bytes} {f : Bytes → Option Bytes} (hget : ctx.inode.blocks[i]? = some b)
    (hdata : touchData b (touchLen ctx.inode i) preserve = some (some d)) (hf : f d = some d') :
    (blockTouch ctx i preserve).bind (fun ctx => updateDirty ctx i f) =
      some (ctx.withBlocks (if b.type = .dirty then ctx.cacheDirty else ctx.cacheDirty + 1)
        (ctx.inode.blocks.set i (Block.ofDirty d'))) := by
  have hi : i < ctx.inode.blocks.length := (List.getElem?_eq_some_iff.mp hget).1
  rw [blockTouch_eq hget hdata, bind_some, updateDirty_eq _ hf]
  · simp [FileCtx.withBlocks]
  · simp [FileCtx.withBlocks, hi]

theorem touch_store {pos : Nat} {bytes : Bytes} (hget : ctx.inode.blocks[i]? = some b)
    (hdata : touchData b (touchLen ctx.inode i) preserve = some (some d))
    (hfit : pos + bytes.length ≤ d.length) :
    (blockTouch ctx i preserve).bind (fun ctx => storeDirty ctx i pos bytes) =
      some (ctx.withBlocks (if b.type = .dirty then ctx.cacheDirty else ctx.cacheDirty + 1)
        (ctx.inode.blocks.set i (Block.ofDirty (splice d pos bytes)))) :=
  touch_update hget hdata (if_pos hfit)

theorem touch_resize {n : Nat} (hget : ctx.inode.blocks[i]? = some b) (hok : b.Ok)
    (hd : b.content = some d) :
    (blockTouch ctx i true).bind (fun ctx => resizeDirty ctx i n) =
      some (ctx.withBlocks (if b.type = .dirty then ctx.cacheDirty else ctx.cacheDirty + 1)
        (ctx.inode.blocks.set i (Block.ofDirty (fill 0 n d)))) := by
  have hdata := touchData_preserve hok (touchLen ctx.inode i)
  rw [hd] at hdata
  exact touch_update hget hdata rfl

theorem contents_set (ctx : FileCtx) (c : Int) (i : Nat) (b : Block) :
    (ctx.withBlocks c (ctx.inode.blocks.set i b)).inode.contents =
      ctx.inode.contents.set i b.content := by
  simp [FileCtx.withBlocks, FileInode.contents, map_set]

theorem ok_of_mem_set {blocks : List Block} (h : ∀ b ∈ blocks, b.Ok) {b' : Block} (hb' : b'.Ok) :
    ∀ b ∈ blocks.set i b', b.Ok := by
  intro b hb
  rcases mem_or_eq_of_mem_set hb with hold | rfl
  · exact h b hold
  · exact hb'

namespace FileInv

variable {ctx : FileCtx}

theorem length_blocks (h : FileInv ctx.inode) :
    ctx.inode.blocks.length = chunkCount blockSize ctx.inode.size := by
  have hcount := h.chunked.count
  rwa [FileInode.contents, length_map] at hcount

/-- The block that a position of the file falls into. -/
theorem block_at (h : FileInv ctx.inode) {offset : Nat} (hoff : offset < ctx.inode.size) :
    ∃ b, ctx.inode.blocks[offset / blockSize]? = some b ∧ b.Ok := by
  have hlt : offset / blockSize < ctx.inode.blocks.length := by
    rw [h.length_blocks]
    exact div_lt_chunkCount blockSize_pos hoff
  exact ⟨_, getElem?_eq_getElem hlt, h.blocks_ok _ (getElem_mem hlt)⟩

/-- The buffers `bluesky_block_touch` allocates have the length of their chunk. -/
theorem touchLen_eq (h : FileInv ctx.inode) {i : Nat} (hi : i < ctx.inode.blocks.length) :
    touchLen ctx.inode i = chunkLen blockSize ctx.inode.size i := by
  rw [touchLen]
  split_ifs with hlt
  · rw [chunkLen_of_lt blockSize_pos (by rw [← h.length_blocks]; omega)]
  · have hge : ¬ i + 1 < chunkCount blockSize ctx.inode.size := by
      rw [← h.length_blocks]
      omega
    rw [lt_chunkCount_iff blockSize_pos, Nat.add_mul, Nat.one_mul] at hge
    rw [chunkLen]
    omega

theorem content_length (h : FileInv ctx.inode) {i : Nat} {b : Block} {d : Bytes}
    (hget : ctx.inode.blocks[i]? = some b) (hd : b.content = some d) :
    d.length = chunkLen blockSize ctx.inode.size i := by
  apply h.chunked.len i
  simp [FileInode.contents, hget, hd]

/-! ## Writing -/

/-- One iteration of the write loop overwrites a part of one chunk. -/
theorem writeBlock (h : FileInv ctx.inode) {offset : Nat} {bytes : Bytes}
    (hpos : 0 < bytes.length) (hend : offset + bytes.length ≤ ctx.inode.size)
    (hfit : offset % blockSize + bytes.length ≤ blockSize) :
    ∃ c blocks, writeBlock ctx offset bytes = some (ctx.withBlocks c blocks) ∧
      FileInv (ctx.withBlocks c blocks).inode ∧
      (ctx.withBlocks c blocks).inode.contents =
        spliceChunk 0 blockSize ctx.inode.size ctx.inode.contents (offset / blockSize)
          (offset % blockSize) bytes := by
  obtain ⟨b, hget, hok⟩ := h.block_at (show offset < ctx.inode.size by omega)
  have hk : offset / blockSize < ctx.inode.blocks.length :=
    (List.getElem?_eq_some_iff.mp hget).1
  have hk' : offset / blockSize < ctx.inode.contents.length := by
    rwa [FileInode.contents, length_map]
  have hlen := h.touchLen_eq hk
  -- the part overwritten lies inside the chunk
  have hin : offset % blockSize + bytes.length ≤
      chunkLen blockSize ctx.inode.size (offset / blockSize) := by
    have hsplit := Nat.div_add_mod' offset blockSize
    rw [chunkLen]
    omega
  have hsize : (if offset / blockSize = ctx.inode.blocks.length - 1 then
      ctx.inode.size - offset / blockSize * blockSize else blockSize) =
      chunkLen blockSize ctx.inode.size (offset / blockSize) := by
    rw [← hlen, touchLen]
    split_ifs <;> omega
  obtain ⟨d, hdata, hdlen, hsplice⟩ := touchData_splice hok
    (fun d hd => h.content_length hget hd) (offset % blockSize) bytes
  rw [← FileInode.getD_contents hget] at hsplice
  have htouch : touchData b (touchLen ctx.inode (offset / blockSize))
      (!decide (offset % blockSize = 0 ∧
        bytes.length = chunkLen blockSize ctx.inode.size (offset / blockSize))) =
      some (some d) := by
    rw [hlen]
    exact hdata
  have hstep := touch_store hget htouch (hin.trans hdlen.ge)
  rw [hsplice] at hstep
  have hwrite : BlueSky.writeBlock ctx offset bytes =
      (blockTouch ctx (offset / blockSize) (!decide (offset % blockSize = 0 ∧
        bytes.length = chunkLen blockSize ctx.inode.size (offset / blockSize)))).bind
        fun ctx => storeDirty ctx (offset / blockSize) (offset % blockSize) bytes := by
    rw [BlueSky.writeBlock, hsize]
    rfl
  refine ⟨_, _, hwrite.trans hstep, ?_, ?_⟩
  · refine ⟨h.regular, ok_of_mem_set h.blocks_ok (Block.ok_ofDirty _), ?_⟩
    rw [contents_set]
    exact h.chunked.splice 0 hk' hin
  · rw [contents_set]
    rfl

/-- The write loop overwrites the cells it is asked to, and no others. -/
theorem writeLoop (fuel : Nat) {ctx : FileCtx} (h : FileInv ctx.inode) {offset : Nat}
    {data : Bytes} (hfuel : data.length ≤ fuel)
    (hend : offset + data.length ≤ ctx.inode.size) :
    ∃ c blocks, writeLoop fuel ctx offset data = some (ctx.withBlocks c blocks) ∧
      FileInv (ctx.withBlocks c blocks).inode ∧
      ∀ p, cellAt 0 blockSize (ctx.withBlocks c blocks).inode.contents p =
        if offset ≤ p ∧ p < offset + data.length then data.getD (p - offset) 0
        else cellAt 0 blockSize ctx.inode.contents p := by
  induction fuel generalizing ctx offset data with
  | zero =>
    have hnil : data.length = 0 := by omega
    refine ⟨ctx.cacheDirty, ctx.inode.blocks, rfl, h, ?_⟩
    intro p
    rw [if_neg (by omega)]
    rfl
  | succ fuel ih =>
    by_cases hnil : data.length = 0
    · refine ⟨ctx.cacheDirty, ctx.inode.blocks, ?_, h, ?_⟩
      · simp [BlueSky.writeLoop, hnil, FileCtx.withBlocks]
      · intro p
        rw [if_neg (by omega)]
        rfl
    · have hmod := Nat.mod_lt offset blockSize_pos
      generalize hbytes : min (blockSize - offset % blockSize) data.length = bytes
      have htake : (data.take bytes).length = bytes := by
        rw [length_take]
        omega
      obtain ⟨c, blocks, hstep, hinv, hcontents⟩ :=
        @FileInv.writeBlock ctx h offset (data.take bytes) (by omega) (by omega) (by omega)
      obtain ⟨c', blocks', hrest, hinv', hcells⟩ :=
        @ih _ hinv (offset + bytes) (data.drop bytes) (by rw [length_drop]; omega)
          (by rw [length_drop]; simp only [FileCtx.withBlocks]; omega)
      refine ⟨c', blocks', ?_, hinv', ?_⟩
      · simp only [BlueSky.writeLoop, hnil, if_false, hbytes, hstep, bind_eq_bind, bind_some, hrest]
        rfl
      · intro p
        have hcell := hcells p
        have hsplit := Nat.div_add_mod' offset blockSize
        have hk : offset / blockSize < ctx.inode.contents.length := by
          rw [h.chunked.count]
          exact div_lt_chunkCount blockSize_pos (by omega)
        have hin : offset % blockSize + (data.take bytes).length ≤
            chunkLen blockSize ctx.inode.size (offset / blockSize) := by
          rw [chunkLen]
          omega
        rw [hcontents, cellAt_spliceChunk 0 h.chunked blockSize_pos hk hin, htake,
          hsplit, length_drop] at hcell
        refine hcell.trans ?_
        simp only [getD_eq_getElem?_getD, getElem?_drop]
        by_cases hlate : offset + bytes ≤ p ∧ p < offset + bytes + (data.length - bytes)
        · rw [if_pos hlate, if_pos (by omega)]
          congr 2
          omega
        · rw [if_neg hlate]
          by_cases hnow : offset ≤ p ∧ p < offset + bytes
          · rw [if_pos hnow, if_pos (by omega), getElem?_take_of_lt (by omega)]
          · rw [if_neg hnow, if_neg (by omega)]

end FileInv

end BlueSky
