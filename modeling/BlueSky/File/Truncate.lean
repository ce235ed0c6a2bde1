import BlueSky.File.Blocks

/-!
# Changing the size of a file

`bluesky_file_truncate` sets the number of blocks, extends the old last block if
blocks are added, and gives the new last block its size.  Taken together these
steps change the size of the chunked array.

Main results:

- Theorem {lit}`FileInv.adjustBlocks`: setting the number of blocks.
- Theorem {lit}`FileInv.resizeLast`: sizing the last block completes the change.
- Theorem {lit}`FileInv.truncate`: the operation as a whole.
-/

namespace BlueSky

open List ByteLib ChunkLib

namespace FileInv

variable {ctx : FileCtx}

/-- The last chunk of a file that is not empty. -/
theorem lastBlockLen_eq {size : Nat} (h : 0 < size) :
    lastBlockLen size = chunkLen blockSize size (chunkCount blockSize size - 1) := by
  rw [lastBlockLen]
  by_cases hmod : size % blockSize = 0
  · rw [if_pos ⟨hmod, h⟩]
    simp only [chunkLen, chunkCount, blockSize] at *
    omega
  · rw [if_neg (fun hand => hmod hand.1)]
    simp only [chunkLen, chunkCount, blockSize] at *
    omega

/-- Extending the last block leaves every block full. -/
theorem extendLast (h : FileInv ctx.inode) :
    ∃ c blocks, extendLast ctx = some (ctx.withBlocks c blocks) ∧
      (∀ b ∈ blocks, b.Ok) ∧ blocks.length = ctx.inode.blocks.length ∧
      ∀ i, (blocks.map Block.content).getD i none =
        (ctx.inode.contents.getD i none).map (fill 0 blockSize) := by
  have hlen := h.length_blocks
  -- all blocks but the last are full already
  have hfull : ∀ i, i ≠ ctx.inode.blocks.length - 1 →
      (ctx.inode.contents.getD i none).map (fill 0 blockSize) = ctx.inode.contents.getD i none := by
    intro i hi
    apply h.chunked.map_fill
    intro hlt
    rw [h.chunked.count] at hlt
    exact (chunkLen_of_lt blockSize_pos (by omega)).symm
  rw [BlueSky.extendLast]
  cases hget : ctx.inode.blocks[ctx.inode.blocks.length - 1]? with
  | none =>
    have hempty : ctx.inode.blocks.length = 0 := by
      have := List.getElem?_eq_none_iff.mp hget
      omega
    refine ⟨ctx.cacheDirty, ctx.inode.blocks, rfl, h.blocks_ok, rfl, ?_⟩
    intro i
    have hnil : ctx.inode.blocks = [] := eq_nil_of_length_eq_zero hempty
    simp [FileInode.contents, hnil]
  | some b =>
    obtain ⟨hlt, hb⟩ := List.getElem?_eq_some_iff.mp hget
    have hok : b.Ok := hb ▸ h.blocks_ok _ (getElem_mem hlt)
    have hcontent := FileInode.getD_contents hget
    by_cases hext : b.type ≠ .zero ∧ lastBlockLen ctx.inode.size < blockSize
    · obtain ⟨d, hd⟩ : ∃ d, b.content = some d := by
        cases hc : b.content with
        | none => exact absurd (hok.content_eq_none_iff.mp hc) hext.1
        | some d => exact ⟨d, rfl⟩
      refine ⟨_, _, (if_pos hext).trans (touch_resize hget hok hd),
        ok_of_mem_set h.blocks_ok (Block.ok_ofDirty _), by simp, ?_⟩
      intro i
      by_cases hi : i = ctx.inode.blocks.length - 1
      · rw [hi, hcontent, hd]
        simp [hlt]
      · rw [hfull i hi, FileInode.contents]
        simp [getD_eq_getElem?_getD, getElem?_set_ne (Ne.symm hi)]
    · refine ⟨ctx.cacheDirty, ctx.inode.blocks, if_neg hext, h.blocks_ok, rfl, ?_⟩
      intro i
      by_cases hi : i = ctx.inode.blocks.length - 1
      · change ctx.inode.contents.getD i none = _
        -- the last block is a hole or has its full length
        by_cases hzero : b.type = .zero
        · rw [hi, hcontent, hok.content_eq_none_iff.mpr hzero]
          rfl
        · have hsize : 0 < ctx.inode.size := by
            by_contra hnot
            rw [show ctx.inode.size = 0 by omega, chunkCount_zero blockSize_pos] at hlen
            omega
          have hlast := lastBlockLen_eq hsize
          rw [← hlen] at hlast
          have hge : ¬ lastBlockLen ctx.inode.size < blockSize := fun hlt =>
            hext ⟨hzero, hlt⟩
          have hle := @chunkLen_le blockSize ctx.inode.size (ctx.inode.blocks.length - 1)
          rw [h.chunked.map_fill]
          intro _
          rw [hi]
          omega
      · exact (hfull i hi).symm

theorem getD_append_fresh (blocks : List Block) (m i : Nat) :
    ((blocks ++ List.replicate m Block.fresh).map Block.content).getD i none =
      (blocks.map Block.content).getD i none := by
  simp only [getD_eq_getElem?_getD, map_append, map_replicate, Block.content_fresh]
  by_cases hi : i < (blocks.map Block.content).length
  · rw [getElem?_append_left hi]
  · rw [getElem?_append_right (by omega),
      getElem?_eq_none (show (blocks.map Block.content).length ≤ i by omega),
      getElem?_replicate]
    split_ifs <;> rfl

/-- Setting the number of blocks. -/
theorem adjustBlocks (h : FileInv ctx.inode) (n : Nat) :
    ∃ c blocks, adjustBlocks ctx n = some (ctx.withBlocks c blocks) ∧
      (∀ b ∈ blocks, b.Ok) ∧ blocks.length = n ∧
      ∀ i < n, (blocks.map Block.content).getD i none =
        if ctx.inode.blocks.length < n then
          (ctx.inode.contents.getD i none).map (fill 0 blockSize)
        else ctx.inode.contents.getD i none := by
  rw [BlueSky.adjustBlocks]
  by_cases hgrow : ctx.inode.blocks.length < n
  · obtain ⟨c, blocks, heq, hok, hlen, hcontent⟩ := h.extendLast
    refine ⟨c, blocks ++ List.replicate (n - blocks.length) Block.fresh, ?_, ?_, ?_, ?_⟩
    · rw [if_pos hgrow, BlueSky.growBlocks, heq]
      rfl
    · intro b hb
      rcases mem_append.mp hb with hold | hnew
      · exact hok b hold
      · rw [eq_of_mem_replicate hnew]
        exact Block.ok_fresh
    · simp
      omega
    · intro i _
      rw [getD_append_fresh, hcontent, if_pos hgrow]
  · rw [if_neg hgrow]
    by_cases hshrink : n < ctx.inode.blocks.length
    · refine ⟨_, ctx.inode.blocks.take n, (if_pos hshrink).trans rfl, ?_, ?_, ?_⟩
      · exact fun b hb => h.blocks_ok b (mem_of_mem_take hb)
      · simp
        omega
      · intro i hi
        rw [if_neg hgrow, FileInode.contents, map_take]
        simp only [getD_eq_getElem?_getD, getElem?_take_of_lt hi]
    · refine ⟨ctx.cacheDirty, ctx.inode.blocks, if_neg hshrink, h.blocks_ok, by omega, ?_⟩
      intro i _
      rw [if_neg hgrow]
      rfl

/-- The last block after the number of blocks was set: it is left alone if it is a
hole or must have full size, and resized otherwise. -/
theorem resizeLast_cases {ctx : FileCtx} {last size : Nat} {b : Block}
    (hget : ctx.inode.blocks[last]? = some b) (hok : b.Ok) :
    (b.content = none ∧ resizeLast ctx last size = some ctx) ∨
    (size < ctx.inode.size ∧ lastBlockLen size = blockSize ∧ resizeLast ctx last size = some ctx) ∨
    (∃ c d, b.content = some d ∧ resizeLast ctx last size = some (ctx.withBlocks c
      (ctx.inode.blocks.set last (Block.ofDirty (fill 0 (size - last * blockSize) d))))) := by
  simp only [resizeLast, hget, Option.bind_eq_bind, Option.bind_some]
  cases hc : b.content with
  | none => exact Or.inl ⟨rfl, if_pos (hok.content_eq_none_iff.mp hc)⟩
  | some d =>
    have htype : ¬ b.type = .zero := by
      rw [← hok.content_eq_none_iff, hc]
      simp
    rw [if_neg htype]
    by_cases hskip : size < ctx.inode.size ∧ lastBlockLen size = blockSize
    · exact Or.inr (Or.inl ⟨hskip.1, hskip.2, if_pos hskip⟩)
    · rw [if_neg hskip]
      exact Or.inr (Or.inr ⟨_, d, rfl, touch_resize hget hok hc⟩)

/-- Once their number is right, all blocks but the last are right too. -/
theorem adjusted_full (h : FileInv ctx.inode) {size i : Nat}
    (hi : i + 1 < chunkCount blockSize size) :
    (if ctx.inode.blocks.length < chunkCount blockSize size then
        (ctx.inode.contents.getD i none).map (fill 0 blockSize)
      else ctx.inode.contents.getD i none) =
      (ctx.inode.contents.getD i none).map (fill 0 (chunkLen blockSize size i)) := by
  rw [chunkLen_of_lt blockSize_pos hi]
  split_ifs with hgrow
  · rfl
  · rw [h.chunked.map_fill]
    intro _
    have hlen := h.length_blocks
    exact (chunkLen_of_lt blockSize_pos (by omega)).symm

/-- Giving the last block its size completes the change of size. -/
theorem resizeLast (h : FileInv ctx.inode) {size : Nat} {c : Int} {blocks : List Block}
    (hok : ∀ b ∈ blocks, b.Ok) (hlen : blocks.length = chunkCount blockSize size)
    (hpos : 0 < chunkCount blockSize size)
    (hcontent : ∀ i < chunkCount blockSize size, (blocks.map Block.content).getD i none =
      if ctx.inode.blocks.length < chunkCount blockSize size then
        (ctx.inode.contents.getD i none).map (fill 0 blockSize)
      else ctx.inode.contents.getD i none) :
    ∃ c' blocks', resizeLast (ctx.withBlocks c blocks) (chunkCount blockSize size - 1) size =
        some (ctx.withBlocks c' blocks') ∧
      (∀ b ∈ blocks', b.Ok) ∧
      blocks'.map Block.content = resizeChunks 0 blockSize size ctx.inode.contents := by
  generalize hn : chunkCount blockSize size = n at *
  have hlast : n - 1 < blocks.length := by omega
  have hget : blocks[n - 1]? = some blocks[n - 1] := getElem?_eq_getElem hlast
  have hlastOk : blocks[n - 1].Ok := hok _ (getElem_mem hlast)
  have hlastContent : blocks[n - 1].content = (blocks.map Block.content).getD (n - 1) none := by
    simp [getD_eq_getElem?_getD, hlast]
  rw [hcontent _ (by omega)] at hlastContent
  have hothers : ∀ i, i + 1 < n → (blocks.map Block.content).getD i none =
      (ctx.inode.contents.getD i none).map (fill 0 (chunkLen blockSize size i)) := by
    intro i hi
    rw [hcontent i (by omega), ← hn, h.adjusted_full (hn ▸ hi)]
  -- it is enough to look at the last block
  have hall : ∀ blocks' : List Block, blocks'.length = n →
      (∀ i, i + 1 < n → (blocks'.map Block.content).getD i none =
        (blocks.map Block.content).getD i none) →
      (blocks'.map Block.content).getD (n - 1) none =
        (ctx.inode.contents.getD (n - 1) none).map (fill 0 (chunkLen blockSize size (n - 1))) →
      blocks'.map Block.content = resizeChunks 0 blockSize size ctx.inode.contents := by
    intro blocks' hlen' hrest hlast'
    apply eq_resizeChunks
    · rw [length_map, hlen', hn]
    · intro i hi
      rw [hn] at hi
      by_cases heq : i = n - 1
      · rw [heq]
        exact hlast'
      · rw [hrest i (by omega), hothers i (by omega)]
  have hbeyond : ctx.inode.blocks.length < n → ctx.inode.contents.getD (n - 1) none = none := by
    intro hgrow
    apply getD_eq_default
    rw [FileInode.contents, length_map]
    omega
  rcases @resizeLast_cases (ctx.withBlocks c blocks) (n - 1) size _ hget hlastOk with
    ⟨hhole, heq⟩ | ⟨hless, hfull, heq⟩ | ⟨c', d, hd, heq⟩
  · refine ⟨c, blocks, heq, hok, hall blocks hlen (fun _ _ => rfl) ?_⟩
    rw [hcontent _ (by omega), ← hlastContent, hhole]
    rw [hhole] at hlastContent
    split_ifs at hlastContent with hgrow
    · rw [hbeyond hgrow]
      rfl
    · rw [← hlastContent]
      rfl
  · -- a file that gets shorter by whole blocks
    replace hless : size < ctx.inode.size := hless
    have hblocks := h.length_blocks
    have hpositive : 0 < size := by
      by_contra hnot
      rw [show size = 0 by omega, chunkCount_zero blockSize_pos] at hn
      omega
    have hlastLen := lastBlockLen_eq hpositive
    rw [hfull, hn] at hlastLen
    simp only [chunkCount, chunkLen, blockSize] at hblocks hlastLen hn
    refine ⟨c, blocks, heq, hok, hall blocks hlen (fun _ _ => rfl) ?_⟩
    rw [hcontent _ (by omega), if_neg (by omega), h.chunked.map_fill]
    intro _
    simp only [chunkLen, blockSize]
    omega
  · have hgrow : ¬ ctx.inode.blocks.length < n := by
      intro hgrow
      rw [hd, if_pos hgrow, hbeyond hgrow] at hlastContent
      simp at hlastContent
    rw [hd, if_neg hgrow] at hlastContent
    have hsize : size - (n - 1) * blockSize = chunkLen blockSize size (n - 1) := by
      simp only [chunkCount, chunkLen, blockSize] at *
      omega
    refine ⟨c', _, heq, ok_of_mem_set hok (Block.ok_ofDirty _), hall _ ?_ ?_ ?_⟩
    · simpa [FileCtx.withBlocks] using hlen
    · intro i hi
      simp [FileCtx.withBlocks, getD_eq_getElem?_getD, getElem?_set_ne (show n - 1 ≠ i by omega)]
    · rw [← hlastContent, hsize]
      simp [FileCtx.withBlocks, hlast]

/-- Truncation cuts or extends the chunked array. -/
theorem truncate (h : FileInv ctx.inode) (now : Int) {size : Nat} (hsize : size ≤ maxFileSize) :
    ∃ ctx', fileTruncate now ctx size = some ctx' ∧ FileInv ctx'.inode ∧
      ctx'.inode.size = size ∧
      ctx'.inode.contents = resizeChunks 0 blockSize size ctx.inode.contents := by
  by_cases hsame : size = ctx.inode.size
  · refine ⟨ctx, ?_, h, hsame.symm, ?_⟩
    · rw [fileTruncate, if_neg (by omega), if_pos hsame]
    · apply eq_resizeChunks
      · rw [hsame, h.chunked.count]
      · intro i _
        rw [h.chunked.map_fill]
        intro _
        rw [hsame]
  · rw [fileTruncate, if_neg (by omega), if_neg hsame]
    obtain ⟨c, blocks, hadjust, hok, hlen, hcontent⟩ :=
      h.adjustBlocks (chunkCount blockSize size)
    obtain ⟨c', blocks', hlast, hok', hcontent'⟩ : ∃ c' blocks',
        sizeLast (ctx.withBlocks c blocks) (chunkCount blockSize size) size =
          some (ctx.withBlocks c' blocks') ∧
        (∀ b ∈ blocks', b.Ok) ∧
        blocks'.map Block.content = resizeChunks 0 blockSize size ctx.inode.contents := by
      by_cases hpos : 0 < chunkCount blockSize size
      · rw [sizeLast, if_pos hpos]
        exact h.resizeLast hok hlen hpos hcontent
      · refine ⟨c, blocks, if_neg hpos, hok, ?_⟩
        apply eq_resizeChunks
        · simpa using hlen
        · intro i hi
          omega
    refine ⟨{ ctx.withBlocks c' blocks' with
      inode := updateCtime now true { ctx.inode with size := size, blocks := blocks' } },
      ?_, ?_, rfl, hcontent'⟩
    · change ((BlueSky.adjustBlocks ctx (chunkCount blockSize size)).bind fun ctx =>
        (sizeLast ctx (chunkCount blockSize size) size).bind _) = _
      rw [hadjust, Option.bind_some, hlast]
      rfl
    · refine ⟨h.regular, hok', ?_⟩
      change Chunked blockSize size (blocks'.map Block.content)
      rw [hcontent']
      exact Chunked.resize 0 size _

end FileInv

end BlueSky
