import BlueSky.File.Truncate

/-!
# Files refine byte arrays

Reading, flushing and dropping cached blocks leave the contents of a file alone;
truncating and writing change them as they change an array of bytes.

Main results:

- Theorem {lit}`FileInv.read`: a read inside the file returns the bytes there.
- Theorem {lit}`Represents.step` and theorem {lit}`Represents.run`: every operation
  succeeds and does to the file what it does to the array.
- Theorem {lit}`file_refines_array`: over any sequence of operations, a file reads
  as the byte array that the same operations give.
-/

namespace BlueSky

open List Option ByteLib ChunkLib

namespace FileInv

variable {ctx : FileCtx}

/-! ## Reading -/

variable {b : Block}

/-- A fetch keeps a block in order and leaves its contents in memory. -/
theorem blockFetch_of_content (hok : b.Ok) {d : Bytes} (hd : b.content = some d) :
    ∃ b', blockFetch b = some b' ∧ b'.Ok ∧ b'.content = some d ∧ b'.buffer = some d := by
  unfold Block.Ok at hok
  unfold Block.content at hd
  cases ht : b.type with
  | zero => simp [ht] at hd
  | ref =>
    simp only [ht] at hok hd
    obtain ⟨hdirty, item, hitem, hdata⟩ := hok
    rw [hitem, map_some, some.injEq] at hd
    have hfetch := BlockItem.fetch_data hdata
    refine ⟨{ b with ref := some item.fetch }, by simp [blockFetch, ht, hitem], ?_, ?_, ?_⟩
    · simp only [Block.Ok, ht]
      refine ⟨hdirty, item.fetch, rfl, ?_⟩
      rw [hfetch]
      simp [BlockItem.fetch]
    · simpa [Block.content, ht, BlockItem.fetch] using hd
    · simpa [Block.buffer, ht, hfetch] using hd
  | dirty =>
    simp only [ht] at hok hd
    refine ⟨b, by simp [blockFetch, ht], ?_, ?_, ?_⟩
    · simpa only [Block.Ok, ht] using hok
    · simpa [Block.content, ht] using hd
    · simpa [Block.buffer, ht] using hd

/-- Replacing a block by one with the same contents changes nothing that matters. -/
theorem set_same (h : FileInv ctx.inode) {i : Nat} {b' : Block}
    (hget : ctx.inode.blocks[i]? = some b) (hok : b'.Ok) (hsame : b'.content = b.content)
    (c : Int) :
    FileInv (ctx.withBlocks c (ctx.inode.blocks.set i b')).inode ∧
      (ctx.withBlocks c (ctx.inode.blocks.set i b')).inode.contents = ctx.inode.contents := by
  have hcontents : (ctx.withBlocks c (ctx.inode.blocks.set i b')).inode.contents =
      ctx.inode.contents := by
    have hold : ctx.inode.contents[i]? = some b.content := by
      simp [FileInode.contents, hget]
    obtain ⟨hi, hb⟩ := List.getElem?_eq_some_iff.mp hold
    rw [contents_set, hsame, ← hb, set_getElem_self]
  refine ⟨⟨h.regular, ok_of_mem_set h.blocks_ok hok, ?_⟩, hcontents⟩
  rw [hcontents]
  exact h.chunked

/-- One iteration of the read loop copies a window of one chunk. -/
theorem readBlock (h : FileInv ctx.inode) {offset bytes : Nat} (hpos : 0 < bytes)
    (hend : offset + bytes ≤ ctx.inode.size)
    (hfit : offset % blockSize + bytes ≤ blockSize) :
    ∃ blocks, readBlock ctx offset bytes =
        some (ctx.withBlocks ctx.cacheDirty blocks,
          window 0 blockSize ctx.inode.contents offset bytes) ∧
      FileInv (ctx.withBlocks ctx.cacheDirty blocks).inode ∧
      (ctx.withBlocks ctx.cacheDirty blocks).inode.contents = ctx.inode.contents := by
  obtain ⟨b, hget, hok⟩ := h.block_at (show offset < ctx.inode.size by omega)
  have hcontent := FileInode.getD_contents hget
  simp only [BlueSky.readBlock, hget, bind_eq_bind, bind_some]
  cases hc : b.content with
  | none =>
    refine ⟨ctx.inode.blocks, ?_, h, rfl⟩
    rw [if_pos (hok.content_eq_none_iff.mp hc),
      window_hole 0 blockSize_pos hfit (hcontent.trans hc)]
    rfl
  | some d =>
    have htype : ¬ b.type = .zero := by
      rw [← hok.content_eq_none_iff, hc]
      simp
    obtain ⟨b', hfetch, hok', hc', hdata⟩ := blockFetch_of_content hok hc
    have hlen : offset % blockSize + bytes ≤ d.length := by
      have hsplit := Nat.div_add_mod' offset blockSize
      rw [h.content_length hget hc, chunkLen]
      omega
    obtain ⟨hinv, hsame⟩ := h.set_same hget hok' (hc'.trans hc.symm) ctx.cacheDirty
    refine ⟨_, ?_, hinv, hsame⟩
    rw [if_neg htype, hfetch, bind_some, hdata, bind_some, if_pos hlen,
      window_chunk 0 blockSize_pos hfit (hcontent.trans hc) hlen]
    rfl

/-- The read loop copies a window of the file. -/
theorem readLoop (fuel : Nat) {ctx : FileCtx} (h : FileInv ctx.inode) {offset len : Nat}
    (hfuel : len ≤ fuel) (hend : offset + len ≤ ctx.inode.size) :
    ∃ ctx', readLoop fuel ctx offset len =
        some (ctx', window 0 blockSize ctx.inode.contents offset len) ∧
      FileInv ctx'.inode ∧ ctx'.inode.size = ctx.inode.size ∧
      ctx'.inode.contents = ctx.inode.contents := by
  induction fuel generalizing ctx offset len with
  | zero =>
    rw [show len = 0 by omega]
    exact ⟨ctx, rfl, h, rfl, rfl⟩
  | succ fuel ih =>
    by_cases hnil : len = 0
    · rw [hnil]
      exact ⟨ctx, rfl, h, rfl, rfl⟩
    · have hmod := Nat.mod_lt offset blockSize_pos
      generalize hbytes : min (blockSize - offset % blockSize) len = bytes
      obtain ⟨blocks, hstep, hinv, hsame⟩ :=
        @FileInv.readBlock ctx h offset bytes (by omega) (by omega) (by omega)
      obtain ⟨ctx', hrest, hinv', hsize, hsame'⟩ :=
        @ih _ hinv (offset + bytes) (len - bytes) (by omega)
          (by simp only [FileCtx.withBlocks]; omega)
      refine ⟨ctx', ?_, hinv', hsize, hsame'.trans hsame⟩
      have hwindow := window_add 0 blockSize ctx.inode.contents offset bytes (len - bytes)
      rw [show bytes + (len - bytes) = len by omega] at hwindow
      simp only [BlueSky.readLoop, hnil, if_false, hbytes, hstep, bind_eq_bind,
        bind_some, hrest, hsame, hwindow]

/-- A read that stays inside the file returns the bytes there. -/
theorem read (h : FileInv ctx.inode) {offset len : Nat}
    (hend : offset + len ≤ ctx.inode.size) :
    ∃ ctx', fileRead ctx offset len =
        some (ctx', slice (flat 0 blockSize ctx.inode.size ctx.inode.contents) offset len) ∧
      FileInv ctx'.inode ∧ ctx'.inode.size = ctx.inode.size ∧
      ctx'.inode.contents = ctx.inode.contents := by
  rw [slice, ← window_eq_flat 0 blockSize _ hend, fileRead]
  by_cases hnil : len = 0
  · rw [if_pos ⟨hnil, by omega⟩, hnil]
    exact ⟨ctx, rfl, h, rfl, rfl⟩
  · rw [if_neg (fun hand => hnil hand.1), if_neg (not_not.mpr h.regular),
      if_neg (by omega), if_neg (by omega)]
    exact h.readLoop len le_rfl hend

/-! ## Flushing and dropping -/

theorem flushBlock_ok (hok : b.Ok) (inum : BitVec 64) (id : CloudId) (logItems : List BlockItem) :
    ∃ b' logItems', blockFlush inum id b logItems = some (b', logItems') ∧ b'.Ok ∧
      b'.content = b.content := by
  by_cases ht : b.type = .dirty
  · unfold Block.Ok at hok
    simp only [ht] at hok
    obtain ⟨href, d, hd⟩ := hok
    refine ⟨{ type := .ref, ref := some (flushedItem inum id d), dirty := none },
      flushedItem inum id d :: logItems, by simp [blockFlush, ht, href, hd], ?_, ?_⟩
    · exact ⟨rfl, flushedItem inum id d, rfl, by simp [flushedItem]⟩
    · simp [Block.content, ht, hd, flushedItem]
  · exact ⟨b, logItems, by simp [blockFlush, ht], hok, rfl⟩

variable {blocks : List Block}

/-- No block is dirty after a flush. -/
theorem flushBlocks_clean {blocks' : List Block} {inum : BitVec 64} {ids : Nat → CloudId} {i : Nat}
    {logItems logItems' : List BlockItem}
    (h : flushBlocks inum ids i blocks logItems = some (blocks', logItems')) :
    ∀ b ∈ blocks', b.type ≠ .dirty := by
  induction blocks generalizing blocks' i logItems logItems' with
  | nil =>
    rw [flushBlocks, some_inj, Prod.mk.injEq] at h
    simp [← h.1]
  | cons b blocks ih =>
    rw [flushBlocks] at h
    rcases bind_eq_some_iff.mp h with ⟨⟨b₁, items₁⟩, hb, h⟩
    rcases bind_eq_some_iff.mp h with ⟨⟨blocks₁, items₂⟩, hblocks, h⟩
    rw [some_inj, Prod.mk.injEq] at h
    rw [← h.1]
    intro b' hb'
    rcases mem_cons.mp hb' with rfl | hb'
    · unfold blockFlush at hb
      split_ifs at hb with hclean href
      · rw [some_inj, Prod.mk.injEq] at hb
        rw [← hb.1]
        exact hclean
      · rcases map_eq_some_iff.mp hb with ⟨data, -, heq⟩
        rw [Prod.mk.injEq] at heq
        rw [← heq.1]
        simp
    · exact ih hblocks b' hb'

/-- Flushing turns dirty blocks into log items with the same contents. -/
theorem flushBlocks_ok (hok : ∀ b ∈ blocks, b.Ok) (inum : BitVec 64) (ids : Nat → CloudId) (i : Nat)
    (logItems : List BlockItem) :
    ∃ blocks' logItems', flushBlocks inum ids i blocks logItems = some (blocks', logItems') ∧
      (∀ b ∈ blocks', b.Ok) ∧
      blocks'.map Block.content = blocks.map Block.content := by
  induction blocks generalizing i logItems with
  | nil => exact ⟨[], logItems, rfl, by simp, rfl⟩
  | cons b blocks ih =>
    obtain ⟨b', items, hb, hbok, hbc⟩ :=
      flushBlock_ok (hok b mem_cons_self) inum (ids i) logItems
    obtain ⟨blocks', items', hbs, hbsok, hbsc⟩ :=
      ih (fun b hb => hok b (mem_cons_of_mem _ hb)) (i + 1) items
    refine ⟨b' :: blocks', items', ?_, ?_, ?_⟩
    · simp [flushBlocks, hb, hbs]
    · intro x hx
      rcases mem_cons.mp hx with rfl | hx
      · exact hbok
      · exact hbsok x hx
    · simp [hbc, hbsc]

/-- A block array with the same contents serves the same file. -/
theorem of_contents_eq (h : FileInv ctx.inode) {c : Int} (hok : ∀ b ∈ blocks, b.Ok)
    (hsame : blocks.map Block.content = ctx.inode.blocks.map Block.content) :
    FileInv (ctx.withBlocks c blocks).inode := by
  refine ⟨h.regular, hok, ?_⟩
  change Chunked blockSize ctx.inode.size (blocks.map Block.content)
  rw [hsame]
  exact h.chunked

theorem flush (h : FileInv ctx.inode) (ids : Nat → CloudId) (logItems : List BlockItem) :
    ∃ ctx' logItems', fileFlush ids ctx logItems = some (ctx', logItems') ∧
      FileInv ctx'.inode ∧ ctx'.inode.size = ctx.inode.size ∧
      ctx'.inode.contents = ctx.inode.contents := by
  obtain ⟨blocks, items, hflush, hok, hsame⟩ :=
    flushBlocks_ok h.blocks_ok ctx.inode.inum ids 0 logItems
  rw [fileFlush, if_neg (not_not.mpr h.regular), hflush]
  exact ⟨ctx.withBlocks _ blocks, items, rfl, h.of_contents_eq hok hsame, rfl, hsame⟩

theorem dropBlock_ok (hok : b.Ok) :
    ∃ b', dropBlock b = some b' ∧ b'.Ok ∧ b'.content = b.content := by
  by_cases ht : b.type = .ref
  · have hok' := hok
    unfold Block.Ok at hok'
    simp only [ht] at hok'
    obtain ⟨hdirty, item, hitem, hdata⟩ := hok'
    by_cases hdrop : item.dataLockCount = 0 ∧ item.locationFlags ≠ {}
    · refine ⟨{ b with ref := some { item with data := none } },
        by simp [dropBlock, ht, hitem, hdrop], ?_, ?_⟩
      · simp only [Block.Ok, ht]
        exact ⟨hdirty, _, rfl, by simp⟩
      · simp [Block.content, ht, hitem]
    · exact ⟨b, by simp [dropBlock, ht, hitem, hdrop], hok, rfl⟩
  · exact ⟨b, by simp [dropBlock, ht], hok, rfl⟩

theorem dropBlocks_ok (hok : ∀ b ∈ blocks, b.Ok) :
    ∃ blocks', blocks.mapM dropBlock = some blocks' ∧ (∀ b ∈ blocks', b.Ok) ∧
      blocks'.map Block.content = blocks.map Block.content := by
  induction blocks with
  | nil => exact ⟨[], rfl, by simp, rfl⟩
  | cons b blocks ih =>
    obtain ⟨b', hb, hbok, hbc⟩ := dropBlock_ok (hok b mem_cons_self)
    obtain ⟨blocks', hbs, hbsok, hbsc⟩ := ih fun b hb => hok b (mem_cons_of_mem _ hb)
    refine ⟨b' :: blocks', ?_, ?_, ?_⟩
    · simp [mapM_cons, hb, hbs]
    · intro x hx
      rcases mem_cons.mp hx with rfl | hx
      · exact hbok
      · exact hbsok x hx
    · simp [hbc, hbsc]

theorem dropCached (h : FileInv ctx.inode) :
    ∃ ctx', fileDropCached ctx = some ctx' ∧ FileInv ctx'.inode ∧
      ctx'.inode.size = ctx.inode.size ∧ ctx'.inode.contents = ctx.inode.contents := by
  obtain ⟨blocks, hdrop, hok, hsame⟩ := dropBlocks_ok h.blocks_ok
  rw [fileDropCached, if_neg (not_not.mpr h.regular), hdrop]
  exact ⟨ctx.withBlocks ctx.cacheDirty blocks, rfl, h.of_contents_eq hok hsame, rfl, hsame⟩

theorem journaledBlock_ok (hok : b.Ok) : b.journaled.Ok ∧ b.journaled.content = b.content := by
  by_cases ht : b.type = .ref
  · unfold Block.Ok at hok
    simp only [ht] at hok
    obtain ⟨hdirty, item, hitem, hdata⟩ := hok
    rw [Block.journaled, if_pos ht]
    constructor
    · simp only [Block.Ok, ht, hitem]
      exact ⟨hdirty, item.journaled, rfl, by simp [BlockItem.journaled]⟩
    · simp [Block.content, ht, hitem, BlockItem.journaled]
  · rw [Block.journaled, if_neg ht]
    exact ⟨hok, rfl⟩

theorem logThreadWrites (h : FileInv ctx.inode) (i : Nat) :
    FileInv (logThreadWrites ctx i).inode ∧
      (logThreadWrites ctx i).inode.contents = ctx.inode.contents := by
  have hblock : ∀ (j : Nat) (hj : j < ctx.inode.blocks.length)
      (hj' : j < (ctx.inode.blocks.modify i Block.journaled).length),
      (ctx.inode.blocks.modify i Block.journaled)[j].Ok ∧
        (ctx.inode.blocks.modify i Block.journaled)[j].content = ctx.inode.blocks[j].content := by
    intro j hj hj'
    rw [getElem_modify]
    have hok := h.blocks_ok _ (getElem_mem hj)
    by_cases hij : i = j
    · rw [if_pos hij]
      exact journaledBlock_ok hok
    · rw [if_neg hij]
      exact ⟨hok, rfl⟩
  have hmap : (ctx.inode.blocks.modify i Block.journaled).map Block.content =
      ctx.inode.blocks.map Block.content := by
    apply ext_getElem
    · simp
    · intro j h1 h2
      simpa using (hblock j (by simpa using h2) (by simpa using h1)).2
  refine ⟨h.of_contents_eq ?_ hmap, hmap⟩
  intro b hb
  obtain ⟨j, hj, rfl⟩ := mem_iff_getElem.mp hb
  exact (hblock j (by simpa using hj) hj).1

theorem updateCtime (h : FileInv ctx.inode) (now : Int) (m : Bool) :
    FileInv (updateCtime now m ctx.inode) :=
  ⟨h.regular, h.blocks_ok, h.chunked⟩

end FileInv

/-! ## Sequences of operations -/

/-- The operations on a regular file, and the progress of the log thread that decides
what {lit}`bluesky_file_drop_cached` may drop. -/
inductive FileOp where
  | truncate (now : Int) (size : Nat)
  | write (now : Int) (offset : Nat) (data : Bytes)
  | flush (ids : Nat → CloudId)
  | dropCached
  | logThreadWrites (i : Nat)

/-- One operation. -/
def fileStep (ctx : FileCtx) : FileOp → Option FileCtx
  | .truncate now size => fileTruncate now ctx size
  | .write now offset data => fileWrite now ctx offset data
  | .flush ids => (fileFlush ids ctx []).map Prod.fst
  | .dropCached => fileDropCached ctx
  | .logThreadWrites i => some (logThreadWrites ctx i)

/-- A sequence of operations. -/
def fileRun (ctx : FileCtx) : List FileOp → Option FileCtx
  | [] => some ctx
  | op :: ops => (fileStep ctx op).bind fun ctx => fileRun ctx ops

/-- What an operation means for the array of bytes that a file is.  A request outside
the bounds is refused. -/
def FileOp.apply (a : Bytes) : FileOp → Bytes
  | .truncate _ size => if size ≤ maxFileSize then fill 0 size a else a
  | .write _ offset data =>
    if offset < a.length ∧ data.length ≤ a.length - offset then splice a offset data else a
  | .flush _ => a
  | .dropCached => a
  | .logThreadWrites _ => a

/-- A file in good order that stands for the given array. -/
structure Represents (ctx : FileCtx) (a : Bytes) : Prop where
  inv : FileInv ctx.inode
  flat_eq : flat 0 blockSize ctx.inode.size ctx.inode.contents = a

namespace Represents

variable {ctx : FileCtx} {a : Bytes}

theorem length_eq (h : Represents ctx a) : a.length = ctx.inode.size := by
  rw [← h.flat_eq, length_flat]

theorem newFile (inum : BitVec 64) (cacheDirty : Int) :
    Represents (newFile inum cacheDirty) [] where
  inv :=
    { regular := rfl
      blocks_ok := by simp [BlueSky.newFile]
      chunked :=
        { count := by simp [BlueSky.newFile, FileInode.contents, chunkCount_zero blockSize_pos]
          len := by simp [BlueSky.newFile, FileInode.contents] } }
  flat_eq := rfl

theorem of_contents_eq (h : Represents ctx a) {ctx' : FileCtx} (hinv : FileInv ctx'.inode)
    (hsize : ctx'.inode.size = ctx.inode.size)
    (hsame : ctx'.inode.contents = ctx.inode.contents) : Represents ctx' a :=
  ⟨hinv, by rw [hsize, hsame, h.flat_eq]⟩

theorem truncate (h : Represents ctx a) (now : Int) (size : Nat) :
    ∃ ctx', fileTruncate now ctx size = some ctx' ∧
      Represents ctx' (FileOp.apply a (.truncate now size)) := by
  by_cases hsize : size ≤ maxFileSize
  · obtain ⟨ctx', heq, hinv, hsz, hcontents⟩ := h.inv.truncate now hsize
    refine ⟨ctx', heq, hinv, ?_⟩
    rw [hsz, hcontents, flat_resizeChunks 0 h.inv.chunked blockSize_pos, h.flat_eq,
      FileOp.apply, if_pos hsize]
  · refine ⟨ctx, by rw [fileTruncate, if_pos (by omega)], ?_⟩
    rw [FileOp.apply, if_neg hsize]
    exact h

/-- Chunks that differ from those of a file in one range stand for the array
overwritten there. -/
theorem flat_splice (h : Represents ctx a) {offset : Nat} {data : Bytes}
    (hend : offset + data.length ≤ ctx.inode.size) {cs : List (Chunk Byte)}
    (hcells : ∀ p, cellAt 0 blockSize cs p =
      if offset ≤ p ∧ p < offset + data.length then data.getD (p - offset) 0
      else cellAt 0 blockSize ctx.inode.contents p) :
    flat 0 blockSize ctx.inode.size cs = splice a offset data := by
  have hlen := h.length_eq
  have hsplice : offset + data.length ≤ a.length := by omega
  apply ext_getElem
  · rw [length_flat, length_splice hsplice, hlen]
  · intro p h1 h2
    have hp : p < a.length := by
      rw [length_flat] at h1
      omega
    have hget := @getD_splice _ (0 : Byte) a data offset p hsplice
    rw [getD_eq_getElem _ _ h2, getD_eq_getElem _ _ hp] at hget
    rw [getElem_flat, hcells p, hget]
    simp only [← h.flat_eq, getElem_flat]

theorem write (h : Represents ctx a) (now : Int) (offset : Nat) (data : Bytes) :
    ∃ ctx', fileWrite now ctx offset data = some ctx' ∧
      Represents ctx' (FileOp.apply a (.write now offset data)) := by
  have hlen := h.length_eq
  rw [FileOp.apply, fileWrite, if_neg (not_not.mpr h.inv.regular), hlen]
  by_cases hoff : offset < ctx.inode.size
  · by_cases hend : data.length ≤ ctx.inode.size - offset
    · have hin : offset < ctx.inode.size ∧ data.length ≤ ctx.inode.size - offset :=
        ⟨hoff, hend⟩
      rw [if_neg (not_not.mpr hoff), if_neg (not_not.mpr hend), if_pos hin]
      by_cases hnil : data.length = 0
      · refine ⟨ctx, if_pos hnil, ?_⟩
        rw [eq_nil_of_length_eq_zero hnil]
        simpa [splice] using h
      · obtain ⟨c, blocks, heq, hinv, hcells⟩ :=
          FileInv.writeLoop data.length h.inv le_rfl (show offset + data.length ≤ _ by omega)
        rw [if_neg hnil, heq]
        refine ⟨_, rfl, hinv.updateCtime now true, ?_⟩
        exact h.flat_splice (by omega) hcells
    · refine ⟨ctx, by rw [if_neg (not_not.mpr hoff), if_pos hend], ?_⟩
      rw [if_neg (fun hand => hend hand.2)]
      exact h
  · refine ⟨ctx, by rw [if_pos hoff], ?_⟩
    rw [if_neg (fun hand => hoff hand.1)]
    exact h

/-- Every operation succeeds and does to the file what it does to the array. -/
theorem step (h : Represents ctx a) (op : FileOp) :
    ∃ ctx', fileStep ctx op = some ctx' ∧ Represents ctx' (op.apply a) := by
  cases op with
  | truncate now size => exact h.truncate now size
  | write now offset data => exact h.write now offset data
  | flush ids =>
    obtain ⟨ctx', items, heq, hinv, hsize, hsame⟩ := h.inv.flush ids []
    exact ⟨ctx', by simp [fileStep, heq], h.of_contents_eq hinv hsize hsame⟩
  | dropCached =>
    obtain ⟨ctx', heq, hinv, hsize, hsame⟩ := h.inv.dropCached
    exact ⟨ctx', heq, h.of_contents_eq hinv hsize hsame⟩
  | logThreadWrites i =>
    obtain ⟨hinv, hsame⟩ := h.inv.logThreadWrites i
    exact ⟨_, rfl, h.of_contents_eq hinv rfl hsame⟩

theorem run (h : Represents ctx a) (ops : List FileOp) :
    ∃ ctx', fileRun ctx ops = some ctx' ∧ Represents ctx' (ops.foldl FileOp.apply a) := by
  induction ops generalizing ctx a with
  | nil => exact ⟨ctx, rfl, h⟩
  | cons op ops ih =>
    obtain ⟨ctx₁, hstep, h₁⟩ := h.step op
    obtain ⟨ctx₂, hrun, h₂⟩ := ih h₁
    exact ⟨ctx₂, by rw [fileRun, hstep, bind_some, hrun], h₂⟩

end Represents

/-- The block array of a file: as many blocks as the size needs, and every block that
is no hole holds a whole block of data, the last one the rest of the file. -/
structure BlocksInShape (inode : FileInode) : Prop where
  count : inode.blocks.length = (inode.size + blockSize - 1) / blockSize
  length : ∀ (i : Nat) (b : Block), inode.blocks[i]? = some b → b.type ≠ .zero →
    ∃ d, b.content = some d ∧
      d.length = if i + 1 < inode.blocks.length then blockSize
        else inode.size - (inode.blocks.length - 1) * blockSize

theorem FileInv.inShape {ctx : FileCtx} (h : FileInv ctx.inode) : BlocksInShape ctx.inode where
  count := h.length_blocks
  length := by
    intro i b hget htype
    obtain ⟨hi, hb⟩ := List.getElem?_eq_some_iff.mp hget
    have hok : b.Ok := hb ▸ h.blocks_ok _ (getElem_mem hi)
    cases hc : b.content with
    | none => exact absurd (hok.content_eq_none_iff.mp hc) htype
    | some d =>
      refine ⟨d, rfl, ?_⟩
      rw [h.content_length hget hc, ← h.touchLen_eq hi, touchLen]
      by_cases hlast : i + 1 < ctx.inode.blocks.length
      · rw [if_pos (by omega), if_pos hlast]
      · rw [if_neg (by omega), if_neg hlast, show i = ctx.inode.blocks.length - 1 by omega]

/-- Over any sequence of operations on a fresh file, the block array stays in shape and
every read inside the file returns the bytes of the array that the operations
describe. -/
theorem file_refines_array (inum : BitVec 64) (cacheDirty : Int) (ops : List FileOp) :
    ∃ ctx, fileRun (newFile inum cacheDirty) ops = some ctx ∧
      BlocksInShape ctx.inode ∧
      ctx.inode.size = (ops.foldl FileOp.apply []).length ∧
      ∀ offset len, offset + len ≤ ctx.inode.size →
        ∃ ctx', fileRead ctx offset len =
          some (ctx', slice (ops.foldl FileOp.apply []) offset len) := by
  obtain ⟨ctx, hrun, hrep⟩ := (Represents.newFile inum cacheDirty).run ops
  refine ⟨ctx, hrun, hrep.inv.inShape, hrep.length_eq.symm, ?_⟩
  intro offset len hend
  obtain ⟨ctx', hread, -⟩ := hrep.inv.read hend
  rw [hrep.flat_eq] at hread
  exact ⟨ctx', hread⟩

end BlueSky
