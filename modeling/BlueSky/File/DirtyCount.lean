import BlueSky.File.Refinement
import BlueSky.Lib.Lists

/-!
# The number of dirty blocks

All files of a file system share the counter `cache_dirty`.  Touching a block, flushing a file and
deleting blocks adjust it; no operation changes by how much it is off from the number of dirty
blocks of the file.

Main results:

- Theorem {lit}`surplus_fileStep`: an operation counts the blocks that it makes dirty or clean.
- Theorem {lit}`cacheDirty_exact`: over any interleaving of operations on any files, the counter
  is the number of dirty blocks, and the fields of every block agree with its type.
-/

namespace BlueSky

open List Option ByteLib ChunkLib ListLib

/-! ## One file -/

/-- A dirty block. -/
def Block.isDirty (b : Block) : Bool :=
  b.type = .dirty

/-- The number of dirty blocks of a file. -/
def FileInode.dirtyBlocks (inode : FileInode) : Nat :=
  inode.blocks.countP Block.isDirty

/-- By how much the counter exceeds the number of dirty blocks of the file. -/
def FileCtx.surplus (ctx : FileCtx) : Int :=
  ctx.cacheDirty - ctx.inode.dirtyBlocks

variable {ctx ctx' : FileCtx} {i : Nat}

/-- A block that becomes dirty is counted. -/
theorem surplus_blockTouch {preserve : Bool} (h : blockTouch ctx i preserve = some ctx') :
    ctx'.surplus = ctx.surplus := by
  unfold blockTouch at h
  cases hget : ctx.inode.blocks[i]? with
  | none =>
    rw [hget] at h
    cases h
    rfl
  | some b =>
    simp only [hget, bind_eq_bind, bind_eq_some_iff, some.injEq] at h
    rcases h with ⟨dirty, -, rfl⟩
    have hcount := countP_set Block.isDirty hget { type := .dirty, ref := none, dirty := dirty }
    unfold FileCtx.surplus FileInode.dirtyBlocks
    by_cases ht : b.type = .dirty
    · simp only [Block.isDirty, ht, decide_true, Bool.toNat_true, if_true] at hcount ⊢
      omega
    · simp only [Block.isDirty, ht, decide_false, Bool.toNat_false, decide_true,
        Bool.toNat_true, if_false] at hcount ⊢
      omega

theorem surplus_updateDirty {f : Bytes → Option Bytes} (h : updateDirty ctx i f = some ctx') :
    ctx'.surplus = ctx.surplus := by
  simp only [updateDirty, bind_eq_bind, bind_eq_some_iff, some.injEq] at h
  rcases h with ⟨b, hget, d, -, d', -, rfl⟩
  have hcount := countP_set Block.isDirty hget { b with dirty := some d' }
  unfold FileCtx.surplus FileInode.dirtyBlocks
  simp only [Block.isDirty] at hcount ⊢
  omega

theorem surplus_touchResize {n : Nat} {preserve : Bool}
    (h : (blockTouch ctx i preserve).bind (fun ctx => resizeDirty ctx i n) = some ctx') :
    ctx'.surplus = ctx.surplus := by
  rcases bind_eq_some_iff.mp h with ⟨ctx₁, htouch, hresize⟩
  rw [surplus_updateDirty hresize, surplus_blockTouch htouch]

/-- The blocks that are cut off are no longer counted. -/
theorem surplus_adjustBlocks {blocks : Nat} (h : adjustBlocks ctx blocks = some ctx') :
    ctx'.surplus = ctx.surplus := by
  unfold adjustBlocks at h
  split at h
  · simp only [growBlocks, bind_eq_bind, bind_eq_some_iff, some.injEq] at h
    rcases h with ⟨ctx₁, hextend, rfl⟩
    have hextended : ctx₁.surplus = ctx.surplus := by
      unfold extendLast at hextend
      dsimp only at hextend
      cases hlast : ctx.inode.blocks[ctx.inode.blocks.length - 1]? with
      | none =>
        rw [hlast] at hextend
        cases hextend
        rfl
      | some b =>
        rw [hlast] at hextend
        dsimp only at hextend
        split at hextend
        · exact surplus_touchResize hextend
        · cases hextend
          rfl
    rw [← hextended]
    unfold FileCtx.surplus FileInode.dirtyBlocks
    simp [countP_append, countP_replicate, Block.isDirty, Block.fresh]
  · split at h
    · cases h
      have hsplit : ctx.inode.blocks.countP Block.isDirty =
          (ctx.inode.blocks.take blocks).countP Block.isDirty +
            (ctx.inode.blocks.drop blocks).countP Block.isDirty := by
        rw [← countP_append, take_append_drop]
      unfold FileCtx.surplus FileInode.dirtyBlocks shrinkBlocks
      change ctx.cacheDirty - ((ctx.inode.blocks.drop blocks).countP Block.isDirty : Int) -
        ((ctx.inode.blocks.take blocks).countP Block.isDirty : Int) = _
      omega
    · cases h
      rfl

theorem surplus_sizeLast {blocks size : Nat} (h : sizeLast ctx blocks size = some ctx') :
    ctx'.surplus = ctx.surplus := by
  unfold sizeLast at h
  split at h
  · rcases bind_eq_some_iff.mp h with ⟨b, -, hresize⟩
    split at hresize
    · cases hresize
      rfl
    · split at hresize
      · cases hresize
        rfl
      · exact surplus_touchResize hresize
  · cases h
    rfl

theorem surplus_fileTruncate {now : Int} {size : Nat} (h : fileTruncate now ctx size = some ctx') :
    ctx'.surplus = ctx.surplus := by
  unfold fileTruncate at h
  split at h
  · cases h
    rfl
  · split at h
    · cases h
      rfl
    · simp only [bind_eq_bind, bind_eq_some_iff, some.injEq] at h
      rcases h with ⟨ctx₁, hadjust, ctx₂, hlast, rfl⟩
      calc
        FileCtx.surplus _ = ctx₂.surplus := rfl
        _ = ctx₁.surplus := surplus_sizeLast hlast
        _ = ctx.surplus := surplus_adjustBlocks hadjust

theorem surplus_writeLoop {fuel : Nat} {offset : Nat} {data : Bytes}
    (h : writeLoop fuel ctx offset data = some ctx') : ctx'.surplus = ctx.surplus := by
  induction fuel generalizing ctx offset data with
  | zero =>
    cases h
    rfl
  | succ fuel ih =>
    unfold writeLoop at h
    split at h
    · cases h
      rfl
    · simp only [bind_eq_bind, bind_eq_some_iff] at h
      rcases h with ⟨ctx₁, hblock, hrest⟩
      simp only [writeBlock, bind_eq_bind, bind_eq_some_iff] at hblock
      rcases hblock with ⟨ctx₂, htouch, hstore⟩
      rw [ih hrest, surplus_updateDirty hstore, surplus_blockTouch htouch]

theorem surplus_fileWrite {now : Int} {offset : Nat} {data : Bytes}
    (h : fileWrite now ctx offset data = some ctx') : ctx'.surplus = ctx.surplus := by
  have hrefused : some ctx = some ctx' → ctx'.surplus = ctx.surplus := by
    intro hsame
    rw [some.inj hsame]
  unfold fileWrite at h
  split at h
  · exact hrefused h
  · split at h
    · exact hrefused h
    · split at h
      · exact hrefused h
      · split at h
        · exact hrefused h
        · simp only [bind_eq_bind, bind_eq_some_iff, some.injEq] at h
          rcases h with ⟨ctx₁, hloop, rfl⟩
          change ctx₁.surplus = ctx.surplus
          exact surplus_writeLoop hloop

variable {blocks blocks' : List Block}

/-- The blocks that are flushed are no longer counted. -/
theorem surplus_fileFlush {ids : Nat → CloudId} {items items' : List BlockItem}
    (h : fileFlush ids ctx items = some (ctx', items')) :
    ctx'.surplus = ctx.surplus := by
  unfold fileFlush at h
  split at h
  · cases h
    rfl
  · simp only [bind_eq_bind, bind_eq_some_iff, some.injEq, Prod.mk.injEq, Prod.exists] at h
    rcases h with ⟨blocks, items₁, hflush, rfl, rfl⟩
    unfold FileCtx.surplus FileInode.dirtyBlocks
    have hclean : blocks.countP Block.isDirty = 0 := by
      rw [countP_eq_zero]
      intro b hb
      simpa [Block.isDirty] using FileInv.flushBlocks_clean hflush b hb
    rw [hclean]
    change ctx.cacheDirty - (ctx.inode.blocks.countP Block.isDirty : Int) - 0 = _
    omega

/-- Blocks that keep their types. -/
theorem countP_isDirty_of_types (h : blocks'.map Block.type = blocks.map Block.type) :
    blocks'.countP Block.isDirty = blocks.countP Block.isDirty := by
  have hcount : ∀ bs : List Block,
      bs.countP Block.isDirty = (bs.map Block.type).countP fun t => t = .dirty := by
    intro bs
    rw [countP_map]
    rfl
  rw [hcount, hcount, h]

theorem types_mapM_dropBlock (h : blocks.mapM dropBlock = some blocks') :
    blocks'.map Block.type = blocks.map Block.type := by
  induction blocks generalizing blocks' with
  | nil =>
    cases h
    rfl
  | cons b blocks ih =>
    simp only [mapM_cons, bind_eq_bind, Option.pure_def, bind_eq_some_iff, some.injEq] at h
    rcases h with ⟨b', hb, bs, hbs, rfl⟩
    have htype : b'.type = b.type := by
      unfold dropBlock at hb
      split at hb
      · rcases map_eq_some_iff.mp hb with ⟨item, -, rfl⟩
        split
        · rfl
        · rfl
      · cases hb
        rfl
    rw [map_cons, map_cons, htype, ih hbs]

/-- Only clean blocks are dropped. -/
theorem surplus_fileDropCached (h : fileDropCached ctx = some ctx') :
    ctx'.surplus = ctx.surplus := by
  unfold fileDropCached at h
  split at h
  · cases h
    rfl
  · simp only [bind_eq_bind, bind_eq_some_iff, some.injEq] at h
    rcases h with ⟨blocks, hdrop, rfl⟩
    unfold FileCtx.surplus FileInode.dirtyBlocks
    rw [countP_isDirty_of_types (types_mapM_dropBlock hdrop)]

theorem surplus_logThreadWrites (ctx : FileCtx) (i : Nat) :
    (logThreadWrites ctx i).surplus = ctx.surplus := by
  have htypes : (ctx.inode.blocks.modify i Block.journaled).map Block.type =
      ctx.inode.blocks.map Block.type := by
    apply ext_getElem
    · simp
    · intro j h1 h2
      simp only [getElem_map, getElem_modify]
      split
      · unfold Block.journaled
        split
        · rfl
        · rfl
      · rfl
  unfold FileCtx.surplus FileInode.dirtyBlocks logThreadWrites
  rw [countP_isDirty_of_types htypes]

/-- An operation counts the blocks that it makes dirty or clean. -/
theorem surplus_fileStep {op : FileOp} (h : fileStep ctx op = some ctx') :
    ctx'.surplus = ctx.surplus := by
  cases op with
  | truncate now size => exact surplus_fileTruncate h
  | write now offset data => exact surplus_fileWrite h
  | flush ids =>
    rcases map_eq_some_iff.mp h with ⟨⟨ctx₁, items⟩, hflush, rfl⟩
    exact surplus_fileFlush hflush
  | dropCached => exact surplus_fileDropCached h
  | logThreadWrites i =>
    cases h
    exact surplus_logThreadWrites ctx i

/-! ## All files -/

/-- The files in memory, with the counter that they share. -/
structure FilesCtx where
  cacheDirty : Int
  inodes : List FileInode

/-- An operation on one of the files. -/
def filesStep (s : FilesCtx) (i : Nat) (op : FileOp) : Option FilesCtx :=
  match s.inodes[i]? with
  | none => some s
  | some inode => do
      let ctx ← fileStep { cacheDirty := s.cacheDirty, inode := inode } op
      some { cacheDirty := ctx.cacheDirty, inodes := s.inodes.set i ctx.inode }

/-- Operations on the files, each with the position of its file. -/
def filesRun (s : FilesCtx) : List (Nat × FileOp) → Option FilesCtx
  | [] => some s
  | (i, op) :: ops => (filesStep s i op).bind fun s => filesRun s ops

/-- The number of dirty blocks in memory. -/
def FilesCtx.dirtyBlocks (s : FilesCtx) : Nat :=
  (s.inodes.map FileInode.dirtyBlocks).sum

/-- Files in good order, with the counter exact. -/
structure FilesInv (s : FilesCtx) : Prop where
  files : ∀ inode ∈ s.inodes, FileInv inode
  counter : s.cacheDirty = s.dirtyBlocks

/-- The fields of a block that the accounting is about agree with its type. -/
def Block.Typed (b : Block) : Prop :=
  (b.type = .dirty → (∃ d, b.dirty = some d) ∧ b.ref = none) ∧ (b.type ≠ .dirty → b.dirty = none)

theorem Block.Ok.typed {b : Block} (h : b.Ok) : b.Typed := by
  unfold Block.Ok at h
  unfold Block.Typed
  cases ht : b.type with
  | zero =>
    simp only [ht] at h
    exact ⟨nofun, fun _ => h.2⟩
  | ref =>
    simp only [ht] at h
    exact ⟨nofun, fun _ => h.1⟩
  | dirty =>
    simp only [ht] at h
    exact ⟨fun _ => ⟨h.2, h.1⟩, fun hne => absurd rfl hne⟩

/-- One operation on one of the files. -/
theorem FilesInv.step {s : FilesCtx} (h : FilesInv s) (i : Nat) (op : FileOp) :
    ∃ s', filesStep s i op = some s' ∧ FilesInv s' := by
  unfold filesStep
  cases hget : s.inodes[i]? with
  | none => exact ⟨s, rfl, h⟩
  | some inode =>
    have hfile := h.files inode (mem_of_getElem? hget)
    have hrep : Represents { cacheDirty := s.cacheDirty, inode := inode }
        (flat 0 blockSize inode.size inode.contents) := ⟨hfile, rfl⟩
    rcases hrep.step op with ⟨ctx, hstep, hctx⟩
    refine ⟨{ cacheDirty := ctx.cacheDirty, inodes := s.inodes.set i ctx.inode }, ?_, ?_, ?_⟩
    · simp only [hstep, bind_eq_bind, bind_some]
    · intro inode' hmem
      rcases mem_or_eq_of_mem_set hmem with hmem | rfl
      · exact h.files inode' hmem
      · exact hctx.inv
    · have hcounter := h.counter
      have hsurplus := surplus_fileStep hstep
      have hsum := sum_map_set FileInode.dirtyBlocks hget ctx.inode
      unfold FileCtx.surplus at hsurplus
      unfold FilesCtx.dirtyBlocks at hcounter ⊢
      dsimp only at hsurplus ⊢
      omega

/-- Any number of new files, before anything is written to them. -/
theorem filesInv_new (inums : List (BitVec 64)) :
    FilesInv { cacheDirty := 0, inodes := inums.map fun inum => (newFile inum 0).inode } := by
  constructor
  · intro inode hmem
    rcases List.mem_map.mp hmem with ⟨inum, -, rfl⟩
    exact (Represents.newFile inum 0).inv
  · have hzero : ∀ inums : List (BitVec 64),
        ((inums.map fun inum => (newFile inum 0).inode).map FileInode.dirtyBlocks).sum = 0 := by
      intro inums
      induction inums with
      | nil => rfl
      | cons inum inums ih =>
        rw [map_cons, map_cons, sum_cons, ih]
        rfl
    unfold FilesCtx.dirtyBlocks
    rw [hzero]
    rfl

/-- Whatever operations are made on files in memory, none of them fails, the counter stays the
number of dirty blocks, and every block has the fields that its type calls for. -/
theorem cacheDirty_exact {s : FilesCtx} (h : FilesInv s) (ops : List (Nat × FileOp)) :
    ∃ s', filesRun s ops = some s' ∧ s'.cacheDirty = s'.dirtyBlocks ∧
      ∀ inode ∈ s'.inodes, ∀ b ∈ inode.blocks, b.Typed := by
  induction ops generalizing s with
  | nil =>
    refine ⟨s, rfl, h.counter, ?_⟩
    intro inode hmem b hb
    exact ((h.files inode hmem).blocks_ok b hb).typed
  | cons op ops ih =>
    rcases h.step op.1 op.2 with ⟨s₁, hstep, hs₁⟩
    rcases ih hs₁ with ⟨s', hrun, hexact⟩
    refine ⟨s', ?_, hexact⟩
    rw [filesRun, hstep, bind_some, hrun]

/-- Two files that are extended, written and flushed in turn. -/
theorem cacheDirty_exact_two :
    ∃ s', filesRun { cacheDirty := 0, inodes := [1, 2].map fun inum => (newFile inum 0).inode }
        [(0, .truncate 5 40000), (1, .truncate 6 3), (1, .write 7 0 [1, 2, 3]),
          (0, .write 8 32767 [4, 5]), (1, .flush fun _ => 0), (0, .truncate 9 1)] = some s' ∧
      s'.cacheDirty = s'.dirtyBlocks ∧ ∀ inode ∈ s'.inodes, ∀ b ∈ inode.blocks, b.Typed :=
  cacheDirty_exact (filesInv_new [1, 2]) _

end BlueSky
