import BlueSky.Lib.LockTrace
import BlueSky.Nfs.Model

/-!
# The inode locks that the handlers take

What each handler that changes an inode does with inode locks, path by path.  Three of them go
wrong when two of the inodes that they work on are the same: RENAME within one directory takes
no lock and releases one, LINK of a directory into itself and RMDIR of an entry that names the
directory itself take a lock that they hold.

Inodes are named by their numbers, the inode that a request creates apart.  A lookup of an inode
that is not in memory makes it with its lock taken on behalf of the thread that fetches it, which
releases it; this is no lock of the handler.

Main results:

- Theorem {lit}`lockTrace_disciplined_iff`: a handler follows the lock discipline exactly if the
  inodes that it locks are different ones.
- Theorem {lit}`nfsCall_eq_none_of_relock`: a handler that takes a lock that it holds does not
  reply.
-/

namespace BlueSky

open ByteLib CStringLib LockTraceLib

/-- The lock of an inode, or of the inode that the request creates. -/
inductive InodeLock where
  | inode (inum : BitVec 64)
  | created
deriving DecidableEq, Repr

/-- The functions that are to be called with the inode locked. -/
inductive GuardedCall where
  | directoryInsert
  | directoryRemove
  | rename
  | setAttributes
  | fileTruncate
  | fileWrite
  | inodeDoSync
deriving DecidableEq, Repr

/-- The requests whose handlers change inodes. -/
inductive LockingRequest where
  | directories (request : NfsRequest)
  | setattr (object : Bytes) (newAttributes : Sattr3) (guard : Option NfsTime)
  | write (file : Bytes) (offset : BitVec 64) (count : BitVec 32) (dataLen : Nat)
      (stable : Bool)
  | commit (file : Bytes)
deriving DecidableEq, Repr

/-- The lock of an inode. -/
def Inode.lock (inode : Inode) : InodeLock :=
  .inode inode.inum

/-! ## The handlers -/

/-- The events of a handler. -/
abbrev LockTrace := List (LockEvent InodeLock GuardedCall)

/-- `set_attributes`. -/
def setAttributesTrace (attributes : Sattr3) (type : FileType) (l : InodeLock) : LockTrace :=
  .call .setAttributes l ::
    if attributes.size ≠ none ∧ type = .regular then [.call .fileTruncate l] else []

/-- `nfsproc3_create_3_svc`, `nfsproc3_mkdir_3_svc` and `nfsproc3_symlink_3_svc`. -/
def makeNodeTrace (s : NfsState) (type : FileType) (attributes : Option Sattr3) (fh : Bytes)
    (name : CString) : LockTrace :=
  match s.lookupFh fh with
  | none => []
  | some dir =>
    .lock dir.lock ::
      if dir.type ≠ .directory then [.unlock dir.lock]
      else if refusedName name then [.unlock dir.lock]
      else
        [.lock .created, .call .directoryInsert dir.lock] ++
          (attributes.elim [] fun attributes => setAttributesTrace attributes type .created) ++
          [.call .inodeDoSync .created, .call .inodeDoSync dir.lock, .unlock .created,
            .unlock dir.lock]

/-- `nfsproc3_remove_3_svc`. -/
def removeTrace (s : NfsState) (fh : Bytes) (name : CString) : LockTrace :=
  match s.lookupFh fh with
  | none => []
  | some dir =>
    .lock dir.lock ::
      if refusedName name then [.unlock dir.lock]
      else
        [.call .directoryRemove dir.lock, .call .inodeDoSync dir.lock, .unlock dir.lock]

/-- `nfsproc3_rmdir_3_svc`. -/
def rmdirTrace (s : NfsState) (fh : Bytes) (name : CString) : LockTrace :=
  match s.lookupFh fh with
  | none => []
  | some dir =>
    .lock dir.lock ::
      if refusedName name then [.unlock dir.lock]
      else
        match s.getInode (dir.directoryLookup name) with
        | none => [.unlock dir.lock]
        | some inode =>
          .lock inode.lock ::
            if inode.type ≠ .directory then [.unlock inode.lock, .unlock dir.lock]
            else if 0 < inode.dir.dirents.length then [.unlock inode.lock, .unlock dir.lock]
            else
              [.call .directoryRemove dir.lock, .call .inodeDoSync dir.lock,
                .call .inodeDoSync inode.lock, .unlock inode.lock, .unlock dir.lock]

/-- `bluesky_rename`, which is called on both directories. -/
def renameCalls (dir1 dir2 : Inode) (name1 name2 : CString) (caseSensitive overwrite : Bool) :
    LockTrace :=
  [.call .rename dir1.lock, .call .rename dir2.lock] ++
    if dir1.type ≠ .directory ∨ dir2.type ≠ .directory then []
    else if dir1.entry caseSensitive name1 = none then []
    else if dir2.entry caseSensitive name2 ≠ none ∧ overwrite = false then []
    else
      (if dir2.entry caseSensitive name2 ≠ none then [.call .directoryRemove dir2.lock] else []) ++
        [.call .directoryRemove dir1.lock, .call .directoryInsert dir2.lock]

/-- `nfsproc3_rename_3_svc`. -/
def renameTrace (s : NfsState) (fromFh : Bytes) (fromName : CString) (toFh : Bytes)
    (toName : CString) : LockTrace :=
  match s.lookupFh fromFh with
  | none => []
  | some dir1 =>
    match s.lookupFh toFh with
    | none => []
    | some dir2 =>
      (if dir1.inum < dir2.inum then [.lock dir1.lock, .lock dir2.lock]
        else if dir1.inum > dir2.inum then [.lock dir2.lock, .lock dir1.lock]
        else []) ++
      renameCalls dir1 dir2 fromName toName true true ++
      [.call .inodeDoSync dir2.lock, .call .inodeDoSync dir1.lock, .unlock dir1.lock] ++
      if dir1.inum ≠ dir2.inum then [.unlock dir2.lock] else []

/-- `nfsproc3_link_3_svc`. -/
def linkTrace (s : NfsState) (file fh : Bytes) (name : CString) : LockTrace :=
  match s.lookupFh file with
  | none => []
  | some inode =>
    .lock inode.lock ::
      match s.lookupFh fh with
      | none => [.unlock inode.lock]
      | some dir =>
        .lock dir.lock ::
          if dir.type ≠ .directory then [.unlock inode.lock, .unlock dir.lock]
          else if refusedName name ∨ dir.directoryLookup name ≠ 0 then
            [.unlock inode.lock, .unlock dir.lock]
          else if dir.dir.dirhash name ≠ none then
            [.call .directoryInsert dir.lock, .unlock inode.lock, .unlock dir.lock]
          else
            [.call .directoryInsert dir.lock, .call .inodeDoSync inode.lock,
              .call .inodeDoSync dir.lock, .unlock inode.lock, .unlock dir.lock]

/-- `nfsproc3_setattr_3_svc`. -/
def setattrTrace (s : NfsState) (object : Bytes) (newAttributes : Sattr3)
    (guard : Option NfsTime) : LockTrace :=
  match s.lookupFh object with
  | none => []
  | some inode =>
    .lock inode.lock ::
      if guard.any fun ctime => inode.ctime != decodeNfstime3 ctime then [.unlock inode.lock]
      else
        setAttributesTrace newAttributes inode.type inode.lock ++
          [.call .inodeDoSync inode.lock, .unlock inode.lock]

/-- `nfsproc3_write_3_svc`. -/
def writeTrace (s : NfsState) (file : Bytes) (offset : BitVec 64) (count : BitVec 32)
    (dataLen : Nat) (stable : Bool) : LockTrace :=
  match s.lookupFh file with
  | none => []
  | some inode =>
    .lock inode.lock ::
      if inode.type ≠ .regular then [.unlock inode.lock]
      else
        (if inode.size < (offset + count.setWidth 64).toNat then
            [.call .fileTruncate inode.lock] else []) ++
          (if dataLen < count.toNat then [] else [.call .fileWrite inode.lock]) ++
          (if stable then [.call .inodeDoSync inode.lock] else []) ++
          [.unlock inode.lock]

/-- `nfsproc3_commit_3_svc`. -/
def commitTrace (s : NfsState) (file : Bytes) : LockTrace :=
  match s.lookupFh file with
  | none => []
  | some inode => [.lock inode.lock, .call .inodeDoSync inode.lock, .unlock inode.lock]

/-- What the handler of a request does with inode locks. -/
def LockingRequest.lockTrace (s : NfsState) : LockingRequest → LockTrace
  | .directories (.create fh name) => makeNodeTrace s .regular none fh name
  | .directories (.mkdir fh name attributes) => makeNodeTrace s .directory (some attributes) fh name
  | .directories (.symlink fh name _) => makeNodeTrace s .symlink none fh name
  | .directories (.link file fh name) => linkTrace s file fh name
  | .directories (.remove fh name) => removeTrace s fh name
  | .directories (.rmdir fh name) => rmdirTrace s fh name
  | .directories (.rename fromFh fromName toFh toName) =>
    renameTrace s fromFh fromName toFh toName
  | .setattr object newAttributes guard => setattrTrace s object newAttributes guard
  | .write file offset count dataLen stable => writeTrace s file offset count dataLen stable
  | .commit file => commitTrace s file

/-- The inodes that the handler locks are different ones. -/
def LockingRequest.DistinctInodes (s : NfsState) : LockingRequest → Prop
  | .directories (.link file fh _) => ∀ inode dir, s.lookupFh file = some inode →
      s.lookupFh fh = some dir → inode.inum ≠ dir.inum
  | .directories (.rmdir fh name) => ∀ dir inode, s.lookupFh fh = some dir →
      refusedName name = false → s.getInode (dir.directoryLookup name) = some inode →
      inode.inum ≠ dir.inum
  | .directories (.rename fromFh _ toFh _) => ∀ dir1 dir2, s.lookupFh fromFh = some dir1 →
      s.lookupFh toFh = some dir2 → dir1.inum ≠ dir2.inum
  | _ => True

/-! ## The discipline -/

theorem Inode.lock_eq {i j : Inode} : i.lock = j.lock ↔ i.inum = j.inum := by
  rw [Inode.lock, Inode.lock, InodeLock.inode.injEq]

theorem Inode.lock_ne_created (i : Inode) : i.lock ≠ .created :=
  fun h => nomatch h

theorem setAttributesTrace_calls {attributes : Sattr3} {type : FileType} {l : InodeLock} :
    ∀ e ∈ setAttributesTrace attributes type l, ∃ f, e = .call f l := by
  intro e he
  rw [setAttributesTrace, List.mem_cons] at he
  rcases he with rfl | he
  · exact ⟨_, rfl⟩
  · split_ifs at he
    · rw [List.mem_singleton] at he
      exact ⟨_, he⟩
    · simp at he

/-- Creating an inode locks the directory and then the new inode. -/
theorem makeNodeTrace_disciplined (s : NfsState) (type : FileType) (attributes : Option Sattr3)
    (fh : Bytes) (name : CString) : Disciplined (makeNodeTrace s type attributes fh name) := by
  rw [makeNodeTrace]
  split
  · rfl
  · rename_i dir _
    split_ifs
    · simp [Disciplined, locksAfter]
    · simp [Disciplined, locksAfter]
    · have hcalls : locksAfter [.created, dir.lock] (attributes.elim [] fun attributes =>
          setAttributesTrace attributes type .created) = some [.created, dir.lock] := by
        apply locksAfter_calls
        intro e he
        cases attributes with
        | none => simp at he
        | some attributes =>
          rcases setAttributesTrace_calls e he with ⟨f, rfl⟩
          exact ⟨f, _, by simp, rfl⟩
      simp [Disciplined, locksAfter, locksAfter_append, hcalls, dir.lock_ne_created,
        dir.lock_ne_created.symm]

theorem removeTrace_disciplined (s : NfsState) (fh : Bytes) (name : CString) :
    Disciplined (removeTrace s fh name) := by
  rw [removeTrace]
  split
  · rfl
  · split_ifs <;> simp [Disciplined, locksAfter]

theorem setattrTrace_disciplined (s : NfsState) (object : Bytes) (newAttributes : Sattr3)
    (guard : Option NfsTime) : Disciplined (setattrTrace s object newAttributes guard) := by
  rw [setattrTrace]
  split
  · rfl
  · rename_i inode _
    split_ifs
    · simp [Disciplined, locksAfter]
    · have hcalls : locksAfter [inode.lock] (setAttributesTrace newAttributes inode.type
          inode.lock) = some [inode.lock] := by
        apply locksAfter_calls
        intro e he
        rcases setAttributesTrace_calls e he with ⟨f, rfl⟩
        exact ⟨f, _, by simp, rfl⟩
      simp [Disciplined, locksAfter, locksAfter_append, hcalls]

theorem writeTrace_disciplined (s : NfsState) (file : Bytes) (offset : BitVec 64)
    (count : BitVec 32) (dataLen : Nat) (stable : Bool) :
    Disciplined (writeTrace s file offset count dataLen stable) := by
  rw [writeTrace]
  split
  · rfl
  · split_ifs <;> simp [Disciplined, locksAfter]

theorem commitTrace_disciplined (s : NfsState) (file : Bytes) :
    Disciplined (commitTrace s file) := by
  rw [commitTrace]
  split
  · rfl
  · simp [Disciplined, locksAfter]

/-- RMDIR locks a directory twice if the name is bound to it. -/
theorem rmdirTrace_disciplined_iff (s : NfsState) (fh : Bytes) (name : CString) :
    Disciplined (rmdirTrace s fh name) ↔
      (LockingRequest.directories (.rmdir fh name)).DistinctInodes s := by
  rw [rmdirTrace]
  cases hdir : s.lookupFh fh with
  | none =>
    refine iff_of_true rfl ?_
    intro dir inode hdir'
    rw [hdir] at hdir'
    cases hdir'
  | some dir =>
    cases hname : refusedName name with
    | true =>
      refine iff_of_true (by simp [Disciplined, locksAfter]) ?_
      intro dir inode _ hname'
      rw [hname] at hname'
      cases hname'
    | false =>
      have hdistinct : (LockingRequest.directories (.rmdir fh name)).DistinctInodes s ↔
          ∀ inode, s.getInode (dir.directoryLookup name) = some inode → inode.inum ≠ dir.inum := by
        constructor
        · intro h inode hinode
          exact h dir inode hdir hname hinode
        · intro h dir' inode hdir' _ hinode
          rw [hdir, Option.some_inj] at hdir'
          subst hdir'
          exact h inode hinode
      rw [hdistinct]
      cases hinode : s.getInode (dir.directoryLookup name) with
      | none => simp [Disciplined, locksAfter, hinode]
      | some inode =>
        by_cases heq : inode.inum = dir.inum
        · simp [Disciplined, locksAfter, hinode, Inode.lock_eq, heq]
        · simp only [hinode, Option.some_inj]
          refine iff_of_true ?_ fun inode' h => h ▸ heq
          split_ifs <;> simp [Disciplined, locksAfter, Inode.lock_eq, heq, Ne.symm heq]

/-- LINK locks an inode twice if it is the target directory. -/
theorem linkTrace_disciplined_iff (s : NfsState) (file fh : Bytes) (name : CString) :
    Disciplined (linkTrace s file fh name) ↔
      (LockingRequest.directories (.link file fh name)).DistinctInodes s := by
  rw [linkTrace]
  cases hfile : s.lookupFh file with
  | none =>
    refine iff_of_true rfl ?_
    intro inode dir hfile'
    rw [hfile] at hfile'
    cases hfile'
  | some inode =>
    cases hdir : s.lookupFh fh with
    | none =>
      refine iff_of_true (by simp [Disciplined, locksAfter]) ?_
      intro inode dir _ hdir'
      rw [hdir] at hdir'
      cases hdir'
    | some dir =>
      have hdistinct : (LockingRequest.directories (.link file fh name)).DistinctInodes s ↔
          inode.inum ≠ dir.inum := by
        simp [LockingRequest.DistinctInodes, hfile, hdir]
      rw [hdistinct]
      by_cases heq : inode.inum = dir.inum
      · simp [Disciplined, locksAfter, Inode.lock_eq, heq]
      · refine iff_of_true ?_ heq
        dsimp only
        split_ifs <;> simp [Disciplined, locksAfter, Inode.lock_eq, heq, Ne.symm heq]

/-- `bluesky_rename` is fine while both directories are locked. -/
theorem locksAfter_renameCalls {dir1 dir2 : Inode} {held : List InodeLock}
    (h1 : dir1.lock ∈ held) (h2 : dir2.lock ∈ held) (name1 name2 : CString)
    (caseSensitive overwrite : Bool) :
    locksAfter held (renameCalls dir1 dir2 name1 name2 caseSensitive overwrite) = some held := by
  rw [renameCalls]
  split_ifs <;> simp [locksAfter, h1, h2]

/-- RENAME locks nothing if the two directories are the same. -/
theorem renameTrace_disciplined_iff (s : NfsState) (fromFh : Bytes) (fromName : CString)
    (toFh : Bytes) (toName : CString) :
    Disciplined (renameTrace s fromFh fromName toFh toName) ↔
      (LockingRequest.directories (.rename fromFh fromName toFh toName)).DistinctInodes s := by
  rw [renameTrace]
  cases hdir1 : s.lookupFh fromFh with
  | none =>
    refine iff_of_true rfl ?_
    intro dir1 dir2 hdir1'
    rw [hdir1] at hdir1'
    cases hdir1'
  | some dir1 =>
    cases hdir2 : s.lookupFh toFh with
    | none =>
      refine iff_of_true rfl ?_
      intro dir1 dir2 _ hdir2'
      rw [hdir2] at hdir2'
      cases hdir2'
    | some dir2 =>
      have hdistinct :
          (LockingRequest.directories (.rename fromFh fromName toFh toName)).DistinctInodes s ↔
            dir1.inum ≠ dir2.inum := by
        simp [LockingRequest.DistinctInodes, hdir1, hdir2]
      rw [hdistinct]
      by_cases heq : dir1.inum = dir2.inum
      · -- no lock is taken, and `bluesky_rename` is called all the same
        refine iff_of_false ?_ (not_not.mpr heq)
        simp [heq, Disciplined, locksAfter, renameCalls]
      · refine iff_of_true ?_ heq
        have hlock : dir1.lock ≠ dir2.lock := fun h => heq (Inode.lock_eq.mp h)
        dsimp only
        rw [if_pos heq]
        split_ifs with hlt hgt
        · simp [Disciplined, locksAfter, locksAfter_append, locksAfter_renameCalls,
            hlock, hlock.symm]
        · simp [Disciplined, locksAfter, locksAfter_append, locksAfter_renameCalls,
            hlock, hlock.symm]
        · exact absurd (BitVec.le_antisymm (BitVec.not_lt.mp hgt) (BitVec.not_lt.mp hlt)) heq

/-- A handler follows the discipline exactly if the inodes that it locks are different ones. -/
theorem lockTrace_disciplined_iff (s : NfsState) (request : LockingRequest) :
    Disciplined (request.lockTrace s) ↔ request.DistinctInodes s := by
  cases request with
  | directories request =>
    cases request with
    | create fh name => exact iff_of_true (makeNodeTrace_disciplined s _ _ fh name) trivial
    | mkdir fh name attributes =>
      exact iff_of_true (makeNodeTrace_disciplined s _ _ fh name) trivial
    | symlink fh name symlinkData =>
      exact iff_of_true (makeNodeTrace_disciplined s _ _ fh name) trivial
    | link file fh name => exact linkTrace_disciplined_iff s file fh name
    | remove fh name => exact iff_of_true (removeTrace_disciplined s fh name) trivial
    | rmdir fh name => exact rmdirTrace_disciplined_iff s fh name
    | rename fromFh fromName toFh toName =>
      exact renameTrace_disciplined_iff s fromFh fromName toFh toName
  | setattr object newAttributes guard =>
    exact iff_of_true (setattrTrace_disciplined s object newAttributes guard) trivial
  | write file offset count dataLen stable =>
    exact iff_of_true (writeTrace_disciplined s file offset count dataLen stable) trivial
  | commit file => exact iff_of_true (commitTrace_disciplined s file) trivial

/-- RENAME of `a` to `b` in the root directory, and LINK of the root directory as `a` in
itself. -/
theorem rename_link_undisciplined :
    ¬Disciplined ((LockingRequest.directories (.rename (fileHandle 1) ⟨[0x61], by decide⟩
        (fileHandle 1) ⟨[0x62], by decide⟩)).lockTrace (.fresh 0)) ∧
      ¬Disciplined ((LockingRequest.directories (.link (fileHandle 1) (fileHandle 1)
        ⟨[0x61], by decide⟩)).lockTrace (.fresh 0)) := by
  decide +kernel

/-! ## Handlers that wait for themselves -/

variable {s : NfsState}

/-- A LINK that locks an inode twice does not return. -/
theorem nfsproc3Link_relock {now : Int} {draws : List (BitVec 32)} {file fh : Bytes}
    {name : CString} (h : ¬Disciplined (linkTrace s file fh name)) :
    nfsproc3Link now draws s file fh name = none := by
  rw [linkTrace_disciplined_iff, LockingRequest.DistinctInodes] at h
  push Not at h
  rcases h with ⟨inode, dir, hfile, hdir, heq⟩
  rw [nfsproc3Link]
  simp only [hfile, hdir, if_pos heq]

/-- An RMDIR that locks an inode twice does not return. -/
theorem nfsproc3Rmdir_relock {now : Int} {fh : Bytes} {name : CString}
    (h : ¬Disciplined (rmdirTrace s fh name)) : nfsproc3Rmdir now s fh name = none := by
  rw [rmdirTrace_disciplined_iff, LockingRequest.DistinctInodes] at h
  push Not at h
  rcases h with ⟨dir, inode, hdir, hname, hinode, heq⟩
  rw [nfsproc3Rmdir]
  simp [hdir, hname, hinode, heq]

/-- A request other than RENAME that does not follow the discipline has no reply: its handler
waits for a lock that it holds. -/
theorem nfsCall_eq_none_of_relock {c : NfsCall}
    (hrename : ∀ fromFh fromName toFh toName, c.request ≠ .rename fromFh fromName toFh toName)
    (h : ¬Disciplined ((LockingRequest.directories c.request).lockTrace s)) :
    nfsCall s c = none := by
  rw [nfsCall]
  cases hrequest : c.request with
  | create fh name =>
    rw [hrequest] at h
    exact absurd (makeNodeTrace_disciplined s _ _ fh name) h
  | mkdir fh name attributes =>
    rw [hrequest] at h
    exact absurd (makeNodeTrace_disciplined s _ _ fh name) h
  | symlink fh name symlinkData =>
    rw [hrequest] at h
    exact absurd (makeNodeTrace_disciplined s _ _ fh name) h
  | link file fh name =>
    rw [hrequest] at h
    exact nfsproc3Link_relock h
  | remove fh name =>
    rw [hrequest] at h
    exact absurd (removeTrace_disciplined s fh name) h
  | rmdir fh name =>
    rw [hrequest] at h
    exact nfsproc3Rmdir_relock h
  | rename fromFh fromName toFh toName => exact absurd hrequest (hrename _ _ _ _)

end BlueSky
