import BlueSky.Inode.Model
import BlueSky.Lib.RecordMarking

/-!
# The NFS requests that change the namespace

The handlers of `nfs3.c` for CREATE, MKDIR, SYMLINK, LINK, REMOVE, RMDIR and RENAME, and
`bluesky_rename`.  Each handler runs under the locks of the inodes that it works on, so that
it is one step of the file system.  A handler that waits for a lock it holds, or that is
still drawing cookies, has not replied; it has the result {lean}`none`.  The handlers end
with `bluesky_inode_do_sync`, which writes inodes to the journal and changes no directory; it
is left out here.
-/

namespace BlueSky

open Function ByteLib CStringLib RecordMarkingLib

/-! ## Names and file handles -/

/-- A continuation byte of UTF-8. -/
def isContinuation (b : Byte) : Bool :=
  0x80 ≤ b.toNat && b.toNat ≤ 0xbf

/-- `g_utf8_validate`: no overlong forms, no surrogates, nothing above U+10FFFF. -/
def utf8Validate : Bytes → Bool
  | [] => true
  | b :: rest =>
    if b.toNat < 0x80 then utf8Validate rest
    else if 0xc2 ≤ b.toNat ∧ b.toNat ≤ 0xdf then
      match rest with
      | b1 :: rest => isContinuation b1 && utf8Validate rest
      | _ => false
    else if 0xe0 ≤ b.toNat ∧ b.toNat ≤ 0xef then
      match rest with
      | b1 :: b2 :: rest =>
        isContinuation b1 && isContinuation b2 &&
          !(b.toNat = 0xe0 ∧ b1.toNat < 0xa0) && !(b.toNat = 0xed ∧ 0xa0 ≤ b1.toNat) &&
          utf8Validate rest
      | _ => false
    else if 0xf0 ≤ b.toNat ∧ b.toNat ≤ 0xf4 then
      match rest with
      | b1 :: b2 :: b3 :: rest =>
        isContinuation b1 && isContinuation b2 && isContinuation b3 &&
          !(b.toNat = 0xf0 ∧ b1.toNat < 0x90) && !(b.toNat = 0xf4 ∧ 0x90 ≤ b1.toNat) &&
          utf8Validate rest
      | _ => false
    else false

/-- `validate_filename`. -/
def validateFilename (name : CString) : Bool :=
  !name.bytes.isEmpty && name.bytes.length ≤ 255 && utf8Validate name.bytes &&
    !name.bytes.contains 0x2f

/-- The names that the handlers refuse: those that are not valid, `.` and `..`. -/
def refusedName (name : CString) : Bool :=
  !validateFilename name || name.bytes == [0x2e] || name.bytes == [0x2e, 0x2e]

/-- The file handle of an inode number, in network byte order. -/
def fileHandle (inum : BitVec 64) : Bytes :=
  beBytes 8 inum.toNat

/-- The inode number in a file handle. -/
def handleInum (fh : Bytes) : Option (BitVec 64) :=
  if fh.length = 8 then some (BitVec.ofNat 64 (beNat fh)) else none

theorem handleInum_fileHandle (inum : BitVec 64) : handleInum (fileHandle inum) = some inum := by
  have hlength : (fileHandle inum).length = 8 := by simp [fileHandle]
  rw [handleInum, if_pos hlength, fileHandle, beNat_beBytes_of_lt (by simpa using inum.isLt),
    BitVec.ofNat_toNat, BitVec.setWidth_eq]

/-! ## Replies -/

/-- The values of `nfsstat3` that these handlers send. -/
inductive NfsStatus where
  | ok
  | perm
  | noent
  | exist
  | notdir
  | notempty
  | stale
deriving DecidableEq, Repr

/-- `nfstime3`. -/
structure NfsTime where
  seconds : BitVec 32
  nseconds : BitVec 32
deriving DecidableEq, Repr

/-- How the microseconds of an inode are sent. -/
def encodeNfstime3 (time : Int) : NfsTime where
  seconds := BitVec.ofInt 32 (time.tdiv 1000000)
  nseconds := BitVec.ofInt 32 (time.tmod 1000000 * 1000)

/-- `decode_nfstime3`. -/
def decodeNfstime3 (time : NfsTime) : Int :=
  time.seconds.toNat * 1000000 + time.nseconds.toNat / 1000

/-- `fattr3`, less the fields that are always zero. -/
structure Fattr3 where
  type : FileType
  mode : BitVec 32
  nlink : BitVec 32
  uid : BitVec 32
  gid : BitVec 32
  size : Nat
  fileid : BitVec 64
  atime : NfsTime
  mtime : NfsTime
  ctime : NfsTime
deriving DecidableEq, Repr

/-- `encode_fattr3`. -/
def encodeFattr3 (inode : Inode) : Fattr3 where
  type := inode.type
  mode := inode.mode
  nlink := inode.nlink
  uid := inode.uid
  gid := inode.gid
  size := if inode.type = .symlink then inode.symlinkContents.bytes.length else inode.size
  fileid := inode.inum
  atime := encodeNfstime3 inode.atime
  mtime := encodeNfstime3 inode.mtime
  ctime := encodeNfstime3 inode.ctime

/-- `wcc_attr`. -/
structure WccAttr where
  size : Nat
  mtime : NfsTime
  ctime : NfsTime
deriving DecidableEq, Repr

/-- `wcc_data`. -/
structure WccData where
  before : Option WccAttr := none
  after : Option Fattr3 := none
deriving DecidableEq, Repr

/-- `encode_pre_wcc`. -/
def encodePreWcc (inode : Inode) : WccData where
  before := some
    { size := inode.size, mtime := encodeNfstime3 inode.mtime
      ctime := encodeNfstime3 inode.ctime }

/-- A reply: the handle and the attributes of an object, and the attributes of the
directories before and after the request. -/
structure NfsReply where
  status : NfsStatus
  handle : Option Bytes := none
  attributes : Option Fattr3 := none
  wcc : WccData := {}
  toWcc : WccData := {}
deriving DecidableEq, Repr

/-! ## The state and its inodes -/

/-- The part of `BlueSkyFS` that the handlers use.  The table holds the inodes that
`bluesky_get_inode` finds, in memory or by fetching them. -/
structure NfsState where
  inodes : BitVec 64 → Option Inode
  nextInum : BitVec 64
  cacheDirty : Int

namespace NfsState

/-- `bluesky_get_inode`. -/
def getInode (s : NfsState) (inum : BitVec 64) : Option Inode :=
  if inum = 0 then none else s.inodes inum

/-- `lookup_fh`. -/
def lookupFh (s : NfsState) (fh : Bytes) : Option Inode :=
  (handleInum fh).bind s.getInode

/-- An inode with its changes, or a new one (`bluesky_insert_inode`). -/
def putInode (s : NfsState) (inode : Inode) : NfsState :=
  { s with inodes := update s.inodes inode.inum (some inode) }

/-- A new file system with its root directory, as `bluesky_init_fs` makes it. -/
def fresh (now : Int) : NfsState where
  inodes := update (fun _ => none) 1
    (some (Inode.updateCtime now true { newInode 1 .directory with nlink := 1, mode := 0o755 }))
  nextInum := 2
  cacheDirty := 0

end NfsState

/-- What a client wants a time to be set to. -/
inductive SetTime where
  | dontChange
  | serverTime
  | clientTime (time : NfsTime)
deriving DecidableEq, Repr

/-- `sattr3`. -/
structure Sattr3 where
  mode : Option (BitVec 32)
  uid : Option (BitVec 32)
  gid : Option (BitVec 32)
  size : Option (BitVec 64)
  atime : SetTime
  mtime : SetTime
deriving DecidableEq, Repr

/-- The new value of a time. -/
def SetTime.value (set : SetTime) (now old : Int) : Int :=
  match set with
  | dontChange => old
  | serverTime => now
  | clientTime time => decodeNfstime3 time

/-- The part of `set_attributes` that sets the size of a file. -/
def setSize (now : Int) (size : Option (BitVec 64)) (cacheDirty : Int) (inode : Inode) :
    Option (Int × Inode) :=
  match size with
  | none => some (cacheDirty, inode)
  | some size =>
    if inode.type = .regular then
      (fileTruncate now { cacheDirty := cacheDirty, inode := inode.toFileInode } size.toNat).map
        fun ctx => (ctx.cacheDirty, { inode with toFileInode := { ctx.inode with mtime := now } })
    else some (cacheDirty, inode)

/-- `set_attributes`, with the counter of dirty blocks. -/
def setAttributes (now : Int) (attributes : Sattr3) (cacheDirty : Int) (inode : Inode) :
    Option (Int × Inode) :=
  (setSize now attributes.size cacheDirty
    { inode with
      mode := attributes.mode.getD inode.mode
      uid := attributes.uid.getD inode.uid
      gid := attributes.gid.getD inode.gid }).map fun result =>
        (result.1, Inode.updateCtime now false
          { result.2 with
            atime := attributes.atime.value now result.2.atime
            mtime := attributes.mtime.value now result.2.mtime })

/-! ## The handlers -/

/-- The inode that CREATE, MKDIR and SYMLINK make. -/
def newNode (now : Int) (inum : BitVec 64) (type : FileType) (symlinkContents : CString) : Inode :=
  { newInode inum type with
    nlink := 1
    mode := 0o755
    mtime := now
    ctime := now
    atime := now
    ntime := now
    symlinkContents := symlinkContents }

/-- The attributes that the client asks for, if the request has any. -/
def setInitial (now : Int) (attributes : Option Sattr3) (cacheDirty : Int) (inode : Inode) :
    Option (Int × Inode) :=
  match attributes with
  | none => some (cacheDirty, inode)
  | some attributes => setAttributes now attributes cacheDirty inode

/-- What CREATE, MKDIR and SYMLINK have in common.  They do not look at the result of
`bluesky_directory_insert`; only MKDIR sets the attributes that the client asks for. -/
def makeNode (type : FileType) (symlinkContents : CString) (attributes : Option Sattr3)
    (now : Int) (draws : List (BitVec 32)) (s : NfsState) (fh : Bytes) (name : CString) :
    Option (NfsState × NfsReply) :=
  match s.lookupFh fh with
  | none => some (s, { status := .stale })
  | some dir =>
    let wcc := encodePreWcc dir
    if dir.type ≠ .directory then some (s, { status := .notdir, wcc := wcc })
    else if refusedName name then some (s, { status := .exist, wcc := wcc })
    else do
      let inum := s.nextInum
      let file := newNode now inum type symlinkContents
      let inserted ← dir.directoryInsert now draws name inum
      let made ← setInitial now attributes s.cacheDirty file
      let dir := Inode.updateCtime now true inserted.1
      let file := Inode.updateCtime now false made.2
      some
        ({ inodes := update (update s.inodes dir.inum (some dir)) inum
            (some file)
           nextInum := s.nextInum + 1
           cacheDirty := made.1 },
          { status := .ok
            handle := some (fileHandle inum)
            attributes := some (encodeFattr3 file)
            wcc := { wcc with after := some (encodeFattr3 dir) } })

/-- `nfsproc3_create_3_svc`. -/
def nfsproc3Create := makeNode .regular .empty none

/-- `nfsproc3_mkdir_3_svc`. -/
def nfsproc3Mkdir (attributes : Sattr3) := makeNode .directory .empty (some attributes)

/-- `nfsproc3_symlink_3_svc`. -/
def nfsproc3Symlink (symlinkData : CString) := makeNode .symlink symlinkData none

/-- `nfsproc3_remove_3_svc`.  It checks neither that the handle is that of a directory nor that
the name exists. -/
def nfsproc3Remove (now : Int) (s : NfsState) (fh : Bytes) (name : CString) :
    Option (NfsState × NfsReply) :=
  match s.lookupFh fh with
  | none => some (s, { status := .stale })
  | some dir =>
    let wcc := encodePreWcc dir
    if refusedName name then some (s, { status := .noent, wcc := wcc })
    else
      let dir := (dir.directoryRemove now name).1
      some (s.putInode dir, { status := .ok, wcc := { wcc with after := some (encodeFattr3 dir) } })

/-- `nfsproc3_rmdir_3_svc`.  It locks the directory and then what the name is bound to. -/
def nfsproc3Rmdir (now : Int) (s : NfsState) (fh : Bytes) (name : CString) :
    Option (NfsState × NfsReply) :=
  match s.lookupFh fh with
  | none => some (s, { status := .stale })
  | some dir =>
    let wcc := encodePreWcc dir
    if refusedName name then some (s, { status := .noent, wcc := wcc })
    else
      match s.getInode (dir.directoryLookup name) with
      | none => some (s, { status := .noent, wcc := wcc })
      | some inode =>
        if inode.inum = dir.inum then none
        else if inode.type ≠ .directory then some (s, { status := .notdir, wcc := wcc })
        else if 0 < inode.dir.dirents.length then
          some (s, { status := .notempty, wcc := wcc })
        else
          let dir := (dir.directoryRemove now name).1
          some (s.putInode dir,
            { status := .ok, wcc := { wcc with after := some (encodeFattr3 dir) } })

/-- `nfsproc3_link_3_svc`.  It locks the inode and then the directory. -/
def nfsproc3Link (now : Int) (draws : List (BitVec 32)) (s : NfsState) (file fh : Bytes)
    (name : CString) : Option (NfsState × NfsReply) :=
  match s.lookupFh file with
  | none => some (s, { status := .stale })
  | some inode =>
    match s.lookupFh fh with
    | none => some (s, { status := .stale })
    | some dir =>
      if inode.inum = dir.inum then none
      else
        let wcc := encodePreWcc dir
        if dir.type ≠ .directory then some (s, { status := .notdir, wcc := wcc })
        else if refusedName name ∨ dir.directoryLookup name ≠ 0 then
          some (s, { status := .exist, wcc := wcc })
        else do
          let inserted ← dir.directoryInsert now draws name inode.inum
          if inserted.2 then
            let inode := Inode.updateCtime now false { inode with nlink := inode.nlink + 1 }
            let dir := Inode.updateCtime now true inserted.1
            some ((s.putInode inode).putInode dir,
              { status := .ok
                attributes := some (encodeFattr3 inode)
                wcc := { wcc with after := some (encodeFattr3 dir) } })
          else some (s, { status := .exist, wcc := wcc })

/-- The entry that `bluesky_rename` finds for a name. -/
def Inode.entry (inode : Inode) (caseSensitive : Bool) (name : CString) : Option DirEntry :=
  if caseSensitive then inode.dir.dirhash name else inode.dir.dirhashFolded name

/-- Removes a name from the directory with the given number. -/
def NfsState.removeName (s : NfsState) (now : Int) (inum : BitVec 64) (name : CString) :
    NfsState :=
  match s.inodes inum with
  | none => s
  | some dir => s.putInode (dir.directoryRemove now name).1

/-- `bluesky_rename` of a name in the directory {lit}`inum1` to one in the directory
{lit}`inum2`, which may be the same. -/
def NfsState.rename (s : NfsState) (now : Int) (draws : List (BitVec 32)) (inum1 : BitVec 64)
    (name1 : CString) (inum2 : BitVec 64) (name2 : CString) (caseSensitive overwrite : Bool) :
    Option (NfsState × Bool) := do
  let dir1 ← s.inodes inum1
  let dir2 ← s.inodes inum2
  if dir1.type ≠ .directory ∨ dir2.type ≠ .directory then some (s, false)
  else
    match dir1.entry caseSensitive name1 with
    | none => some (s, false)
    | some d1 =>
      let target := dir2.entry caseSensitive name2
      if target ≠ none ∧ overwrite = false then some (s, false)
      else do
        let s := if target ≠ none then s.removeName now inum2 name2 else s
        let s := s.removeName now inum1 name1
        let dir2 ← s.inodes inum2
        let inserted ← dir2.directoryInsert now draws name2 d1.inum
        some (s.putInode inserted.1, true)

/-- `nfsproc3_rename_3_svc`.  Both replies to the state before are those of the source
directory. -/
def nfsproc3Rename (now : Int) (draws : List (BitVec 32)) (s : NfsState) (fromFh : Bytes)
    (fromName : CString) (toFh : Bytes) (toName : CString) : Option (NfsState × NfsReply) :=
  match s.lookupFh fromFh with
  | none => some (s, { status := .stale })
  | some dir1 =>
    match s.lookupFh toFh with
    | none => some (s, { status := .stale })
    | some dir2 => do
        let renamed ← s.rename now draws dir1.inum fromName dir2.inum toName true true
        let after1 ← renamed.1.inodes dir1.inum
        let after2 ← renamed.1.inodes dir2.inum
        some (renamed.1,
          { status := if renamed.2 then .ok else .perm
            wcc := { encodePreWcc dir1 with after := some (encodeFattr3 after1) }
            toWcc := { encodePreWcc dir1 with after := some (encodeFattr3 after2) } })

/-- The requests that change the namespace. -/
inductive NfsRequest where
  | create (fh : Bytes) (name : CString)
  | mkdir (fh : Bytes) (name : CString) (attributes : Sattr3)
  | symlink (fh : Bytes) (name symlinkData : CString)
  | link (file fh : Bytes) (name : CString)
  | remove (fh : Bytes) (name : CString)
  | rmdir (fh : Bytes) (name : CString)
  | rename (fromFh : Bytes) (fromName : CString) (toFh : Bytes) (toName : CString)
deriving DecidableEq, Repr

/-- A request, with the time at which it is handled and the random draws for it. -/
structure NfsCall where
  now : Int
  draws : List (BitVec 32)
  request : NfsRequest
deriving DecidableEq, Repr

/-- The handler of a request. -/
def nfsCall (s : NfsState) (c : NfsCall) : Option (NfsState × NfsReply) :=
  match c.request with
  | .create fh name => nfsproc3Create c.now c.draws s fh name
  | .mkdir fh name attributes => nfsproc3Mkdir attributes c.now c.draws s fh name
  | .symlink fh name symlinkData => nfsproc3Symlink symlinkData c.now c.draws s fh name
  | .link file fh name => nfsproc3Link c.now c.draws s file fh name
  | .remove fh name => nfsproc3Remove c.now s fh name
  | .rmdir fh name => nfsproc3Rmdir c.now s fh name
  | .rename fromFh fromName toFh toName =>
    nfsproc3Rename c.now c.draws s fromFh fromName toFh toName

/-- No attributes. -/
def noAttributes : Sattr3 := ⟨none, none, none, none, .dontChange, .dontChange⟩

/-- MKDIR of `a` in the root directory. -/
def mkdirA : NfsCall := ⟨0, [4], .mkdir (fileHandle 1) nameA noAttributes⟩

end BlueSky
