import BlueSky.Directory
import BlueSky.File.Model

/-!
# Inodes

`BlueSkyInode` with its metadata and, depending on its type, the blocks of a file, the entries
of a directory or the text of a symbolic link.
-/

namespace BlueSky

open ByteLib CStringLib

/-- `BlueSkyInode`: the fields of regular files, metadata, and the fields of directories and
symbolic links.  The text of a link is empty instead of missing in other inodes. -/
structure Inode extends FileInode where
  mode : BitVec 32
  uid : BitVec 32
  gid : BitVec 32
  nlink : BitVec 32
  changeCommit : Nat
  atime : Int
  ntime : Int
  dir : Directory
  symlinkContents : CString

/-- `bluesky_init_inode`. -/
def Inode.initInode (inode : Inode) (type : FileType) : Inode :=
  match type with
  | .regular => { inode with type := type, blocks := [] }
  | .directory => { inode with type := type, dir := .empty }
  | _ => { inode with type := type }

/-- `bluesky_new_inode`. -/
def newInode (inum : BitVec 64) (type : FileType) : Inode :=
  Inode.initInode
    { type := .pending, inum := inum, size := 0, blocks := [], changeCount := 1, ctime := 0
      mtime := 0, changeTime := 0, mode := 0, uid := 0, gid := 0, nlink := 0, changeCommit := 0
      atime := 0, ntime := 0, dir := .empty, symlinkContents := .empty } type

/-- `bluesky_inode_update_ctime`. -/
def Inode.updateCtime (now : Int) (updateMtime : Bool) (inode : Inode) : Inode :=
  { inode with toFileInode := BlueSky.updateCtime now updateMtime inode.toFileInode }

/-- `bluesky_directory_lookup`. -/
def Inode.directoryLookup (inode : Inode) (name : CString) : BitVec 64 :=
  if inode.type = .directory then inode.dir.lookup name else 0

/-- `bluesky_directory_insert`. -/
def Inode.directoryInsert (now : Int) (draws : List (BitVec 32)) (inode : Inode)
    (name : CString) (inum : BitVec 64) : Option (Inode × Bool) :=
  if inode.type = .directory then
    (inode.dir.insert draws name inum).map fun result =>
      if result.2 then (Inode.updateCtime now true { inode with dir := result.1 }, true)
      else (inode, false)
  else some (inode, false)

/-- `bluesky_directory_remove`. -/
def Inode.directoryRemove (now : Int) (inode : Inode) (name : CString) : Inode × Bool :=
  if inode.type = .directory then
    if (inode.dir.remove name).2 then
      (Inode.updateCtime now true { inode with dir := (inode.dir.remove name).1 }, true)
    else ({ inode with dir := (inode.dir.remove name).1 }, false)
  else (inode, false)

end BlueSky
