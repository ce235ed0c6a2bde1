import BlueSky.Inode.Serialize
import BlueSky.Lib.Xdr
import BlueSky.Nfs.ListingProgress
import BlueSky.Nfs.ReadWrite

/-!
# The messages of NFS

The filters of `nfs3_prot_xdr.c` for the arguments and the results of the procedures.  A structure
is the pair of its fields in their order, where the handlers have no type of their own for it.
The filters have the names that they have there.
-/

namespace BlueSky

open ByteLib CStringLib XdrLib Xdr

variable {α β : Type}

/-! ## Parts of messages -/

/-- `xdr_nfs_fh3`, with `NFS3_FHSIZE`. -/
def xdrNfsFh3 : Xdr Bytes := counted 64

/-- `xdr_filename3` and `xdr_nfspath3`. -/
def xdrFilename3 : Xdr CString := string

/-- `xdr_cookieverf3`, `xdr_createverf3` and `xdr_writeverf3`. -/
def xdrVerf3 : Xdr Bytes := fixed 8

/-- `xdr_bytes` without a limit. -/
def xdrData : Xdr Bytes := counted (2 ^ 32 - 1)

def xdrSpecdata3 : Xdr (BitVec 32 × BitVec 32) := word.pair word

def xdrNfstime3 : Xdr NfsTime :=
  (word.pair word).struct (fun t => (t.seconds, t.nseconds)) (fun u => ⟨u.1, u.2⟩) (fun _ => rfl)
    fun _ => rfl

/-- `xdr_uint64` of a number. -/
def xdrUint64 : Xdr Nat :=
  quad.map (.exact (fun n => if n < 2 ^ 64 then some (BitVec.ofNat 64 n) else none) BitVec.toNat
    (by
      intro n q h
      rw [Option.ite_none_right_eq_some, Option.some_inj] at h
      rw [← h.2, BitVec.toNat_ofNat, Nat.mod_eq_of_lt h.1])
    (by
      intro q bytes _
      rw [if_pos q.isLt, BitVec.ofNat_toNat, BitVec.setWidth_eq]))

/-- `xdr_fattr3`; `used`, `rdev` and `fsid` are always zero. -/
def xdrFattr3 : Xdr Fattr3 :=
  ((enum FileType.code FileType.ofCode FileType.ofCode_code).pair (word.pair (word.pair (word.pair
    (word.pair (xdrUint64.pair ((ignored 24).pair (quad.pair (xdrNfstime3.pair (xdrNfstime3.pair
      xdrNfstime3)))))))))).struct
    (fun a => (a.type, a.mode, a.nlink, a.uid, a.gid, a.size, (), a.fileid, a.atime, a.mtime,
      a.ctime))
    (fun u => ⟨u.1, u.2.1, u.2.2.1, u.2.2.2.1, u.2.2.2.2.1, u.2.2.2.2.2.1, u.2.2.2.2.2.2.2.1,
      u.2.2.2.2.2.2.2.2.1, u.2.2.2.2.2.2.2.2.2.1, u.2.2.2.2.2.2.2.2.2.2⟩)
    (fun _ => rfl) fun _ => rfl

def xdrPostOpAttr : Xdr (Option Fattr3) := optional xdrFattr3

def xdrWccAttr : Xdr WccAttr :=
  (xdrUint64.pair (xdrNfstime3.pair xdrNfstime3)).struct (fun a => (a.size, a.mtime, a.ctime))
    (fun u => ⟨u.1, u.2.1, u.2.2⟩) (fun _ => rfl) fun _ => rfl

def xdrWccData : Xdr WccData :=
  ((optional xdrWccAttr).pair xdrPostOpAttr).struct (fun w => (w.before, w.after))
    (fun u => ⟨u.1, u.2⟩) (fun _ => rfl) fun _ => rfl

/-- `time_how`. -/
inductive TimeHow where
  | dontChange
  | setToServerTime
  | setToClientTime
deriving DecidableEq, Repr

/-- `xdr_time_how`.  The handlers take a value that is not known for `DONT_CHANGE`. -/
def xdrTimeHow : Xdr TimeHow :=
  enum
    (fun how => match how with | .dontChange => 0 | .setToServerTime => 1 | .setToClientTime => 2)
    (fun w => if w = 1 then .setToServerTime else if w = 2 then .setToClientTime else .dontChange)
    (by rintro (_ | _ | _) <;> rfl)

/-- `xdr_set_time`.  A time is sent with `SET_TO_CLIENT_TIME` only. -/
def xdrSetTime : Xdr SetTime :=
  (xdrTimeHow.union fun how => some (optionArm xdrNfstime3 (how == .setToClientTime))).map
    (.exact
      (fun set => match set with
        | .dontChange => some (.dontChange, none)
        | .serverTime => some (.setToServerTime, none)
        | .clientTime time => some (.setToClientTime, some time))
      (fun u => u.2.elim (if u.1 = .setToServerTime then .serverTime else .dontChange) .clientTime)
      (by rintro (_ | _ | time) u h <;> cases h <;> rfl)
      (by
        rintro ⟨_ | _ | _, _ | time⟩ bytes h <;>
          rcases union_encode.mp h with ⟨_, _, _, _, hd, hy, _⟩ <;> cases hd <;>
          first | rfl | cases hy))

def xdrSattr3 : Xdr Sattr3 :=
  ((optional word).pair ((optional word).pair ((optional word).pair ((optional quad).pair
    (xdrSetTime.pair xdrSetTime))))).struct
    (fun a => (a.mode, a.uid, a.gid, a.size, a.atime, a.mtime))
    (fun u => ⟨u.1, u.2.1, u.2.2.1, u.2.2.2.1, u.2.2.2.2.1, u.2.2.2.2.2⟩)
    (fun _ => rfl) fun _ => rfl

/-! ## Arguments -/

def xdrDiropargs3 := xdrNfsFh3.pair xdrFilename3

def xdrSetattr3args := xdrNfsFh3.pair (xdrSattr3.pair (optional xdrNfstime3))

def xdrAccess3args := xdrNfsFh3.pair word

/-- `xdr_read3args` and `xdr_commit3args`: the handle, the offset and the count. -/
def xdrRead3args := xdrNfsFh3.pair (quad.pair word)

def xdrStableHow : Xdr StableHow :=
  enum (fun s => match s with | .unstable => 0 | .dataSync => 1 | .fileSync => 2)
    (fun w => if w = 0 then .unstable else if w = 1 then .dataSync else .fileSync)
    (by rintro (_ | _ | _) <;> rfl)

/-- `xdr_write3args`: the handle, the offset, the count, how stable, and the data. -/
def xdrWrite3args := xdrNfsFh3.pair (quad.pair (word.pair (xdrStableHow.pair xdrData)))

/-- `xdr_createhow3`: `UNCHECKED` and `GUARDED` with attributes, `EXCLUSIVE` with a verifier. -/
def xdrCreatehow3 : Xdr (BitVec 32 × (Sattr3 ⊕ Bytes)) :=
  word.union fun mode =>
    if mode = 0 ∨ mode = 1 then some xdrSattr3.inl
    else if mode = 2 then some xdrVerf3.inr
    else none

def xdrCreate3args := xdrDiropargs3.pair xdrCreatehow3

def xdrMkdir3args := xdrDiropargs3.pair xdrSattr3

def xdrSymlink3args := xdrDiropargs3.pair (xdrSattr3.pair xdrFilename3)

/-- `xdr_mknoddata3`: devices, sockets and pipes, and nothing for other types. -/
def xdrMknoddata3 : Xdr (BitVec 32 × ((Sattr3 × BitVec 32 × BitVec 32) ⊕ Option Sattr3)) :=
  word.union fun type => some <|
    if type = 3 ∨ type = 4 then (xdrSattr3.pair xdrSpecdata3).inl
    else (optionArm xdrSattr3 (type == 6 || type == 7)).inr

def xdrMknod3args := xdrDiropargs3.pair xdrMknoddata3

def xdrRename3args := xdrDiropargs3.pair xdrDiropargs3

def xdrLink3args := xdrNfsFh3.pair xdrDiropargs3

/-- `xdr_readdir3args`: the handle, the cookie, its verifier and the count. -/
def xdrReaddir3args := xdrNfsFh3.pair (quad.pair (xdrVerf3.pair word))

/-- `xdr_readdirplus3args`, with two counts. -/
def xdrReaddirplus3args := xdrNfsFh3.pair (quad.pair (xdrVerf3.pair (word.pair word)))

/-! ## Results -/

/-- A result of which the contents depend on whether the status is `NFS3_OK`. -/
def xdrRes (ok : Xdr α) (fail : Xdr β) : Xdr (BitVec 32 × (α ⊕ β)) :=
  word.union fun status => some (if status = 0 then ok.inl else fail.inr)

/-- A result that has its contents whatever the status is, other than -1. -/
def xdrStat (res : Xdr α) : Xdr (BitVec 32 × Option α) :=
  word.union fun status => some (optionArm res (status != -1))

def xdrGetattr3res := xdrRes xdrFattr3 unit

def xdrWccstat3 := xdrStat xdrWccData

def xdrLookup3res := xdrRes (xdrNfsFh3.pair (xdrPostOpAttr.pair xdrPostOpAttr)) xdrPostOpAttr

def xdrAccess3res := xdrRes (xdrPostOpAttr.pair word) xdrPostOpAttr

def xdrReadlink3res := xdrRes (xdrPostOpAttr.pair xdrFilename3) xdrPostOpAttr

def xdrRead3res :=
  xdrRes (xdrPostOpAttr.pair (word.pair (bool.pair xdrData))) xdrPostOpAttr

def xdrWrite3res :=
  xdrRes (xdrWccData.pair (word.pair (xdrStableHow.pair xdrVerf3))) xdrWccData

def xdrDiropres3 :=
  xdrRes ((optional xdrNfsFh3).pair (xdrPostOpAttr.pair xdrWccData)) xdrWccData

def xdrRename3res := xdrStat (xdrWccData.pair xdrWccData)

def xdrLink3res := xdrStat (xdrPostOpAttr.pair xdrWccData)

/-- The entries of a directory; a message has fewer than this many words. -/
def xdrEntries (entry : Xdr α) : Xdr (List α) := list entry (2 ^ 32)

/-- `xdr_entry3`, less the pointer to the next one. -/
def xdrEntry3 : Xdr Entry3 :=
  (quad.pair (xdrFilename3.pair quad)).struct (fun e => (e.fileid, e.name, e.cookie))
    (fun u => ⟨u.1, u.2.1, u.2.2⟩) (fun _ => rfl) fun _ => rfl

/-- `xdr_entryplus3`, less the pointer to the next one. -/
def xdrEntryplus3 := xdrEntry3.pair (xdrPostOpAttr.pair (optional xdrNfsFh3))

/-- `xdr_readdir3resok` and `xdr_readdirplus3resok`. -/
def xdrDirlist (entry : Xdr α) := xdrPostOpAttr.pair (xdrVerf3.pair ((xdrEntries entry).pair bool))

def xdrReaddir3res := xdrRes (xdrDirlist xdrEntry3) xdrPostOpAttr

def xdrReaddirplus3res := xdrRes (xdrDirlist xdrEntryplus3) xdrPostOpAttr

/-- `xdr_fsstat3res`: six numbers and `invarsec`. -/
def xdrFsstat3res :=
  xdrRes (xdrPostOpAttr.pair (quad.pair (quad.pair (quad.pair (quad.pair (quad.pair (quad.pair
    word))))))) xdrPostOpAttr

/-- `xdr_fsinfo3res`: seven sizes, `maxfilesize`, `time_delta` and `properties`. -/
def xdrFsinfo3res :=
  xdrRes (xdrPostOpAttr.pair (word.pair (word.pair (word.pair (word.pair (word.pair (word.pair
    (word.pair (quad.pair (xdrNfstime3.pair word)))))))))) xdrPostOpAttr

/-- `xdr_pathconf3res`: two limits and four answers. -/
def xdrPathconf3res :=
  xdrRes (xdrPostOpAttr.pair (word.pair (word.pair (bool.pair (bool.pair (bool.pair bool))))))
    xdrPostOpAttr

def xdrCommit3res := xdrRes (xdrWccData.pair xdrVerf3) xdrWccData

end BlueSky
