import BlueSky.Nfs.RpcHeader
import BlueSky.Nfs.Xdr

/-!
# The NFS server

What the server makes of the bytes of a request: `async_rpc_dispatch` takes the header apart,
`nfs_program_3` selects a procedure, decodes its arguments and calls its handler, and
`async_rpc_send_reply` or `async_rpc_send_failure` sends one record.  The handlers that are not part
of the other modules are here.

Main results:

- Theorem {lit}`nfs_call_answered`: a call that a client encodes is handled with these arguments,
  and the client decodes the result of the handler.
- Theorem {lit}`nfsProgram3_replies`: every request gets one reply of whole words, and arguments are
  handed to a handler only if they have a representation that fits into the request.
- Theorem {lit}`readdirplus_reply_size`: the sizes that READDIRPLUS counts are those of its reply.
-/

namespace BlueSky

open Function List Option ByteLib CStringLib RecordMarkingLib XdrLib Xdr

variable {α β : Type}

/-! ## Handlers -/

/-- What the handlers use besides the file system: the time, random numbers,
`nfsd_instance_verf_cookie` and the identifiers of new log items. -/
structure NfsContext where
  now : Int
  draws : List (BitVec 32)
  verf : Bytes
  ids : Nat → CloudId

/-- The values of `nfsstat3`. -/
def NfsStatus.code : NfsStatus → BitVec 32
  | ok => 0
  | perm => 1
  | noent => 2
  | exist => 17
  | notdir => 20
  | notempty => 66
  | stale => 70

/-- The reply to a request that names an inode, if there is one. -/
def NfsState.withInode (s : NfsState) (fh : Bytes) (stale : β) (f : Inode → BitVec 32 × (α ⊕ β)) :
    BitVec 32 × (α ⊕ β) :=
  (s.lookupFh fh).elim (NfsStatus.stale.code, .inr stale) f

def nfsproc3Getattr (s : NfsState) (fh : Bytes) : BitVec 32 × (Fattr3 ⊕ Unit) :=
  s.withInode fh () fun inode => (0, .inl (encodeFattr3 inode))

/-- `bluesky_inode_do_sync`, as far as the file is concerned. -/
def NfsState.doSync (ids : Nat → CloudId) (s : NfsState) (inode : Inode) :
    Option (NfsState × Inode) :=
  let ctx : FileCtx := { cacheDirty := s.cacheDirty, inode := inode.toFileInode }
  (if inode.type = .regular then writeSyncs ids ctx .fileSync else some ctx).map fun ctx =>
    (s.putFile inode ctx, { inode with toFileInode := ctx.inode })

def nfsproc3Setattr (ctx : NfsContext) (s : NfsState) (fh : Bytes) (attributes : Sattr3)
    (guard : Option NfsTime) : Option (NfsState × (BitVec 32 × Option WccData)) :=
  match s.lookupFh fh with
  | none => some (s, NfsStatus.stale.code, some {})
  | some inode =>
    let reply := fun status after =>
      (status, some { encodePreWcc inode with after := some (encodeFattr3 after) })
    if guard.all fun ctime => inode.ctime = decodeNfstime3 ctime then
      (setAttributes ctx.now attributes s.cacheDirty inode).bind fun set =>
        (NfsState.doSync ctx.ids { s with cacheDirty := set.1 } set.2).map fun r =>
          (r.1, reply 0 set.2)
    else some (s, reply 10002 inode)

def nfsproc3Lookup (s : NfsState) (fh : Bytes) (name : CString) :
    BitVec 32 × ((Bytes × Option Fattr3 × Option Fattr3) ⊕ Option Fattr3) :=
  s.withInode fh none fun dir =>
    if validateFilename name then
      let inum := dir.directoryLookup name
      match s.getInode inum with
      | none => (NfsStatus.noent.code, .inr (some (encodeFattr3 dir)))
      | some inode =>
        (0, .inl (fileHandle inum, some (encodeFattr3 inode), some (encodeFattr3 dir)))
    else (if 255 < name.bytes.length then 63 else 2, .inr (some (encodeFattr3 dir)))

def nfsproc3Access (s : NfsState) (fh : Bytes) (access : BitVec 32) :
    BitVec 32 × ((Option Fattr3 × BitVec 32) ⊕ Option Fattr3) :=
  s.withInode fh none fun inode => (0, .inl (some (encodeFattr3 inode), access))

def nfsproc3Readlink (s : NfsState) (fh : Bytes) :
    BitVec 32 × ((Option Fattr3 × CString) ⊕ Option Fattr3) :=
  s.withInode fh none fun inode =>
    if inode.type = .symlink then (0, .inl (some (encodeFattr3 inode), inode.symlinkContents))
    else (22, .inr (some (encodeFattr3 inode)))

def nfsproc3Commit (ctx : NfsContext) (s : NfsState) (fh : Bytes) :
    Option (NfsState × (BitVec 32 × ((WccData × Bytes) ⊕ WccData))) :=
  match s.lookupFh fh with
  | none => some (s, NfsStatus.stale.code, .inr {})
  | some inode => (s.doSync ctx.ids inode).map fun r =>
    (r.1, 0, .inl ({ encodePreWcc inode with after := some (encodeFattr3 r.2) }, ctx.verf))

/-! ## Procedures -/

/-- A procedure: how its arguments and results are sent, and its handler. -/
structure NfsProcedure where
  Args : Type
  Res : Type
  xdrArgument : Xdr Args
  xdrResult : Xdr Res
  call : NfsContext → NfsState → Args → Option (NfsState × Res)

/-- The handlers of requests that change the namespace. -/
def callNfs (request : α → NfsRequest) (result : NfsReply → β) (ctx : NfsContext) (s : NfsState)
    (args : α) : Option (NfsState × β) :=
  (nfsCall s ⟨ctx.now, ctx.draws, request args⟩).map fun r => (r.1, result r.2)

/-- The handlers of requests that change nothing. -/
def callQuery (query : NfsState → α → Option β) (_ : NfsContext) (s : NfsState) (args : α) :
    Option (NfsState × β) :=
  (query s args).map fun result => (s, result)

namespace NfsReply

def diropres3 (r : NfsReply) : BitVec 32 × ((Option Bytes × Option Fattr3 × WccData) ⊕ WccData) :=
  (r.status.code, if r.status = .ok then .inl (r.handle, r.attributes, r.wcc) else .inr r.wcc)

def wccstat3 (r : NfsReply) : BitVec 32 × Option WccData :=
  (r.status.code, some r.wcc)

def rename3res (r : NfsReply) : BitVec 32 × Option (WccData × WccData) :=
  (r.status.code, some (r.wcc, r.toWcc))

def link3res (r : NfsReply) : BitVec 32 × Option (Option Fattr3 × WccData) :=
  (r.status.code, some (r.attributes, r.wcc))

end NfsReply

/-- `read3res`.  What is sent is what was copied, unless the lengths differ. -/
def ReadReply.read3res (r : ReadReply) (buf : Bytes) :
    Option (BitVec 32 × ((Option Fattr3 × BitVec 32 × Bool × Bytes) ⊕ Option Fattr3)) :=
  if r.dataLen.toNat ≠ buf.length then none
  else some (r.status.code,
    if r.status = .ok then .inl (r.attributes, r.count, r.eof, buf) else .inr r.attributes)

def WriteReply.write3res (r : WriteReply) :
    BitVec 32 × ((WccData × BitVec 32 × StableHow × Bytes) ⊕ WccData) :=
  match r.status with
  | .ok => (0, .inl (r.wcc, r.count, r.committed, r.verf))
  | .inval => (22, .inr r.wcc)
  | .stale => (NfsStatus.stale.code, .inr r.wcc)

/-- `readdir3res` and `readdirplus3res`. -/
def DirList.result (l : DirList α) (entry : α → β) :
    BitVec 32 × ((Option Fattr3 × Bytes × List β × Bool) ⊕ Option Fattr3) :=
  (l.status.code,
    if l.status = .ok then .inl (l.dirAttributes, zeros 8, l.entries.map entry, l.eof)
    else .inr l.dirAttributes)

def EntryPlus3.fields (e : EntryPlus3) : Entry3 × Option Fattr3 × Option Bytes :=
  (e.toEntry3, some e.nameAttributes, some e.nameHandle)

/-- The `switch` of `nfs_program_3`. -/
def nfsProcedure : Nat → Option NfsProcedure
  | 0 => some ⟨_, _, unit, unit, callQuery fun _ _ => some ()⟩
  | 1 => some ⟨_, _, xdrNfsFh3, xdrGetattr3res, callQuery fun s fh => nfsproc3Getattr s fh⟩
  | 2 => some ⟨_, _, xdrSetattr3args, xdrWccstat3,
      fun ctx s a => nfsproc3Setattr ctx s a.1 a.2.1 a.2.2⟩
  | 3 => some ⟨_, _, xdrDiropargs3, xdrLookup3res, callQuery fun s a => nfsproc3Lookup s a.1 a.2⟩
  | 4 => some ⟨_, _, xdrAccess3args, xdrAccess3res, callQuery fun s a => nfsproc3Access s a.1 a.2⟩
  | 5 => some ⟨_, _, xdrNfsFh3, xdrReadlink3res, callQuery fun s fh => nfsproc3Readlink s fh⟩
  | 6 => some ⟨_, _, xdrRead3args, xdrRead3res, fun _ s a =>
    (nfsproc3Read s a.1 a.2.1 a.2.2).bind fun r =>
      (r.2.1.read3res r.2.2).map fun result => (r.1, result)⟩
  | 7 => some ⟨_, _, xdrWrite3args, xdrWrite3res, fun ctx s a =>
    (nfsproc3Write ctx.now ctx.verf ctx.ids s a.1 a.2.1 a.2.2.1 a.2.2.2.1 a.2.2.2.2).map
      fun r => (r.1, r.2.write3res)⟩
  | 8 => some ⟨_, _, xdrCreate3args, xdrDiropres3,
      callNfs (fun a => .create a.1.1 a.1.2) NfsReply.diropres3⟩
  | 9 => some ⟨_, _, xdrMkdir3args, xdrDiropres3,
      callNfs (fun a => .mkdir a.1.1 a.1.2 a.2) NfsReply.diropres3⟩
  | 10 => some ⟨_, _, xdrSymlink3args, xdrDiropres3,
      callNfs (fun a => .symlink a.1.1 a.1.2 a.2.2) NfsReply.diropres3⟩
  | 11 => some ⟨_, _, xdrMknod3args, xdrDiropres3, callQuery fun _ _ => some (10004, .inr {})⟩
  | 12 => some ⟨_, _, xdrDiropargs3, xdrWccstat3,
      callNfs (fun a => .remove a.1 a.2) NfsReply.wccstat3⟩
  | 13 => some ⟨_, _, xdrDiropargs3, xdrWccstat3,
      callNfs (fun a => .rmdir a.1 a.2) NfsReply.wccstat3⟩
  | 14 => some ⟨_, _, xdrRename3args, xdrRename3res,
      callNfs (fun a => .rename a.1.1 a.1.2 a.2.1 a.2.2) NfsReply.rename3res⟩
  | 15 => some ⟨_, _, xdrLink3args, xdrLink3res,
      callNfs (fun a => .link a.1 a.2.1 a.2.2) NfsReply.link3res⟩
  | 16 => some ⟨_, _, xdrReaddir3args, xdrReaddir3res, callQuery fun s a =>
    (nfsproc3Readdir s a.1 a.2.1).map fun l => l.result id⟩
  | 17 => some ⟨_, _, xdrReaddirplus3args, xdrReaddirplus3res, callQuery fun s a =>
    (nfsproc3Readdirplus s a.1 a.2.1 a.2.2.2.1 a.2.2.2.2).map fun l =>
      l.result EntryPlus3.fields⟩
  | 18 => some ⟨_, _, xdrNfsFh3, xdrFsstat3res, callQuery fun s fh =>
    some <| s.withInode fh none fun inode =>
      (0, .inl (some (encodeFattr3 inode), 2 ^ 30, 2 ^ 30, 2 ^ 30, 0, 0, 0, 0))⟩
  | 19 => some ⟨_, _, xdrNfsFh3, xdrFsinfo3res, callQuery fun s _ =>
    (s.getInode 1).map fun root => (0, .inl (some (encodeFattr3 root), 2 ^ 20, 2 ^ 20, 2 ^ 15,
      2 ^ 20, 2 ^ 20, 2 ^ 15, 2 ^ 15, 2 ^ 63 - 1, ⟨0, 1000⟩, 0x1b))⟩
  | 20 => some ⟨_, _, xdrNfsFh3, xdrPathconf3res, callQuery fun s _ =>
    (s.getInode 1).map fun root =>
      (0, .inl (some (encodeFattr3 root), 2 ^ 32 - 1, 255, true, true, false, true))⟩
  | 21 => some ⟨_, _, xdrRead3args, xdrCommit3res, fun ctx s a => nfsproc3Commit ctx s a.1⟩
  | _ => none

/-! ## Requests and replies -/

/-- The header of `async_rpc_send_reply` and `async_rpc_send_failure`. -/
def rpcReplyHeader (xid acceptStat : Nat) : Bytes :=
  [xid, 1, 0, 0, 0, acceptStat].flatMap (beBytes 4)

/-- `nfs_program_3`, up to the message that is sent. -/
def nfsProgram3 (ctx : NfsContext) (s : NfsState) (req : RpcRequest) : Option (NfsState × Bytes) :=
  match nfsProcedure req.reqProc with
  | none => some (s, rpcReplyHeader req.xid 3)
  | some p =>
    match p.xdrArgument.decode (req.rawArgs.drop req.rawArgsHeaderBytes) with
    | none => some (s, rpcReplyHeader req.xid 4)
    | some args =>
      (p.call ctx s args.1).map fun r =>
        (r.1, (p.xdrResult.encode r.2).elim (rpcReplyHeader req.xid 5)
          (rpcReplyHeader req.xid 0 ++ ·))

/-- `async_rpc_dispatch` and what follows it; nothing is sent if the channel is closed. -/
def asyncRpcServe (ctx : NfsContext) (s : NfsState) (msg : Bytes) :
    Option (NfsState × Option Bytes) :=
  match asyncRpcDispatch msg with
  | .invalid => some (s, none)
  | .progUnavail xid => some (s, some (rpcReplyHeader xid 1))
  | .request req => (nfsProgram3 ctx s req).map fun r => (r.1, some r.2)

/-- What is written to a stream for a message. -/
def rpcRecord (msg : Bytes) : Bytes :=
  beBytes 4 ((msg.length ||| 2 ^ 31) % 2 ^ 32) ++ msg

/-- How a client reads a record of one fragment. -/
def readRecord (buf : Bytes) : Option (Bytes × Bytes) :=
  if 2 ^ 31 ≤ ntohlAt buf 0 ∧ ntohlAt buf 0 - 2 ^ 31 ≤ buf.length - 4 then
    some (slice buf 4 (ntohlAt buf 0 - 2 ^ 31), buf.drop (4 + (ntohlAt buf 0 - 2 ^ 31)))
  else none

theorem length_rpcReplyHeader (xid stat : Nat) : (rpcReplyHeader xid stat).length = 24 := by
  simp [rpcReplyHeader]

/-- A message in one fragment is read back. -/
theorem readRecord_rpcRecord {msg : Bytes} (h : msg.length < 2 ^ 31) (rest : Bytes) :
    readRecord (rpcRecord msg ++ rest) = some (msg, rest) := by
  have hmark : (msg.length ||| 2 ^ 31) % 2 ^ 32 = 2 ^ 31 + msg.length := by
    have hor := Nat.two_pow_add_eq_or_of_lt h 1
    rw [Nat.mul_one, Nat.lor_comm] at hor
    omega
  have hread : ntohlAt (beBytes 4 (2 ^ 31 + msg.length) ++ (msg ++ rest)) 0 =
      2 ^ 31 + msg.length := by
    have hword := @ntohlAt_words [2 ^ 31 + msg.length] 0 _ (msg ++ rest) rfl (by omega)
    rwa [flatMap_singleton, Nat.mul_zero] at hword
  rw [rpcRecord, hmark, append_assoc, readRecord, hread, Nat.add_sub_cancel_left, if_pos (by simp)]
  congr 2
  · simp [slice]
  · rw [← append_assoc, drop_left' (by simp)]

/-- A call whose authentication bodies need no padding is dispatched with its arguments. -/
theorem RpcCall.dispatched (c : RpcCall) (hcred : 4 ∣ c.cred.length) (hverf : 4 ∣ c.verf.length) :
    asyncRpcDispatch c.encode = .request ⟨c.xid, c.proc, c.encode, c.header.length⟩ := by
  have hheader := c.length_header
  have hle := c.verf_le
  have hlength : c.encode.length = c.header.length + c.args.length := length_append
  rw [c.asyncRpcDispatch_encode]
  unfold padding at hheader
  rcases c.verifierLength_cases with ⟨_, _, hread⟩ | h | h | h
  · rw [if_pos (by omega)]
    congr 2
    omega
  all_goals omega

/-- A call of a procedure with arguments that a client has encoded is handled with these arguments,
and from the record that the server sends the client gets the identifier of its call and the result
of the handler, whatever follows in the stream. -/
theorem nfs_call_answered {c : RpcCall} {p : NfsProcedure} {args : p.Args} {ctx : NfsContext}
    {s s' : NfsState} {result : p.Res} {body : Bytes} (hproc : nfsProcedure c.proc = some p)
    (hcred : 4 ∣ c.cred.length) (hverf : 4 ∣ c.verf.length)
    (hargs : p.xdrArgument.encode args = some c.args)
    (hcall : p.call ctx s args = some (s', result))
    (hbody : p.xdrResult.encode result = some body) (hsize : 24 + body.length < 2 ^ 31) :
    ∃ msg, asyncRpcServe ctx s c.encode = some (s', some msg) ∧
      ∀ rest, readRecord (rpcRecord msg ++ rest) = some (msg, rest) ∧
        ((fixed 24).pair p.xdrResult).decode msg = some ((rpcReplyHeader c.xid 0, result), []) := by
  have hdecode := p.xdrArgument.decode_encode hargs []
  rw [append_nil] at hdecode
  refine ⟨rpcReplyHeader c.xid 0 ++ body, ?_, fun rest => ⟨readRecord_rpcRecord ?_ rest, ?_⟩⟩
  · rw [asyncRpcServe, c.dispatched hcred hverf]
    simp [nfsProgram3, hproc, RpcCall.encode, hdecode, hcall, hbody]
  · rw [length_append, length_rpcReplyHeader]
    exact hsize
  · have hread := ((fixed 24).pair p.xdrResult).decode_encode (union_encode.mpr
      ⟨_, _, _, fixed_encode.mpr ⟨length_rpcReplyHeader c.xid 0, rfl⟩, rfl, hbody, rfl⟩) []
    simpa [padding, zeros] using hread

/-- GETATTR of the root directory of a new file system. -/
theorem nfs_call_answered_getattr :
    ∃ (c : RpcCall) (msg : Bytes), c.proc = 1 ∧
      asyncRpcServe ⟨0, [], [], fun _ => 0⟩ (.fresh 0) c.encode = some (.fresh 0, some msg) := by
  have hbody : ∃ body ∈ xdrGetattr3res.encode (nfsproc3Getattr (.fresh 0) (fileHandle 1)),
      24 + body.length < 2 ^ 31 := by decide +kernel
  rcases hbody with ⟨body, hbody, hsize⟩
  rcases nfs_call_answered
    (c := ⟨7, 1, 0, [], 0, [], _, by decide, by decide, by decide, by decide⟩)
    (p := ⟨_, _, xdrNfsFh3, xdrGetattr3res, callQuery fun s fh => nfsproc3Getattr s fh⟩)
    (s := .fresh 0) rfl (by simp) (by simp) (show xdrNfsFh3.encode (fileHandle 1) = _ from rfl) rfl
    hbody hsize with ⟨msg, h, _⟩
  exact ⟨_, msg, rfl, h⟩

/-- The message with a result: its representation, or `SYSTEM_ERR` if it has none. -/
theorem reply_of_result (c : Xdr α) (xid : Nat) (result : α) :
    ∃ stat body, (c.encode result).elim (rpcReplyHeader xid 5) (rpcReplyHeader xid 0 ++ ·) =
        rpcReplyHeader xid stat ++ body ∧ 4 ∣ body.length ∧
      (stat = 0 ∧ c.encode result = some body ∨ stat = 5 ∧ body = [] ∧ c.encode result = none) := by
  cases hbody : c.encode result with
  | none => exact ⟨5, [], (append_nil _).symm, dvd_zero 4, Or.inr ⟨rfl, rfl, rfl⟩⟩
  | some body => exact ⟨0, body, rfl, aligned hbody, Or.inl ⟨rfl, rfl⟩⟩

/-- What was received of the arguments of a request. -/
def RpcRequest.received (req : RpcRequest) : Bytes :=
  req.rawArgs.drop req.rawArgsHeaderBytes

/-- Every request gets one reply, of whole words and with the identifier of the request.  Its status
is `PROC_UNAVAIL` if there is no such procedure, and `GARBAGE_ARGS` if the bytes received cannot be
decoded, which then begin with no representation of arguments; the file system is not changed then.
Otherwise the arguments that the bytes are decoded to, which have a representation that is not
longer, are handed to the handler, and its result is sent, or `SYSTEM_ERR` if it has none. -/
theorem nfsProgram3_replies {ctx : NfsContext} {s s' : NfsState} {req : RpcRequest} {msg : Bytes}
    (h : nfsProgram3 ctx s req = some (s', msg)) :
    4 ∣ msg.length ∧ ∃ stat body, msg = rpcReplyHeader req.xid stat ++ body ∧
      (nfsProcedure req.reqProc = none → stat = 3 ∧ body = [] ∧ s' = s) ∧
      ∀ p, nfsProcedure req.reqProc = some p →
        (p.xdrArgument.decode req.received = none → stat = 4 ∧ body = [] ∧ s' = s ∧
          ∀ args bytes, p.xdrArgument.encode args = some bytes → ¬ bytes <+: req.received) ∧
        ∀ args rest, p.xdrArgument.decode req.received = some (args, rest) →
          (∃ bytes, p.xdrArgument.encode args = some bytes ∧
            bytes.length + rest.length ≤ req.received.length) ∧
          ∃ result, p.call ctx s args = some (s', result) ∧
            (stat = 0 ∧ p.xdrResult.encode result = some body ∨
              stat = 5 ∧ body = [] ∧ p.xdrResult.encode result = none) := by
  have hwords : ∀ stat, 4 ∣ (rpcReplyHeader req.xid stat).length := by
    simp [length_rpcReplyHeader]
  unfold nfsProgram3 at h
  split at h
  · next hproc =>
      cases h
      exact ⟨hwords 3, 3, [], (append_nil _).symm, fun _ => ⟨rfl, rfl, rfl⟩, by simp [hproc]⟩
  · next p hproc =>
      split at h
      · next hdecode =>
          cases h
          refine ⟨hwords 4, 4, [], (append_nil _).symm, by simp [hproc], ?_⟩
          intro p' hp'
          rw [hproc, some_inj] at hp'
          subst hp'
          refine ⟨fun _ => ⟨rfl, rfl, rfl, ?_⟩, by simp [RpcRequest.received, hdecode]⟩
          -- The filter would have read back what is encoded.
          rintro args bytes hargs ⟨rest, hrest⟩
          have hread := p.xdrArgument.decode_encode hargs rest
          rw [hrest, RpcRequest.received, hdecode] at hread
          cases hread
      · next args hdecode =>
          rcases map_eq_some_iff.mp h with ⟨r, hcall, heq⟩
          cases heq
          rcases reply_of_result p.xdrResult req.xid r.2 with ⟨stat, body, hmsg, hbody, hresult⟩
          refine ⟨?_, stat, body, hmsg, by simp [hproc], ?_⟩
          · rw [hmsg, length_append]
            exact dvd_add (hwords stat) hbody
          · intro p' hp'
            rw [hproc, some_inj] at hp'
            subst hp'
            refine ⟨by simp [RpcRequest.received, hdecode], ?_⟩
            intro args' rest hargs
            rw [RpcRequest.received, hdecode, some_inj] at hargs
            subst hargs
            rcases p.xdrArgument.decode_again hdecode with ⟨bytes, hbytes, hle, _⟩
            exact ⟨⟨bytes, hbytes, hle⟩, r.2, hcall, hresult⟩

/-- MKDIR of `a` in the root directory, as a client sends it. -/
def mkdirRequest : RpcRequest :=
  ⟨7, 9, (xdrMkdir3args.encode ((fileHandle 1, nameA), noAttributes)).getD [], 0⟩

/-- The directory is made, and the result of the handler is sent. -/
theorem nfsProgram3_replies_mkdir :
    ∃ s' msg body result,
      nfsProgram3 ⟨0, [4], [], fun _ => 0⟩ (.fresh 0) mkdirRequest = some (s', msg) ∧
      (s'.getInode 1).map (fun root => root.directoryLookup nameA) = some 2 ∧
      msg = rpcReplyHeader 7 0 ++ body ∧ xdrDiropres3.encode result = some body ∧
      4 ∣ msg.length := by
  have hfacts : ∃ r ∈ nfsProgram3 ⟨0, [4], [], fun _ => 0⟩ (.fresh 0) mkdirRequest,
      (r.1.getInode 1).map (fun root => root.directoryLookup nameA) = some 2 ∧
        24 < r.2.length ∧ (xdrMkdir3args.decode mkdirRequest.received).isSome = true := by
    decide +kernel
  rcases hfacts with ⟨⟨s', msg⟩, hrun, hmade, hlong, hdecode⟩
  rcases isSome_iff_exists.mp hdecode with ⟨⟨args, rest⟩, hargs⟩
  rcases nfsProgram3_replies hrun with ⟨hwords, stat, body, hmsg, -, hproc⟩
  rcases ((hproc _ rfl).2 args rest hargs).2 with ⟨result, -, ⟨rfl, hbody⟩ | ⟨-, rfl, -⟩⟩
  · exact ⟨s', msg, body, result, hrun, hmade, hmsg, hbody, hwords⟩
  · rw [hmsg, append_nil, length_rpcReplyHeader] at hlong
    exact absurd hlong (Nat.lt_irrefl 24)

/-! ## Sizes of replies -/

theorem size_fattr3 {a : Fattr3} (h : a.size < 2 ^ 64) : xdrFattr3.size a = some 84 := by
  have hsize : xdrUint64.size a.size = some 8 := by
    rw [xdrUint64, size_map]
    exact (congrArg (Option.bind · quad.size) (if_pos h)).trans size_quad
  simp [xdrFattr3, struct, Coding.exact, hsize, ignored, size_fixed, xdrNfstime3, zeros, padding]

theorem size_entryplus3 {e : EntryPlus3} (hname : e.name.bytes.length < 2 ^ 32)
    (hsize : e.nameAttributes.size < 2 ^ 64) (hhandle : e.nameHandle.length = 8) :
    xdrEntryplus3.size e.fields = some (20 + (e.name.bytes.length + 3) / 4 * 4 + (88 + 8 + 8)) := by
  have hfh := @size_counted 64 e.nameHandle (by omega) (by omega)
  simp [xdrEntryplus3, EntryPlus3.fields, xdrEntry3, struct, Coding.exact, xdrFilename3,
    size_string hname, xdrPostOpAttr, size_fattr3 hsize, xdrNfsFh3, hfh, hhandle, padding]
  omega

/-- The contents of a reply to READDIRPLUS take as much as the handler counts. -/
theorem size_readdirplus3res {attributes : Fattr3} {entries : List EntryPlus3} (eof : Bool)
    (hdir : attributes.size < 2 ^ 64) (hcount : entries.length < 2 ^ 32)
    (hentries : ∀ e ∈ entries, e.name.bytes.length < 2 ^ 32 ∧ e.nameAttributes.size < 2 ^ 64 ∧
      e.nameHandle.length = 8) :
    xdrReaddirplus3res.size
        (0, .inl (some attributes, zeros 8, entries.map EntryPlus3.fields, eof)) =
      some (4 + replyMaxcount (entries.map EntryPlus3.toEntry3)) := by
  have hsum : ∀ l : List EntryPlus3,
      ((l.map EntryPlus3.fields).map fun u =>
        4 + (20 + (u.1.name.bytes.length + 3) / 4 * 4 + (88 + 8 + 8))).sum + 104 =
      replyMaxcount (l.map EntryPlus3.toEntry3) := by
    intro l
    induction l with
    | nil => rfl
    | cons e l ih =>
      simp only [replyMaxcount, replyDircount, map_cons, sum_cons, length_cons,
        EntryPlus3.fields] at ih ⊢
      omega
  have hlist : ∃ n, (xdrEntries xdrEntryplus3).size (entries.map EntryPlus3.fields) =
      some (4 + n) ∧ n + 104 = replyMaxcount (entries.map EntryPlus3.toEntry3) := by
    refine ⟨_, size_list (by rwa [length_map]) ?_, hsum entries⟩
    intro u hu
    rcases List.mem_map.mp hu with ⟨e, he, rfl⟩
    rcases hentries e he with ⟨hname, hsize, hhandle⟩
    exact size_entryplus3 hname hsize hhandle
  rcases hlist with ⟨n, hn, hmax⟩
  rw [← hmax]
  simp [xdrReaddirplus3res, xdrRes, inl, Coding.exact, xdrDirlist, xdrPostOpAttr, size_fattr3 hdir,
    xdrVerf3, size_fixed, zeros, padding, hn]
  omega

/-- The sizes of all inodes can be sent. -/
def NfsState.SizesSent (s : NfsState) : Prop :=
  ∀ inum inode, s.inodes inum = some inode → (encodeFattr3 inode).size < 2 ^ 64

/-- A name that is sent fits into the reply. -/
theorem name_le_replyMaxcount {l : List Entry3} {e : Entry3} (he : e ∈ l) :
    e.name.bytes.length ≤ replyMaxcount l := by
  have hle := le_sum_of_mem
    (List.mem_map_of_mem (f := fun e : Entry3 => 24 + (e.name.bytes.length + 3) / 4 * 4) he)
  unfold replyMaxcount replyDircount
  omega

/-- The loop adds up the sizes of the entries that it sends. -/
theorem readdirplusLoop_sent {s : NfsState} (hsizes : s.SizesSent) {dir : BitVec 64}
    {maxDircount maxcount count dircount attrcount : Nat} {ds : List DirEntry}
    {taken : List EntryPlus3 × List DirEntry}
    (h : readdirplusLoop s dir maxDircount maxcount count dircount attrcount ds = some taken) :
    ∀ e ∈ taken.1, e.nameAttributes.size < 2 ^ 64 ∧ e.nameHandle.length = 8 := by
  induction ds generalizing count dircount attrcount taken with
  | nil => cases h; simp
  | cons d ds ih =>
    rw [readdirplusLoop] at h
    split at h
    · cases hinode : s.getInode d.inum with
      | none =>
        rw [hinode] at h
        exact ih h
      | some inode =>
        simp only [hinode] at h
        split_ifs at h
        · cases h
          simp
        · rcases map_eq_some_iff.mp h with ⟨later, hlater, rfl⟩
          rw [forall_mem_cons]
          rw [NfsState.getInode, ite_none_left_eq_some] at hinode
          exact ⟨⟨hsizes d.inum inode hinode.2, by simp [fileHandle]⟩, ih hlater⟩
    · cases h
      simp

/-- A reply to READDIRPLUS can be sent, and its contents are as long as the handler has counted, so
that they are not longer than the client allows if there is an entry. -/
theorem readdirplus_reply_size {s : NfsState} {fh : Bytes} {dir : Inode} {cookie : BitVec 64}
    {dircount maxcount : BitVec 32} {reply : DirList EntryPlus3} (hsizes : s.SizesSent)
    (hfh : s.lookupFh fh = some dir) (htype : dir.type = .directory)
    (hreply : nfsproc3Readdirplus s fh cookie dircount maxcount = some reply) :
    ∃ bytes, xdrReaddirplus3res.encode (reply.result EntryPlus3.fields) = some bytes ∧
      bytes.length = 4 + replyMaxcount (reply.entries.map EntryPlus3.toEntry3) ∧
      (reply.entries ≠ [] → bytes.length ≤ 4 + maxcount.toNat) := by
  have hdir : (encodeFattr3 dir).size < 2 ^ 64 := by
    rcases bind_eq_some_iff.mp hfh with ⟨inum, _, hget⟩
    rw [NfsState.getInode, ite_none_left_eq_some] at hget
    exact hsizes inum dir hget.2
  rw [nfsproc3Readdirplus_eq hfh htype] at hreply
  rcases map_eq_some_iff.mp hreply with ⟨taken, htaken, rfl⟩
  have hsent := readdirplusLoop_sent hsizes htaken
  rcases plusLoop_sends fitsReply_nil htaken with ⟨sent, rest, hpage⟩
  have hfits := hpage.fits
  have hentries := hpage.entries
  rw [nil_append] at hfits
  have hcount : taken.1 ≠ [] →
      replyMaxcount (taken.1.map EntryPlus3.toEntry3) ≤ maxcount.toNat := by
    rw [hentries]
    rintro hne
    refine (hfits.2 ?_).2
    rintro rfl
    exact hne (map_eq_nil_iff.mp hentries)
  have hsize := size_readdirplus3res taken.2.isEmpty hdir ?_ fun e he => ⟨?_, hsent e he⟩
  · rcases map_eq_some_iff.mp hsize with ⟨bytes, hbytes, hlength⟩
    refine ⟨bytes, hbytes, hlength, fun hne => ?_⟩
    rw [hlength]
    exact Nat.add_le_add_left (hcount hne) 4
  · rw [← length_map EntryPlus3.toEntry3, hentries, length_map]
    exact hfits.1.trans_lt (by decide)
  · have hle := hcount (ne_nil_of_mem he)
    have hname := name_le_replyMaxcount (List.mem_map_of_mem (f := EntryPlus3.toEntry3) he)
    have hlt := maxcount.isLt
    omega

/-- The state after MKDIR of `a` in the root directory: which inodes there are, and what READDIRPLUS
of the root directory finds. -/
theorem readdirplus_mkdirA :
    ∃ s dir file made reply, nfsCall (.fresh 0) mkdirA = some (s, made) ∧
      s.inodes = update (update (NfsState.fresh 0).inodes 1 (some dir)) 2
        (some file) ∧ (encodeFattr3 dir).size = 0 ∧ (encodeFattr3 file).size = 0 ∧
      s.lookupFh (fileHandle 1) = some dir ∧ dir.type = .directory ∧
      nfsproc3Readdirplus s (fileHandle 1) 0 512 512 = some reply ∧
      reply.entries.map (fun e => e.name) = [nameA] ∧
      replyMaxcount (reply.entries.map EntryPlus3.toEntry3) = 236 :=
  ⟨_, _, _, _, _, rfl, rfl, rfl, rfl, rfl, rfl, rfl, rfl, rfl⟩

/-- A directory `a` has been made in the root directory, and the client allows 512 bytes: the reply
has one entry and is 240 bytes long. -/
theorem readdirplus_reply_size_entry :
    ∃ s made reply bytes, nfsCall (.fresh 0) mkdirA = some (s, made) ∧
      nfsproc3Readdirplus s (fileHandle 1) 0 512 512 = some reply ∧
      reply.entries.map (fun e => e.name) = [nameA] ∧
      xdrReaddirplus3res.encode (reply.result EntryPlus3.fields) = some bytes ∧
      bytes.length = 240 ∧ bytes.length ≤ 4 + 512 := by
  rcases readdirplus_mkdirA with
    ⟨s, dir, file, made, reply, hcall, hinodes, hdir, hfile, hfh, htype, hreply, hnames, hcount⟩
  have hsizes : s.SizesSent := by
    intro inum inode h
    rw [hinodes] at h
    rcases TableLib.update_eq_some_iff.mp h with ⟨-, rfl⟩ | ⟨-, h⟩
    · rw [hfile]
      decide
    rcases TableLib.update_eq_some_iff.mp h with ⟨-, rfl⟩ | ⟨hroot, h⟩
    · rw [hdir]
      decide
    · simp only [NfsState.fresh, update_of_ne hroot] at h
      cases h
  rcases readdirplus_reply_size hsizes hfh htype hreply with ⟨bytes, hbytes, hlength, hbound⟩
  rw [hcount] at hlength
  refine ⟨s, made, reply, bytes, hcall, hreply, hnames, hbytes, hlength, hbound ?_⟩
  rintro hnil
  rw [hnil] at hnames
  cases hnames

end BlueSky
