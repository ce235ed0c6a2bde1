import BlueSky.Lib.Xdr
import BlueSky.Nfs.Rpc

/-!
# The header of an RPC call

`async_rpc_dispatch` takes the header of a call apart in place: six fields at fixed places, and then
two authentication headers whose lengths it reads from the message.  In a call, the body of an
authentication header is padded to a multiple of four bytes, which its length does not count; the
loop that skips the headers advances by the length alone.

Main results:

- Theorem {lit}`asyncRpcDispatchChecked_eq`: no field is read outside of the message.
- Theorem {lit}`asyncRpcDispatch_encode`: what becomes of a call.
- Theorem {lit}`rpc_arguments_found`: the offset of the arguments is inside of the message, and is
  right if both bodies need no padding.
-/

namespace BlueSky

open List Option ByteLib RecordMarkingLib XdrLib.Xdr

/-! ## Reads of a message -/

/-- The 32-bit field at an offset; {lean}`none` if it is not inside of the buffer. -/
def rpcField (buf : Bytes) (off : Nat) : Option Nat :=
  if off + 4 ≤ buf.length then some (ntohlAt buf off) else none

/-- {lit}`skipAuth` with all reads checked: the outer {lean}`none` is a read outside of the
message. -/
def skipAuthChecked (msg : Bytes) (off : Nat) : Option (Option Nat) :=
  if msg.length < off + 8 then some none
  else
    (rpcField msg (off + 4)).map fun len =>
      if maxRpcMsgsize < len + 8 then none else some (off + (len + 8))

/-- `async_rpc_dispatch` with all reads checked. -/
def asyncRpcDispatchChecked (msg : Bytes) : Option Dispatch :=
  if msg.length < 24 then some .invalid
  else
    (rpcField msg 0).bind fun xid =>
    (rpcField msg 4).bind fun mtype =>
    if mtype ≠ 0 then some .invalid
    else
      (rpcField msg 8).bind fun rpcvers =>
      if rpcvers ≠ 2 then some .invalid
      else
        (rpcField msg 12).bind fun prog =>
        if prog ≠ nfsProgram then some (.progUnavail xid)
        else
          (rpcField msg 16).bind fun vers =>
          if vers ≠ nfsV3 then some (.progUnavail xid)
          else
            (rpcField msg 20).bind fun proc =>
            (skipAuthChecked msg 24).bind fun
              | none => some .invalid
              | some verf =>
                (skipAuthChecked msg verf).map fun
                  | none => .invalid
                  | some off =>
                    if msg.length < off then .invalid else .request ⟨xid, proc, msg, off⟩

theorem rpcField_eq {buf : Bytes} {off : Nat} (h : off + 4 ≤ buf.length) :
    rpcField buf off = some (ntohlAt buf off) :=
  if_pos h

theorem skipAuthChecked_eq (msg : Bytes) (off : Nat) :
    skipAuthChecked msg off = some (skipAuth msg off) := by
  unfold skipAuthChecked skipAuth
  by_cases hshort : msg.length < off + 8
  · rw [if_pos hshort, if_pos hshort]
  · rw [if_neg hshort, if_neg hshort, rpcField_eq (by omega), map_some]

/-- No field is read outside of the message. -/
theorem asyncRpcDispatchChecked_eq (msg : Bytes) :
    asyncRpcDispatchChecked msg = some (asyncRpcDispatch msg) := by
  unfold asyncRpcDispatchChecked asyncRpcDispatch
  by_cases hshort : msg.length < 24
  · rw [if_pos hshort, if_pos hshort]
  · have hread : ∀ off, off + 4 ≤ 24 → rpcField msg off = some (ntohlAt msg off) :=
      fun off h => rpcField_eq (by omega)
    simp only [if_neg hshort, hread, skipAuthChecked_eq, bind_some, map_some,
      Nat.reduceAdd, Nat.reduceLeDiff, apply_ite some]
    cases skipAuth msg 24 with
    | none => rfl
    | some verf =>
      cases hverf : skipAuth msg verf with
      | none => simp [hverf]
      | some off => simp [hverf, apply_ite some]

/-- The offset that is handed on is not behind the end of the message. -/
theorem rawArgsHeaderBytes_le {msg : Bytes} {req : RpcRequest}
    (h : asyncRpcDispatch msg = .request req) :
    req.rawArgs = msg ∧ req.rawArgsHeaderBytes ≤ msg.length := by
  unfold asyncRpcDispatch at h
  split_ifs at h
  split at h
  · cases h
  · split_ifs at h with hend
    cases h
    exact ⟨rfl, Nat.not_lt.mp hend⟩

/-! ## Calls -/

/-- An authentication header. -/
def opaqueAuth (flavor : Nat) (body : Bytes) : Bytes :=
  [flavor, body.length].flatMap (beBytes 4) ++ (body ++ zeros (padding body.length))

/-- A call of a procedure of version 3 of NFS, with authentication headers of a length that is
accepted. -/
structure RpcCall where
  xid : Nat
  proc : Nat
  credFlavor : Nat
  cred : Bytes
  verfFlavor : Nat
  verf : Bytes
  args : Bytes
  xid_lt : xid < 2 ^ 32
  proc_lt : proc < 2 ^ 32
  cred_le : cred.length + 8 ≤ maxRpcMsgsize
  verf_le : verf.length + 8 ≤ maxRpcMsgsize

namespace RpcCall

/-- What precedes the arguments. -/
def header (c : RpcCall) : Bytes :=
  [c.xid, 0, 2, nfsProgram, nfsV3, c.proc].flatMap (beBytes 4) ++
    (opaqueAuth c.credFlavor c.cred ++ opaqueAuth c.verfFlavor c.verf)

/-- The message. -/
def encode (c : RpcCall) : Bytes :=
  c.header ++ c.args

/-- The length that is read for the verifier, eight bytes behind the body of the credentials. -/
def verifierLength (c : RpcCall) : Nat :=
  let pad := padding c.cred.length
  c.verfFlavor % 256 ^ pad * 256 ^ (4 - pad) + c.verf.length / 256 ^ pad

variable (c : RpcCall)

theorem length_header :
    c.header.length = 40 + (c.cred.length + padding c.cred.length) +
      (c.verf.length + padding c.verf.length) := by
  simp only [header, opaqueAuth, length_append, flatMap_cons, flatMap_nil,
    length_beBytes, length_zeros, length_nil]
  omega

end RpcCall

/-! ## Fields of a call -/

/-- The fields of a message that starts with words. -/
theorem ntohlAt_words {ws : List Nat} {i w : Nat} (rest : Bytes) (h : ws[i]? = some w)
    (hw : w < 2 ^ 32) : ntohlAt (ws.flatMap (beBytes 4) ++ rest) (4 * i) = w := by
  induction ws generalizing i with
  | nil => simp at h
  | cons first ws ih =>
    rw [flatMap_cons, append_assoc]
    cases i with
    | zero =>
      have hfirst := slice_middle [] (beBytes 4 first) (ws.flatMap (beBytes 4) ++ rest)
      rw [nil_append, length_nil, length_beBytes] at hfirst
      rw [ntohlAt, Nat.mul_zero, hfirst, beNat_beBytes_of_lt]
      · simpa using h
      · rw [some.inj h]
        exact hw
    | succ i =>
      have hskip := slice_append_right (beBytes 4 first) (ws.flatMap (beBytes 4) ++ rest) (4 * i) 4
      rw [length_beBytes] at hskip
      rw [ntohlAt, Nat.mul_succ, Nat.add_comm, hskip]
      exact ih (by simpa using h)

/-- Four bytes that start in one word and end in the next one. -/
theorem beNat_straddle (a b : Nat) (hb : b < 2 ^ 32) {pad : Nat} (hpad : pad < 4) :
    beNat (slice (beBytes 4 a ++ beBytes 4 b) (4 - pad) 4) =
      a % 256 ^ pad * 256 ^ (4 - pad) + b / 256 ^ pad := by
  interval_cases pad <;> simp [slice, beBytes, beNat, leBytes, leNat] <;> omega

namespace RpcCall

variable (c : RpcCall)

/-- The fields up to the length of the credentials. -/
theorem encode_eq_words :
    ∃ rest, c.encode =
      [c.xid, 0, 2, nfsProgram, nfsV3, c.proc, c.credFlavor, c.cred.length].flatMap (beBytes 4) ++
        rest := by
  simp only [encode, header, opaqueAuth, flatMap_cons, flatMap_nil, append_nil, append_assoc]
  exact ⟨_, rfl⟩

theorem cred_length_lt : c.cred.length < 2 ^ 32 := by
  have hle := c.cred_le
  unfold maxRpcMsgsize at hle
  omega

/-- The length of the verifier is read from the place where it is without padding. -/
theorem ntohlAt_verifier : ntohlAt c.encode (32 + c.cred.length + 4) = c.verifierLength := by
  have hle := c.verf_le
  have hpad : padding c.cred.length < 4 := Nat.mod_lt _ (by decide)
  have hencode : ∃ before rest, before.length = 32 + c.cred.length ∧ c.encode =
      before ++ (zeros (padding c.cred.length) ++
        (beBytes 4 c.verfFlavor ++ beBytes 4 c.verf.length ++ rest)) := by
    refine ⟨[c.xid, 0, 2, nfsProgram, nfsV3, c.proc, c.credFlavor, c.cred.length].flatMap
      (beBytes 4) ++ c.cred, c.verf ++ (zeros (padding c.verf.length) ++ c.args), ?_, ?_⟩
    · simp only [length_append, flatMap_cons, flatMap_nil, length_beBytes, length_nil]
    · simp [encode, header, opaqueAuth]
  rcases hencode with ⟨before, rest, hbefore, hencode⟩
  have hskip := slice_append_right (zeros (padding c.cred.length))
    (beBytes 4 c.verfFlavor ++ beBytes 4 c.verf.length ++ rest) (4 - padding c.cred.length) 4
  rw [length_zeros, Nat.add_sub_cancel' hpad.le] at hskip
  rw [ntohlAt, hencode, ← hbefore, slice_append_right, hskip, slice_append_left]
  · exact beNat_straddle _ _ (by unfold maxRpcMsgsize at hle; omega) hpad
  · rw [length_append, length_beBytes, length_beBytes]
    omega

/-- The word that is read for the length of the verifier, by the padding of the credentials. -/
theorem verifierLength_cases :
    c.cred.length % 4 = 0 ∧ padding c.cred.length = 0 ∧ c.verifierLength = c.verf.length ∨
    c.cred.length % 4 = 1 ∧ padding c.cred.length = 3 ∧
      c.verifierLength = c.verfFlavor % 16777216 * 256 + c.verf.length / 16777216 ∨
    c.cred.length % 4 = 2 ∧ padding c.cred.length = 2 ∧
      c.verifierLength = c.verfFlavor % 65536 * 65536 + c.verf.length / 65536 ∨
    c.cred.length % 4 = 3 ∧ padding c.cred.length = 1 ∧
      c.verifierLength = c.verfFlavor % 256 * 16777216 + c.verf.length / 256 := by
  unfold verifierLength padding
  have hlt := Nat.mod_lt c.cred.length (show 0 < 4 by decide)
  interval_cases c.cred.length % 4 <;> simp [Nat.mod_one]

/-- What becomes of a call. -/
theorem asyncRpcDispatch_encode :
    asyncRpcDispatch c.encode =
      if c.verifierLength + 8 ≤ maxRpcMsgsize ∧
          40 + c.cred.length + c.verifierLength ≤ c.encode.length then
        .request ⟨c.xid, c.proc, c.encode, 40 + c.cred.length + c.verifierLength⟩
      else .invalid := by
  have hlength : 40 + c.cred.length ≤ c.encode.length := by
    rw [encode, length_append, length_header]
    omega
  have hfields : ∀ i w, [c.xid, 0, 2, nfsProgram, nfsV3, c.proc, c.credFlavor,
      c.cred.length][i]? = some w → w < 2 ^ 32 → ntohlAt c.encode (4 * i) = w := by
    intro i w hi hw
    rcases c.encode_eq_words with ⟨rest, hencode⟩
    rw [hencode]
    exact ntohlAt_words rest hi hw
  have hcred : skipAuth c.encode 24 = some (32 + c.cred.length) := by
    have hlen := hfields 7 _ rfl c.cred_length_lt
    have hle := c.cred_le
    rw [skipAuth, if_neg (by omega), hlen, if_neg (by omega)]
    congr 1
    omega
  have hverf : skipAuth c.encode (32 + c.cred.length) =
      if c.verifierLength + 8 ≤ maxRpcMsgsize then some (40 + c.cred.length + c.verifierLength)
      else none := by
    rw [skipAuth, if_neg (by omega), c.ntohlAt_verifier]
    dsimp only
    by_cases hfits : c.verifierLength + 8 ≤ maxRpcMsgsize
    · rw [if_neg (by omega), if_pos hfits]
      congr 1
      omega
    · rw [if_pos (by omega), if_neg hfits]
  have h0 := hfields 0 _ rfl c.xid_lt
  have h1 := hfields 1 _ rfl (by decide)
  have h2 := hfields 2 _ rfl (by decide)
  have h3 := hfields 3 _ rfl (by decide)
  have h4 := hfields 4 _ rfl (by decide)
  have h5 := hfields 5 _ rfl c.proc_lt
  rw [asyncRpcDispatch, if_neg (by omega), h1, if_neg (by decide), h2, if_neg (by decide), h3,
    if_neg (by decide), h4, if_neg (by decide), hcred, bind_some, hverf]
  by_cases hfits : c.verifierLength + 8 ≤ maxRpcMsgsize
  · simp only [hfits, if_true, true_and, h0, h5]
    by_cases hend : 40 + c.cred.length + c.verifierLength ≤ c.encode.length
    · rw [if_neg (by omega), if_pos hend]
    · rw [if_pos (by omega), if_neg hend]
  · simp only [hfits, if_false, false_and]

end RpcCall

/-- For every message, all reads are inside of it, and so is the offset of the arguments.  For a
call, this offset is that of the first argument exactly if both authentication bodies need no
padding, or if, by chance, the word that is read in the place of the verifier's length makes up for
it. -/
theorem rpc_arguments_found (msg : Bytes) (c : RpcCall) :
    (asyncRpcDispatchChecked msg = some (asyncRpcDispatch msg) ∧
      ∀ req, asyncRpcDispatch msg = .request req →
        req.rawArgs = msg ∧ req.rawArgsHeaderBytes ≤ msg.length) ∧
    (asyncRpcDispatch c.encode = .request ⟨c.xid, c.proc, c.encode, c.header.length⟩ ↔
      4 ∣ c.cred.length ∧ 4 ∣ c.verf.length ∨
        c.cred.length % 4 = 2 ∧ c.verfFlavor % 65536 * 65536 + c.verf.length / 65536 =
          2 + (c.verf.length + padding c.verf.length)) := by
  refine ⟨⟨asyncRpcDispatchChecked_eq msg, fun req => rawArgsHeaderBytes_le⟩, ?_⟩
  have hverf := c.verf_le
  have hlength : c.header.length ≤ c.encode.length := by
    rw [RpcCall.encode, length_append]
    omega
  have hheader := c.length_header
  have hexact : asyncRpcDispatch c.encode = .request ⟨c.xid, c.proc, c.encode, c.header.length⟩ ↔
      c.verifierLength + 8 ≤ maxRpcMsgsize ∧
        40 + c.cred.length + c.verifierLength = c.header.length := by
    rw [c.asyncRpcDispatch_encode]
    split_ifs with h
    · simp [h.1]
    · simp only [false_iff]
      omega
  have hpad : padding c.verf.length = (4 - c.verf.length % 4) % 4 := rfl
  have hmax : maxRpcMsgsize = 8388608 := rfl
  rw [hexact, hheader]
  rcases c.verifierLength_cases with
    ⟨hcred, hzero, hread⟩ | ⟨hcred, hone, hread⟩ | ⟨hcred, htwo, hread⟩ | ⟨hcred, hthree, hread⟩
  · omega
  · -- The word that is read is a multiple of 256, and what is to be skipped is odd.
    omega
  · omega
  · -- The word that is read is either too large or smaller than the length.
    constructor
    · rintro ⟨hle, heq⟩
      have hflavor : c.verfFlavor % 256 = 0 := by omega
      rw [hflavor] at hread
      omega
    · omega

/-- A call with credentials of one byte and an empty verifier: the offset that is recorded is three
bytes before that of the arguments. -/
theorem rpc_arguments_unpadded :
    let c : RpcCall :=
      ⟨7, 0, 1, [5], 0, [], [1, 2, 3, 4], by decide, by decide, by decide, by decide⟩
    asyncRpcDispatch c.encode = .request ⟨7, 0, c.encode, 41⟩ ∧ c.header.length = 44 := by
  decide +kernel

end BlueSky
