import BlueSky.Lib.RecordMarking
import BlueSky.Lib.Transition

/-!
# Reassembly of RPC messages

`async_rpc_do_read` is called whenever the socket of a connection is readable.  One call makes one
read, of the rest of a fragment header or of the rest of a fragment, into the buffer that holds the
message so far.  The buffer is enlarged before the read by what is asked for, and cut back
afterwards by what did not come; but when the read gives {lit}`G_IO_STATUS_AGAIN`, the call
returns before it is cut back.

Main results:

- Theorem {lit}`msgbuf_bounded`: whatever the reads give, the buffer stays within
  `MAX_RPC_MSGSIZE`.
- Theorem {lit}`dispatched_eq_sent`: if no read that asks for a byte gives
  {lit}`G_IO_STATUS_AGAIN`, the messages that are dispatched are those that were sent, however the
  stream is split into fragments and however much each read gives.
-/

namespace BlueSky

open List ByteLib RecordMarkingLib TransitionLib

/-! ## Decoding a message -/

/-- `MAX_RPC_MSGSIZE`. -/
def maxRpcMsgsize : Nat := 8 * 2 ^ 20

/-- `NFS_PROGRAM`. -/
def nfsProgram : Nat := 100003

/-- `NFS_V3`. -/
def nfsV3 : Nat := 3

/-- The 32-bit field at an offset, after `ntohl`. -/
def ntohlAt (buf : Bytes) (off : Nat) : Nat :=
  beNat (slice buf off 4)

/-- What `async_rpc_dispatch` puts into the request that it hands on. -/
structure RpcRequest where
  xid : Nat
  reqProc : Nat
  rawArgs : Bytes
  rawArgsHeaderBytes : Nat
deriving DecidableEq, Repr

/-- What becomes of a message in `async_rpc_dispatch`. -/
inductive Dispatch where
  /-- `FALSE` is returned: the channel is to be closed. -/
  | invalid
  /-- `PROG_UNAVAIL` is sent. -/
  | progUnavail (xid : Nat)
  | request (req : RpcRequest)
deriving DecidableEq, Repr

/-- One round of the loop that skips the authentication headers. -/
def skipAuth (msg : Bytes) (off : Nat) : Option Nat :=
  if msg.length < off + 8 then none
  else
    let authsize := ntohlAt msg (off + 4) + 8
    if maxRpcMsgsize < authsize then none else some (off + authsize)

/-- `async_rpc_dispatch`. -/
def asyncRpcDispatch (msg : Bytes) : Dispatch :=
  if msg.length < 24 then .invalid
  else if ntohlAt msg 4 ≠ 0 then .invalid
  else if ntohlAt msg 8 ≠ 2 then .invalid
  else if ntohlAt msg 12 ≠ nfsProgram then .progUnavail (ntohlAt msg 0)
  else if ntohlAt msg 16 ≠ nfsV3 then .progUnavail (ntohlAt msg 0)
  else
    match (skipAuth msg 24).bind (skipAuth msg) with
    | none => .invalid
    | some off =>
      if msg.length < off then .invalid
      else .request ⟨ntohlAt msg 0, ntohlAt msg 20, msg, off⟩

/-! ## Reading from the channel -/

/-- `RPCConnection`, as far as reading uses it. -/
structure RpcConnection where
  /-- The message so far; while a header is being read, its bytes are at the end. -/
  msgbuf : Bytes
  /-- The bytes of the fragment that are to come, with the last-fragment bit on top; zero when a
  header is expected. -/
  fragLen : Nat
  fragHdrBytes : Nat
deriving DecidableEq, Repr

/-- `GIOStatus`. -/
inductive IoStatus where
  | error
  | normal
  | eof
  | again
deriving DecidableEq, Repr

/-- What `g_io_channel_read_chars` gives. -/
structure ChannelRead where
  status : IoStatus
  bytes : Bytes
deriving DecidableEq, Repr

/-- `g_string_set_size`: bytes that are added have the contents that the memory happens to
have. -/
def gStringSetSize (memory : Nat → Byte) (str : Bytes) (len : Nat) : Bytes :=
  str.take len ++ (List.range' str.length (len - str.length)).map memory

/-- The bytes of a read put into a buffer. -/
def writeAt (buf : Bytes) (off : Nat) (bytes : Bytes) : Bytes :=
  buf.take off ++ bytes ++ buf.drop (off + bytes.length)

/-- `bytes_to_read`. -/
def RpcConnection.bytesToRead (rpc : RpcConnection) : Nat :=
  if rpc.fragLen = 0 then 4 - rpc.fragHdrBytes else rpc.fragLen % 2 ^ 31

/-- What a call of `async_rpc_do_read` leaves. -/
structure ReadReturn where
  /-- The result: whether there are to be further calls. -/
  keep : Bool
  rpc : RpcConnection
  /-- The message that `async_rpc_dispatch` was called on. -/
  dispatched : Option Bytes
deriving DecidableEq, Repr

/-- The part of `async_rpc_do_read` after the read, where `msgbuf` has been cut back to what was
read and the last `n` bytes of it are new. -/
def RpcConnection.received (rpc : RpcConnection) (memory : Nat → Byte) (msgbuf : Bytes) (n : Nat) :
    ReadReturn :=
  if rpc.fragLen = 0 then
    if rpc.fragHdrBytes + n = 4 then
      { keep := true
        rpc :=
          { msgbuf := gStringSetSize memory msgbuf (msgbuf.length - 4)
            fragLen := ntohlAt msgbuf (msgbuf.length - 4)
            fragHdrBytes := 0 }
        dispatched := none }
    else
      { keep := true
        rpc := { rpc with msgbuf := msgbuf, fragHdrBytes := rpc.fragHdrBytes + n }
        dispatched := none }
  else if rpc.fragLen - n = 2 ^ 31 then
    if asyncRpcDispatch msgbuf = .invalid then
      { keep := false
        rpc := { rpc with msgbuf := msgbuf, fragLen := rpc.fragLen - n }
        dispatched := some msgbuf }
    else
      { keep := true
        rpc := { rpc with msgbuf := [], fragLen := 0 }
        dispatched := some msgbuf }
  else
    { keep := true
      rpc := { rpc with msgbuf := msgbuf, fragLen := rpc.fragLen - n }
      dispatched := none }

/-- `async_rpc_do_read`, where `read` is what the channel gives. -/
def asyncRpcDoRead (rpc : RpcConnection) (memory : Nat → Byte) (read : ChannelRead) :
    ReadReturn :=
  let ask := rpc.bytesToRead
  if maxRpcMsgsize < ask ∨ maxRpcMsgsize < rpc.msgbuf.length + ask then
    { keep := false, rpc := rpc, dispatched := none }
  else
    let grown := gStringSetSize memory rpc.msgbuf (rpc.msgbuf.length + ask)
    let filled := writeAt grown (grown.length - ask) read.bytes
    let cut := gStringSetSize memory filled (filled.length - (ask - read.bytes.length))
    match read.status with
    | .normal => rpc.received memory cut read.bytes.length
    | .again => { keep := true, rpc := { rpc with msgbuf := filled }, dispatched := none }
    | .eof =>
      if read.bytes.length = ask then rpc.received memory cut read.bytes.length
      else { keep := false, rpc := { rpc with msgbuf := filled }, dispatched := none }
    | .error => { keep := false, rpc := { rpc with msgbuf := filled }, dispatched := none }

/-! ## A connection -/

/-- A connection with what is on its channel and what has been dispatched. -/
structure RpcChannel where
  rpc : RpcConnection
  unread : Bytes
  dispatched : List Bytes
  isOpen : Bool

/-- A connection as `async_rpc_do_accept` sets it up, with the bytes that are to come. -/
def RpcChannel.start (bytes : Bytes) : RpcChannel :=
  { rpc := { msgbuf := [], fragLen := 0, fragHdrBytes := 0 }
    unread := bytes
    dispatched := []
    isOpen := true }

/-- The outcome of a read: its status, how many bytes it gives, and what the memory of the buffer
holds. -/
structure ReadOutcome where
  status : IoStatus
  count : Nat
  memory : Nat → Byte

/-- A read gives at most what is asked for and what is there, and nothing with
{lit}`G_IO_STATUS_AGAIN`. -/
def RpcChannel.allows (c : RpcChannel) (o : ReadOutcome) : Bool :=
  c.isOpen && decide (o.count ≤ c.rpc.bytesToRead) && decide (o.count ≤ c.unread.length) &&
    (decide (o.status ≠ .again) || decide (o.count = 0))

/-- A call of `async_rpc_do_read`. -/
def channelStep (c : RpcChannel) (o : ReadOutcome) : Option RpcChannel :=
  if c.allows o then
    let result := asyncRpcDoRead c.rpc o.memory ⟨o.status, c.unread.take o.count⟩
    some
      { rpc := result.rpc
        unread := c.unread.drop o.count
        dispatched := c.dispatched ++ result.dispatched.toList
        isOpen := result.keep }
  else none

/-- The outcomes that the channel may give as long as it is neither at its end nor broken. -/
def NormalOrAgain (_ : RpcChannel) (o : ReadOutcome) : Prop :=
  o.status = .normal ∨ o.status = .again

/-- The outcomes after which the buffer is as it should be: a read gives
{lit}`G_IO_STATUS_AGAIN` only if nothing is asked for. -/
def ReadsSettled (c : RpcChannel) (o : ReadOutcome) : Prop :=
  o.status = .normal ∨ o.status = .again ∧ c.rpc.bytesToRead = 0

instance (c : RpcChannel) (o : ReadOutcome) : Decidable (NormalOrAgain c o) :=
  inferInstanceAs (Decidable (_ ∨ _))

instance (c : RpcChannel) (o : ReadOutcome) : Decidable (ReadsSettled c o) :=
  inferInstanceAs (Decidable (_ ∨ _))

/-! ## The buffer -/

section Buffer

variable {memory : Nat → Byte} {rpc : RpcConnection} {bytes : Bytes}

@[simp]
theorem length_gStringSetSize (str : Bytes) (len : Nat) :
    (gStringSetSize memory str len).length = len := by
  simp [gStringSetSize]
  omega

theorem gStringSetSize_of_le {str : Bytes} {len : Nat} (h : len ≤ str.length) :
    gStringSetSize memory str len = str.take len := by
  have hzero : len - str.length = 0 := by omega
  simp [gStringSetSize, hzero]

theorem gStringSetSize_append (a b : Bytes) :
    gStringSetSize memory (a ++ b) a.length = a := by
  rw [gStringSetSize_of_le (by simp)]
  simp

theorem gStringSetSize_length (a : Bytes) : gStringSetSize memory a a.length = a := by
  simp [gStringSetSize]

/-- The buffer after a read that gives at most what is asked for. -/
theorem writeAt_grown (msgbuf : Bytes) {ask : Nat} (h : bytes.length ≤ ask) :
    ∃ rest : Bytes, rest.length = ask - bytes.length ∧
      writeAt (gStringSetSize memory msgbuf (msgbuf.length + ask))
        ((gStringSetSize memory msgbuf (msgbuf.length + ask)).length - ask) bytes =
          msgbuf ++ bytes ++ rest := by
  refine ⟨(gStringSetSize memory msgbuf (msgbuf.length + ask)).drop
    (msgbuf.length + bytes.length), ?_, ?_⟩
  · rw [length_drop, length_gStringSetSize]
    omega
  · have htake : (gStringSetSize memory msgbuf (msgbuf.length + ask)).take msgbuf.length =
        msgbuf := by
      simp [gStringSetSize]
    rw [writeAt, length_gStringSetSize, Nat.add_sub_cancel, htake]

/-- After a read with status {lit}`G_IO_STATUS_NORMAL` the bytes that came stand at the end of the
buffer. -/
theorem asyncRpcDoRead_normal (hfit : rpc.msgbuf.length + rpc.bytesToRead ≤ maxRpcMsgsize)
    (hbytes : bytes.length ≤ rpc.bytesToRead) :
    asyncRpcDoRead rpc memory ⟨.normal, bytes⟩ =
      rpc.received memory (rpc.msgbuf ++ bytes) bytes.length := by
  have hguard : ¬ (maxRpcMsgsize < rpc.bytesToRead ∨
      maxRpcMsgsize < rpc.msgbuf.length + rpc.bytesToRead) := by
    omega
  rcases @writeAt_grown memory bytes rpc.msgbuf _ hbytes with ⟨rest, hrest, hfilled⟩
  simp only [asyncRpcDoRead, if_neg hguard, hfilled]
  have hlen : (rpc.msgbuf ++ bytes ++ rest).length - (rpc.bytesToRead - bytes.length) =
      (rpc.msgbuf ++ bytes).length := by
    rw [length_append, hrest, Nat.add_sub_cancel]
  rw [hlen, gStringSetSize_append]

/-- A read that asks for nothing and gives {lit}`G_IO_STATUS_AGAIN` changes nothing. -/
theorem asyncRpcDoRead_again (hfit : rpc.msgbuf.length ≤ maxRpcMsgsize)
    (hask : rpc.bytesToRead = 0) :
    asyncRpcDoRead rpc memory ⟨.again, []⟩ = ⟨true, rpc, none⟩ := by
  have hguard : ¬ (maxRpcMsgsize < 0 ∨ maxRpcMsgsize < rpc.msgbuf.length) := by
    omega
  simp only [asyncRpcDoRead, hask, Nat.add_zero, if_neg hguard, gStringSetSize_length]
  simp [writeAt]

theorem received_msgbuf_le (msgbuf : Bytes) (n : Nat) :
    (rpc.received memory msgbuf n).rpc.msgbuf.length ≤ msgbuf.length := by
  unfold RpcConnection.received
  split_ifs <;> simp

/-- No call leaves more than `MAX_RPC_MSGSIZE` bytes in the buffer. -/
theorem asyncRpcDoRead_msgbuf_le (status : IoStatus) (hrpc : rpc.msgbuf.length ≤ maxRpcMsgsize)
    (hbytes : bytes.length ≤ rpc.bytesToRead) :
    (asyncRpcDoRead rpc memory ⟨status, bytes⟩).rpc.msgbuf.length ≤ maxRpcMsgsize := by
  by_cases hguard : maxRpcMsgsize < rpc.bytesToRead ∨
      maxRpcMsgsize < rpc.msgbuf.length + rpc.bytesToRead
  · simpa only [asyncRpcDoRead, if_pos hguard] using hrpc
  · rcases @writeAt_grown memory bytes rpc.msgbuf _ hbytes with ⟨rest, hrest, hfilled⟩
    have hfill : (rpc.msgbuf ++ bytes ++ rest).length ≤ maxRpcMsgsize := by
      simp only [length_append, hrest]
      omega
    have hcut : ∀ n, (rpc.received memory (gStringSetSize memory (rpc.msgbuf ++ bytes ++ rest)
        ((rpc.msgbuf ++ bytes ++ rest).length - (rpc.bytesToRead - bytes.length)))
        n).rpc.msgbuf.length ≤ maxRpcMsgsize := by
      intro n
      refine Nat.le_trans (received_msgbuf_le _ n) ?_
      rw [length_gStringSetSize]
      omega
    simp only [asyncRpcDoRead, if_neg hguard, hfilled]
    cases status with
    | error => exact hfill
    | normal => exact hcut _
    | eof =>
      by_cases heof : bytes.length = rpc.bytesToRead
      · simpa only [if_pos heof] using hcut _
      · simpa only [if_neg heof] using hfill
    | again => exact hfill

end Buffer

variable {c : RpcChannel} {o : ReadOutcome}

theorem allows_iff :
    c.allows o = true ↔ c.isOpen = true ∧ o.count ≤ c.rpc.bytesToRead ∧
      o.count ≤ c.unread.length ∧ (o.status ≠ .again ∨ o.count = 0) := by
  simp [RpcChannel.allows, and_assoc]

theorem channelStep_eq_some {c' : RpcChannel} :
    channelStep c o = some c' ↔ c.allows o = true ∧
      c' =
        { rpc := (asyncRpcDoRead c.rpc o.memory ⟨o.status, c.unread.take o.count⟩).rpc
          unread := c.unread.drop o.count
          dispatched := c.dispatched ++
            (asyncRpcDoRead c.rpc o.memory ⟨o.status, c.unread.take o.count⟩).dispatched.toList
          isOpen := (asyncRpcDoRead c.rpc o.memory ⟨o.status, c.unread.take o.count⟩).keep } := by
  unfold channelStep
  split_ifs with h
  · simp [h, eq_comm]
  · simp [h]

/-- Whatever the reads give, the buffer stays within `MAX_RPC_MSGSIZE`. -/
theorem msgbuf_bounded {ok : RpcChannel → ReadOutcome → Prop} {bytes : Bytes}
    (h : Reachable channelStep ok (RpcChannel.start bytes) c) :
    c.rpc.msgbuf.length ≤ maxRpcMsgsize := by
  refine Reachable.invariant (I := fun c => c.rpc.msgbuf.length ≤ maxRpcMsgsize)
    (Nat.zero_le _) ?_ h
  intro c o c' hinv _ hstep
  rcases channelStep_eq_some.mp hstep with ⟨hallows, rfl⟩
  rcases allows_iff.mp hallows with ⟨_, hask, hlen, _⟩
  apply asyncRpcDoRead_msgbuf_le o.status hinv
  rw [length_take]
  omega

/-! ## The place in the stream -/

/-- The reader has `got` of the present message, and the fragments `fs` are to come; it may have
begun with the first of them. -/
inductive RpcPlace (rpc : RpcConnection) (unread got : Bytes) : List Fragment → Prop
  /-- In front of a fragment, or in its header. -/
  | header {fs : List Fragment} (hlen : rpc.fragLen = 0) (hhdr : rpc.fragHdrBytes < 4)
      (hle : rpc.fragHdrBytes ≤ (stream fs).length)
      (hbuf : rpc.msgbuf = got ++ (stream fs).take rpc.fragHdrBytes)
      (hunread : unread = (stream fs).drop rpc.fragHdrBytes) : RpcPlace rpc unread got fs
  /-- Behind the header of a fragment. -/
  | body {f : Fragment} {fs : List Fragment}
      (hlen : rpc.fragLen = markWord f.last f.body.length) (hne : rpc.fragLen ≠ 0)
      (hhdr : rpc.fragHdrBytes = 0) (hbuf : rpc.msgbuf = got)
      (hunread : unread = f.body ++ stream fs) : RpcPlace rpc unread got (f :: fs)

/-- The greatest size of a message that leaves room for the next header. -/
abbrev maxPayload : Nat := maxRpcMsgsize - 4

theorem maxPayload_lt : maxPayload < 2 ^ 31 := by
  decide

section Place

variable {rpc : RpcConnection} {unread got : Bytes} {fs : List Fragment} {memory : Nat → Byte}

theorem bytesToRead_header (hlen : rpc.fragLen = 0) :
    rpc.bytesToRead = 4 - rpc.fragHdrBytes :=
  if_pos hlen

theorem bytesToRead_body {f : Fragment} (hlen : rpc.fragLen = markWord f.last f.body.length)
    (hne : rpc.fragLen ≠ 0) (hf : f.body.length ≤ maxPayload) :
    rpc.bytesToRead = f.body.length := by
  rw [RpcConnection.bytesToRead, if_neg hne, hlen,
    markWord_mod (Nat.lt_of_le_of_lt hf maxPayload_lt)]

/-- There is room for what is asked for. -/
theorem RpcPlace.room (h : RpcPlace rpc unread got fs) (hfits : Fits maxPayload got fs) :
    rpc.msgbuf.length + rpc.bytesToRead ≤ maxRpcMsgsize := by
  cases h with
  | header hlen hhdr hle hbuf hunread =>
    have hgot := hfits.length_le
    rw [bytesToRead_header hlen, hbuf, length_append, length_take]
    unfold maxPayload maxRpcMsgsize at *
    omega
  | body hlen hne hhdr hbuf hunread =>
    have hbody := hfits.1
    rw [bytesToRead_body hlen hne (by omega), hbuf]
    unfold maxPayload at hbody
    omega

/-- The reader does not wait for more than what is there, unless nothing is to come. -/
theorem RpcPlace.bytesToRead_le (h : RpcPlace rpc unread got fs) (hfits : Fits maxPayload got fs)
    (hfs : fs ≠ []) : rpc.bytesToRead ≤ unread.length := by
  cases h with
  | header hlen hhdr hle hbuf hunread =>
    rw [bytesToRead_header hlen, hunread, length_drop]
    cases fs with
    | nil => exact absurd rfl hfs
    | cons f fs =>
      simp only [stream_cons, length_append, length_mark]
      omega
  | body hlen hne hhdr hbuf hunread =>
    have hbody := hfits.1
    rw [bytesToRead_body hlen hne (by omega), hunread, length_append]
    omega

/-- What is left when the stream has been read to its end. -/
theorem RpcPlace.at_end (h : RpcPlace rpc [] got fs) (hfits : Fits maxPayload got fs) :
    reassemble got fs = [] ∨ rpc.bytesToRead = 0 ∧ reassemble got fs = [rpc.msgbuf] := by
  cases h with
  | header hlen hhdr hle hbuf hunread =>
    cases fs with
    | nil => exact Or.inl rfl
    | cons f fs =>
      have hlength := congrArg List.length hunread
      simp only [stream_cons, length_nil, length_drop, length_append, length_mark] at hlength
      omega
  | @body f fs hlen hne hhdr hbuf hunread =>
    have hnil : f.body = [] ∧ fs = [] := by
      rcases append_eq_nil_iff.mp hunread.symm with ⟨hbody, hstream⟩
      cases fs with
      | nil => exact ⟨hbody, rfl⟩
      | cons g gs =>
        have hlength := congrArg List.length hstream
        simp only [stream_cons, length_append, length_mark, length_nil] at hlength
        omega
    rcases hnil with ⟨hbody, rfl⟩
    have hlast : f.last = true := by
      by_contra hlast
      simp [hlen, markWord, hbody, hlast] at hne
    right
    constructor
    · rw [bytesToRead_body hlen hne (by simp [hbody]), hbody]
      rfl
    · simp [reassemble, hlast, hbody, hbuf]

/-- What a call does, seen from the stream: it goes on with the fragments, and dispatches a
message when it is complete. -/
structure Continues (got : Bytes) (fs : List Fragment) (unread : Bytes) (r : ReadReturn) :
    Prop where
  goes_on : r.keep = true → ∃ got' fs', RpcPlace r.rpc unread got' fs' ∧
    Fits maxPayload got' fs' ∧ reassemble got fs = r.dispatched.toList ++ reassemble got' fs'
  accepts : r.keep = true → ∀ m ∈ r.dispatched, asyncRpcDispatch m ≠ .invalid
  refuses : r.keep = false → ∃ m, r.dispatched = some m ∧ asyncRpcDispatch m = .invalid ∧
    [m] <+: reassemble got fs

/-- A call that dispatches nothing. -/
theorem Continues.of_place {got' : Bytes} {fs' : List Fragment} {rpc' : RpcConnection}
    (hplace : RpcPlace rpc' unread got' fs') (hfits : Fits maxPayload got' fs')
    (heq : reassemble got fs = reassemble got' fs') :
    Continues got fs unread ⟨true, rpc', none⟩ where
  goes_on _ := ⟨got', fs', hplace, hfits, heq⟩
  accepts _ m hm := by cases hm
  refuses hkeep := by cases hkeep

/-- The reader stands in front of a fragment. -/
theorem RpcPlace.next (fs : List Fragment) :
    RpcPlace ⟨got, 0, 0⟩ (stream fs) got fs :=
  .header rfl (Nat.zero_lt_succ 3) (Nat.zero_le _) (by simp) (by simp)

/-- Reading on in a header. -/
theorem received_header {n : Nat} (hlen : rpc.fragLen = 0) (hhdr : rpc.fragHdrBytes < 4)
    (hbuf : rpc.msgbuf = got ++ (stream fs).take rpc.fragHdrBytes)
    (hfits : Fits maxPayload got fs) (hn : n ≤ 4 - rpc.fragHdrBytes)
    (hle : rpc.fragHdrBytes + n ≤ (stream fs).length) :
    Continues got fs ((stream fs).drop (rpc.fragHdrBytes + n))
      (rpc.received memory (rpc.msgbuf ++ ((stream fs).drop rpc.fragHdrBytes).take n) n) := by
  have hmsg : rpc.msgbuf ++ ((stream fs).drop rpc.fragHdrBytes).take n =
      got ++ (stream fs).take (rpc.fragHdrBytes + n) := by
    rw [hbuf, append_assoc, ← take_add]
  rw [hmsg, RpcConnection.received, if_pos hlen]
  by_cases hfour : rpc.fragHdrBytes + n = 4
  · rw [if_pos hfour, hfour]
    cases fs with
    | nil =>
      rw [hfour] at hle
      exact absurd hle (by decide)
    | cons f fs =>
      have hbody := hfits.1
      have htake : (stream (f :: fs)).take 4 = f.mark := by
        rw [stream_cons, ← length_mark f, take_left]
      have hdrop : (stream (f :: fs)).drop 4 = f.body ++ stream fs := by
        rw [stream_cons, ← length_mark f, drop_left]
      have hcut : (got ++ f.mark).length - 4 = got.length := by
        simp
      have hword : ntohlAt (got ++ f.mark) got.length = markWord f.last f.body.length := by
        rw [ntohlAt, ← beNat_mark (Nat.lt_of_le_of_lt (by omega) maxPayload_lt), slice,
          drop_left, take_of_length_le (by simp)]
      simp only [htake, hdrop, hcut, hword, gStringSetSize_append]
      by_cases hzero : markWord f.last f.body.length = 0
      · rcases markWord_eq_zero.mp hzero with ⟨hlast, hnil⟩
        have hempty : f.body = [] := eq_nil_of_length_eq_zero hnil
        rw [hzero, hempty, nil_append]
        refine .of_place (RpcPlace.next fs) ?_ ?_
        · simpa [hempty] using Fits.skip hfits hlast
        · rw [reassemble_skip hlast, hempty, append_nil]
      · exact .of_place (.body rfl hzero rfl rfl rfl) hfits rfl
  · rw [if_neg hfour]
    refine .of_place (.header hlen ?_ hle rfl rfl) hfits rfl
    change rpc.fragHdrBytes + n < 4
    omega

/-- Reading on in a fragment. -/
theorem received_body {f : Fragment} {n : Nat}
    (hlen : rpc.fragLen = markWord f.last f.body.length) (hne : rpc.fragLen ≠ 0)
    (hhdr : rpc.fragHdrBytes = 0) (hbuf : rpc.msgbuf = got)
    (hfits : Fits maxPayload got (f :: fs)) (hn : n ≤ f.body.length) :
    Continues got (f :: fs) (f.body.drop n ++ stream fs)
      (rpc.received memory (rpc.msgbuf ++ f.body.take n) n) := by
  have hbody : f.body.length < 2 ^ 31 := by
    have hle := hfits.1
    exact Nat.lt_of_le_of_lt (by omega) maxPayload_lt
  have hleft : rpc.fragLen - n = markWord f.last (f.body.length - n) := by
    rw [hlen, markWord, markWord]
    omega
  rw [RpcConnection.received, if_neg hne, hleft, hbuf]
  by_cases hdone : markWord f.last (f.body.length - n) = 2 ^ 31
  · -- the last fragment is complete
    have hlast : f.last = true ∧ n = f.body.length := by
      cases hl : f.last <;> simp [markWord, hl] at hdone <;> simp <;> omega
    rcases hlast with ⟨hlast, rfl⟩
    have hmessages : reassemble got (f :: fs) = [got ++ f.body] ++ reassemble [] fs := by
      simp [reassemble, hlast]
    rw [if_pos hdone, take_length, drop_length, nil_append]
    by_cases hvalid : asyncRpcDispatch (got ++ f.body) = .invalid
    · rw [if_pos hvalid]
      constructor
      · intro hkeep
        cases hkeep
      · intro hkeep
        cases hkeep
      · intro _
        exact ⟨got ++ f.body, rfl, hvalid, _, hmessages.symm⟩
    · rw [if_neg hvalid, hhdr]
      have hrest : Fits maxPayload [] fs := by simpa [Fits, hlast] using hfits.2
      constructor
      · intro _
        exact ⟨[], fs, RpcPlace.next fs, hrest, hmessages⟩
      · intro _ m hm
        cases hm
        exact hvalid
      · intro hkeep
        cases hkeep
  · rw [if_neg hdone]
    by_cases hzero : markWord f.last (f.body.length - n) = 0
    · -- another fragment of the same message follows
      rcases markWord_eq_zero.mp hzero with ⟨hlast, hnil⟩
      have hall : n = f.body.length := by omega
      rw [hzero, hhdr, hall, take_length, drop_length, nil_append]
      exact .of_place (RpcPlace.next fs) (Fits.skip hfits hlast) (reassemble_skip hlast)
    · have hsplit : f.body.take n ++ f.body.drop n = f.body := take_append_drop n f.body
      have hplace : RpcPlace ⟨got ++ f.body.take n, markWord f.last (f.body.length - n),
          rpc.fragHdrBytes⟩ (f.body.drop n ++ stream fs) (got ++ f.body.take n)
          (⟨f.last, f.body.drop n⟩ :: fs) :=
        .body (by simp) hzero hhdr rfl rfl
      refine .of_place hplace ?_ ?_
      · have htotal := hfits.1
        refine ⟨?_, ?_⟩
        · simp only [length_append, length_take, length_drop]
          omega
        · simpa [append_assoc, hsplit] using hfits.2
      · simp [reassemble, hsplit]

/-- A read that gives `n` bytes. -/
theorem RpcPlace.received {n : Nat} (h : RpcPlace rpc unread got fs)
    (hfits : Fits maxPayload got fs) (hask : n ≤ rpc.bytesToRead) (hn : n ≤ unread.length) :
    Continues got fs (unread.drop n) (rpc.received memory (rpc.msgbuf ++ unread.take n) n) := by
  cases h with
  | header hlen hhdr hle hbuf hunread =>
    rw [bytesToRead_header hlen] at hask
    rw [hunread, length_drop] at hn
    rw [hunread, drop_drop]
    exact received_header hlen hhdr hbuf hfits hask (by omega)
  | @body f fs hlen hne hhdr hbuf hunread =>
    have hle := hfits.1
    rw [bytesToRead_body hlen hne (by omega)] at hask
    rw [hunread, take_append_of_le_length hask, drop_append_of_le_length hask]
    exact received_body hlen hne hhdr hbuf hfits hask

end Place

/-! ## Runs -/

/-- As long as the channel is open, the messages that are to come are those of the fragments that
are to come; it is closed only upon a message that is refused. -/
structure ChannelInv (sent : List Bytes) (c : RpcChannel) : Prop where
  goes_on : c.isOpen = true → ∃ got fs, RpcPlace c.rpc c.unread got fs ∧
    Fits maxPayload got fs ∧ sent = c.dispatched ++ reassemble got fs
  accepted : c.isOpen = true → ∀ m ∈ c.dispatched, asyncRpcDispatch m ≠ .invalid
  refused : c.isOpen = false → ∃ before m, c.dispatched = before ++ [m] ∧
    asyncRpcDispatch m = .invalid ∧ c.dispatched <+: sent

theorem channelInv_start {fs : List Fragment} (h : Fits maxPayload [] fs) :
    ChannelInv (reassemble [] fs) (RpcChannel.start (stream fs)) where
  goes_on _ := ⟨[], fs, RpcPlace.next fs, h, rfl⟩
  accepted _ m hm := by cases hm
  refused hclosed := by cases hclosed

theorem channelInv_step {sent : List Bytes} {c' : RpcChannel} (h : ChannelInv sent c)
    (hok : ReadsSettled c o) (hstep : channelStep c o = some c') :
    ChannelInv sent c' := by
  rcases channelStep_eq_some.mp hstep with ⟨hallows, rfl⟩
  rcases allows_iff.mp hallows with ⟨hopen, hask, hlen, _⟩
  rcases h.goes_on hopen with ⟨got, fs, hplace, hfits, hsent⟩
  have haccepted := h.accepted hopen
  rcases hok with hnormal | ⟨hagain, hzero⟩
  · have htaken : (c.unread.take o.count).length = o.count := by
      rw [length_take]
      omega
    have hcont := @RpcPlace.received _ _ _ _ o.memory _ hplace hfits hask hlen
    rw [hnormal, asyncRpcDoRead_normal (hplace.room hfits) (by omega), htaken]
    refine ⟨?_, ?_, ?_⟩
    · intro hkeep
      rcases hcont.goes_on hkeep with ⟨got', fs', hplace', hfits', heq⟩
      exact ⟨got', fs', hplace', hfits', by rw [hsent, heq, append_assoc]⟩
    · intro hkeep m hm
      rcases mem_append.mp hm with hm | hm
      · exact haccepted m hm
      · exact hcont.accepts hkeep m (Option.mem_toList.mp hm)
    · intro hkeep
      rcases hcont.refuses hkeep with ⟨m, hm, hinvalid, hprefix⟩
      refine ⟨c.dispatched, m, by rw [hm]; rfl, hinvalid, ?_⟩
      rw [hm, hsent]
      exact (prefix_append_right_inj _).mpr hprefix
  · have hcount : o.count = 0 := by omega
    have hbuf : c.rpc.msgbuf.length ≤ maxRpcMsgsize := by
      have hroom := hplace.room hfits
      omega
    rw [hagain, hcount, take_zero, asyncRpcDoRead_again hbuf hzero]
    refine ⟨fun _ => ⟨got, fs, hplace, hfits, ?_⟩, fun _ m hm => ?_, nofun⟩
    · rw [hsent, Option.toList_none, append_nil]
    · exact haccepted m (by simpa using hm)

/-- What the calls have done with the messages that were sent. -/
structure Delivers (sent : List Bytes) (c : RpcChannel) : Prop where
  /-- The buffer stays within its bound. -/
  bounded : c.rpc.msgbuf.length ≤ maxRpcMsgsize
  /-- Only messages that were sent are dispatched, in their order. -/
  in_order : c.dispatched <+: sent
  /-- The channel is closed only upon a message that `async_rpc_dispatch` refuses. -/
  closed : c.isOpen = false → ∃ before m, c.dispatched = before ++ [m] ∧
    asyncRpcDispatch m = .invalid
  /-- As long as messages are missing, no more is asked for than what is there. -/
  waits : c.isOpen = true → c.dispatched ≠ sent → c.rpc.bytesToRead ≤ c.unread.length
  /-- When everything has been read, everything has been dispatched, or the last message is
  complete in the buffer and the next read asks for nothing. -/
  complete : c.isOpen = true → c.unread = [] → c.dispatched = sent ∨
    c.rpc.bytesToRead = 0 ∧ sent = c.dispatched ++ [c.rpc.msgbuf]

/-- If no read that asks for a byte gives {lit}`G_IO_STATUS_AGAIN`, the messages that are
dispatched are those that were sent. -/
theorem dispatched_eq_sent (records : List Record)
    (hsize : ∀ r ∈ records, r.message.length ≤ maxRpcMsgsize - 4) (c : RpcChannel)
    (h : Reachable channelStep ReadsSettled
      (RpcChannel.start (stream (records.flatMap Record.fragments))) c) :
    Delivers (records.map Record.message) c := by
  have hinv : ChannelInv (records.map Record.message) c := by
    rw [← reassemble_records]
    exact h.invariant (channelInv_start (fits_records hsize))
      (fun _ _ _ hinv hok hstep => channelInv_step hinv hok hstep)
  refine ⟨msgbuf_bounded h, ?_, ?_, ?_, ?_⟩
  · cases hopen : c.isOpen with
    | true =>
      rcases hinv.goes_on hopen with ⟨got, fs, _, _, hsent⟩
      exact ⟨_, hsent.symm⟩
    | false =>
      rcases hinv.refused hopen with ⟨_, _, _, _, hprefix⟩
      exact hprefix
  · intro hclosed
    rcases hinv.refused hclosed with ⟨before, m, hm, hinvalid, _⟩
    exact ⟨before, m, hm, hinvalid⟩
  · intro hopen hmissing
    rcases hinv.goes_on hopen with ⟨got, fs, hplace, hfits, hsent⟩
    apply hplace.bytesToRead_le hfits
    rintro rfl
    exact hmissing (by rw [hsent, reassemble, append_nil])
  · intro hopen hunread
    rcases hinv.goes_on hopen with ⟨got, fs, hplace, hfits, hsent⟩
    rw [hunread] at hplace
    rcases hplace.at_end hfits with hnil | ⟨hzero, hlast⟩
    · left
      rw [hsent, hnil, append_nil]
    · right
      exact ⟨hzero, by rw [hsent, hlast]⟩

/-- A call of the null procedure. -/
def nullCall : Bytes :=
  [7, 0, 2, 100003, 3, 0, 0, 0, 0, 0].flatMap (beBytes 4)

/-- A read of `n` bytes, with cleared memory behind the buffer. -/
def normalRead (n : Nat) : ReadOutcome :=
  { status := .normal, count := n, memory := fun _ => 0 }

/-- A read for which there is nothing yet. -/
def againRead : ReadOutcome :=
  { status := .again, count := 0, memory := fun _ => 0 }

/-- A null call in four fragments, two of them empty, with reads that stop in a header and in a
fragment. -/
theorem dispatched_eq_sent_nullCall :
    let records : List Record := [⟨[nullCall.take 3, [], nullCall.drop 3], []⟩]
    ∃ c : RpcChannel,
      runWhile channelStep ReadsSettled
        (RpcChannel.start (stream (records.flatMap Record.fragments)))
        ([3, 1, 2, 1, 4, 4, 30, 7, 4].map normalRead ++ [againRead, normalRead 0]) = some c ∧
      c.dispatched = [nullCall] ∧ Delivers (records.map Record.message) c := by
  intro records
  have hfacts : ∃ c ∈ runWhile channelStep ReadsSettled
      (RpcChannel.start (stream (records.flatMap Record.fragments)))
      ([3, 1, 2, 1, 4, 4, 30, 7, 4].map normalRead ++ [againRead, normalRead 0]),
      c.dispatched = [nullCall] := by
    decide +kernel
  rcases hfacts with ⟨c, hrun, hc⟩
  refine ⟨c, hrun, hc, ?_⟩
  exact dispatched_eq_sent records (by decide +kernel) c (reachable_of_runWhile .start hrun)

/-- A null call in one fragment.  The first read gives {lit}`G_IO_STATUS_AGAIN`, and the four bytes
by which the buffer was enlarged stay in it: what is dispatched is the call behind four bytes that
were never sent. -/
theorem again_corrupts_message :
    ∃ c : RpcChannel,
      Reachable channelStep NormalOrAgain
        (RpcChannel.start (stream ([⟨[], nullCall⟩].flatMap Record.fragments))) c ∧
      c.unread = [] ∧ c.dispatched = [[0, 0, 0, 0] ++ nullCall] ∧ c.isOpen = false ∧
      asyncRpcDispatch nullCall ≠ .invalid := by
  have hfacts : ∃ c ∈ runWhile channelStep NormalOrAgain
      (RpcChannel.start (stream ([⟨[], nullCall⟩].flatMap Record.fragments)))
      [againRead, normalRead 4, normalRead 40],
      c.unread = [] ∧ c.dispatched = [[0, 0, 0, 0] ++ nullCall] ∧ c.isOpen = false ∧
        asyncRpcDispatch nullCall ≠ .invalid := by
    decide +kernel
  rcases hfacts with ⟨c, hrun, hc⟩
  exact ⟨c, reachable_of_runWhile .start hrun, hc⟩

end BlueSky
