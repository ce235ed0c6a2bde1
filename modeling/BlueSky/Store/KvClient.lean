import BlueSky.Lib.RecordMarking
import BlueSky.Lib.Socket
import BlueSky.Store.Backends

/-!
# The client of the key-value server

A call sends its request, receives the length of the response and then the response, each as a chain
of asynchronous operations that a handler object keeps alive.  When the chain ends, for whatever
reason, the destructor of the handler runs the callback, which looks at the response.

Main results:

- Theorem {lit}`handleWrite_eq`: the loop that sends a request.
- Theorem {lit}`methodCall_eq`: a call receives the answer exactly if everything is transferred and
  the length of the response arrives in one piece.
- Theorem {lit}`kvClient_reports_iff`: a call that fails on the way is reported as successful.
-/

namespace BlueSky

open List ByteLib RecordMarkingLib SocketLib

/-! ## Messages -/

/-- The result of a call, as the protocol has it. -/
inductive RpcResult where
  | success
  | failure
deriving DecidableEq, Repr

/-- A reply to a `Put` or a `Get`; the value of a reply without one is empty. -/
structure RpcReply where
  result : RpcResult
  value : Bytes
deriving DecidableEq, Repr

/-- A reply that nothing was parsed into: the result is the first one declared. -/
def RpcReply.unset : RpcReply := ⟨.success, []⟩

/-- The coding of messages, which a library does. -/
structure ReplyCodec where
  serialize : RpcReply → Bytes
  parse : Bytes → Option RpcReply
  parse_serialize : ∀ reply, parse (serialize reply) = some reply
  /-- A reply without a value is short. -/
  serialize_short : ∀ result, (serialize ⟨result, []⟩).length < 2 ^ 32

/-- The bytes of a request: the number of the method, the length, and the message. -/
def requestFrame (index : Nat) (message : Bytes) : Bytes :=
  beBytes 4 index ++ (beBytes 4 message.length ++ message)

/-- `writeResponse`: the bytes of a response. -/
def responseFrame (codec : ReplyCodec) (reply : RpcReply) : Bytes :=
  beBytes 4 (codec.serialize reply).length ++ codec.serialize reply

/-! ## The service -/

/-- `PutValue`; the backend may fail. -/
def putValue (values : Objects) (backendOk : Bool) (key value : Bytes) : Objects × RpcReply :=
  if backendOk then (Function.update values key (some value), ⟨.success, []⟩)
  else (values, ⟨.failure, []⟩)

/-- `GetValue`. -/
def getValue (values : Objects) (key : Bytes) : RpcReply :=
  match values key with
  | some value => ⟨.success, value⟩
  | none => ⟨.failure, []⟩

/-! ## A call -/

/-- How a connection behaves during a call. -/
structure KvConnection where
  /-- How many bytes the send operations take at most; {lit}`none` is an error. -/
  sends : List (Option Nat)
  /-- How many bytes of the request arrive, if some get lost. -/
  arrives : Option Nat
  /-- How many bytes of the response arrive, if some get lost. -/
  replies : Option Nat
  /-- The sizes of the pieces in which the response arrives. -/
  replySizes : List Nat
  /-- Whether an error follows what arrives, and not the end of the stream. -/
  replyFails : Bool

/-- How the chain of operations ends. -/
inductive RpcOutcome where
  | received (reply : RpcReply)
  /-- The socket is closed; `SetFailed` does nothing. -/
  | failed
  /-- An exception ends the thread. -/
  | crashed
deriving DecidableEq, Repr

/-- The chain of `handle_write`: what has been sent, and whether that is all. -/
def handleWrite : Nat → Bytes → List (Option Nat) → Bytes × Bool
  | 0, _, _ => ([], false)
  | fuel + 1, buffer, sends =>
    match sends.headD (some buffer.length) with
    | none => ([], false)
    | some k =>
      let n := min (max 1 k) buffer.length
      if buffer.drop n = [] then (buffer, true)
      else
        let (sent, all) := handleWrite fuel (buffer.drop n) sends.tail
        (buffer.take n ++ sent, all)

/-- The limit on the size of a message. -/
def totalBytesLimit : Nat := 512 * 1024 * 1024

/-- The chain of `handle_read_response`: as many bytes as the length says, in any pieces. -/
def handleReadResponse (codec : ReplyCodec) (s : Socket) (len : Nat) : RpcOutcome :=
  match readFully s len with
  | none => .failed
  | some (data, _) =>
    if totalBytesLimit < len then .crashed
    else
      match codec.parse data with
      | some reply => .received reply
      | none => .crashed

/-- `handle_read_len`: a single receive operation, whose four bytes have to come at once. -/
def handleReadLen (codec : ReplyCodec) (s : Socket) : RpcOutcome :=
  match s.read 4 with
  | (.data bytes, s) =>
    if bytes.length = 4 then handleReadResponse codec s (beNat bytes) else .failed
  | _ => .failed

/-- The part of a request that is sent, and whether that is all. -/
def KvConnection.send (conn : KvConnection) (frame : Bytes) : Bytes × Bool :=
  handleWrite frame.length frame conn.sends

/-- The server has the whole request and executes it; an exception ends it before that if the
message is over the limit. -/
def KvConnection.executed (conn : KvConnection) (frame : Bytes) : Bool :=
  frame.length ≤ (passed conn.arrives (conn.send frame).1).length ∧
    frame.length ≤ 8 + totalBytesLimit

/-- `MethodHandler::execute` and the operations that follow it. -/
def methodCall (codec : ReplyCodec) (conn : KvConnection) (frame : Bytes) (answer : RpcReply) :
    RpcOutcome :=
  if (conn.send frame).2 then
    let response := if conn.executed frame then responseFrame codec answer else []
    handleReadLen codec ⟨passed conn.replies response, conn.replySizes, conn.replyFails⟩
  else .failed

/-- The response that the callback sees. -/
def RpcOutcome.response : RpcOutcome → Option RpcReply
  | .received reply => some reply
  | .failed => some .unset
  | .crashed => none

/-- What `Put` of the client returns. -/
def clientPut (codec : ReplyCodec) (conn : KvConnection) (message : Bytes) (values : Objects)
    (backendOk : Bool) (key value : Bytes) : Option Bool :=
  (methodCall codec conn (requestFrame 0 message)
    (putValue values backendOk key value).2).response.map fun reply => reply.result = .success

/-- What `Get` of the client returns: the value if it returns true. -/
def clientGet (codec : ReplyCodec) (conn : KvConnection) (message : Bytes) (values : Objects)
    (key : Bytes) : Option (Option Bytes) :=
  (methodCall codec conn (requestFrame 1 message) (getValue values key)).response.map fun reply =>
    if reply.result = .success then some reply.value else none

/-! ## Transfers -/

/-- Either everything is sent, or something is missing. -/
theorem handleWrite_eq {fuel : Nat} {buffer : Bytes} (hfuel : buffer.length ≤ fuel)
    (hne : buffer ≠ []) (sends : List (Option Nat)) :
    handleWrite fuel buffer sends = (buffer, true) ∨
      ∃ sent rest, rest ≠ [] ∧ buffer = sent ++ rest ∧
        handleWrite fuel buffer sends = (sent, false) := by
  induction fuel generalizing buffer sends with
  | zero => exact absurd (length_eq_zero_iff.mp (Nat.le_zero.mp hfuel)) hne
  | succ fuel ih =>
    rw [handleWrite]
    cases sends.headD (some buffer.length) with
    | none => exact Or.inr ⟨[], buffer, hne, rfl, rfl⟩
    | some k =>
      dsimp only
      by_cases hlast : buffer.drop (min (max 1 k) buffer.length) = []
      · exact Or.inl (if_pos hlast)
      · rw [if_neg hlast]
        have hpos := length_pos_iff.mpr hne
        have hless : (buffer.drop (min (max 1 k) buffer.length)).length ≤ fuel := by
          rw [length_drop]
          omega
        have hsplit := take_append_drop (min (max 1 k) buffer.length) buffer
        rcases ih hless hlast sends.tail with hall | ⟨sent, rest, hrest, heq, hsome⟩
        · rw [hall]
          exact Or.inl (by rw [hsplit])
        · rw [hsome]
          refine Or.inr ⟨_, rest, hrest, ?_, rfl⟩
          rw [append_assoc, ← heq, hsplit]

variable {frame : Bytes}

/-- A request that the server executes has been sent to its end. -/
theorem sent_of_executed {conn : KvConnection} (hne : frame ≠ []) (h : conn.executed frame = true) :
    (conn.send frame).2 = true := by
  rcases handleWrite_eq (Nat.le_refl frame.length) hne conn.sends with hall | ⟨sent, rest, hrest,
    heq, hsome⟩
  · rw [KvConnection.send, hall]
  · rw [KvConnection.executed, KvConnection.send, hsome, passed_eq_take, length_take,
      decide_eq_true_eq, heq, length_append] at h
    have hall := h.1
    dsimp only at hall
    have hpos := length_pos_iff.mpr hrest
    omega

/-- All of a response of {lit}`n` bytes arrives. -/
def KvConnection.replied (conn : KvConnection) (n : Nat) : Bool :=
  4 + n ≤ conn.replies.getD (4 + n)

/-- The length of the response arrives in one piece. -/
def KvConnection.lengthWhole (conn : KvConnection) : Bool :=
  4 ≤ conn.replySizes.headD 4

theorem handleReadLen_nil (codec : ReplyCodec) {s : Socket} (h : s.incoming = []) :
    handleReadLen codec s = .failed := by
  rw [handleReadLen, read_of_nil h]
  cases s.fails with
  | true => rfl
  | false => rfl

variable {answer : RpcReply}

/-- What is received of a response, of which a part may get lost. -/
theorem handleReadLen_eq {codec : ReplyCodec} (hsize : (codec.serialize answer).length < 2 ^ 32)
    {s : Socket} {r : Nat} (hs : s.incoming = (responseFrame codec answer).take r) :
    handleReadLen codec s =
      if 4 ≤ s.sizes.headD 4 ∧ 4 + (codec.serialize answer).length ≤ r then
        if totalBytesLimit < (codec.serialize answer).length then .crashed else .received answer
      else .failed := by
  have hhead : (beBytes 4 (codec.serialize answer).length).length = 4 := length_beBytes 4 _
  have hlength : s.incoming.length = min r (4 + (codec.serialize answer).length) := by
    rw [hs, length_take, responseFrame, length_append, hhead]
  by_cases hnil : s.incoming = []
  · rw [handleReadLen_nil codec hnil, if_neg]
    rw [hnil, length_nil] at hlength
    omega
  · rw [handleReadLen, Socket.read, if_neg hnil]
    dsimp only
    by_cases hpiece : 4 ≤ s.sizes.headD 4 ∧ 4 ≤ r
    · have hfour : min (max 1 (s.sizes.headD 4)) 4 = 4 := by omega
      have htake : s.incoming.take 4 = beBytes 4 (codec.serialize answer).length := by
        rw [hs, take_take, Nat.min_eq_left hpiece.2, responseFrame, take_left' hhead]
      have hdrop : s.incoming.drop 4 = (codec.serialize answer).take (r - 4) := by
        rw [hs, drop_take, responseFrame, drop_left' hhead]
      rw [hfour, htake, if_pos hhead, hdrop, beNat_beBytes_of_lt hsize, handleReadResponse]
      by_cases hall : 4 + (codec.serialize answer).length ≤ r
      · rw [if_pos ⟨hpiece.1, hall⟩]
        have henough : (codec.serialize answer).length ≤
            ((codec.serialize answer).take (r - 4)).length := by
          rw [length_take]
          omega
        rcases @readFully_eq ⟨(codec.serialize answer).take (r - 4), s.sizes.tail, s.fails⟩ _
            henough
          with ⟨sizes, hread⟩
        have hdata : ((codec.serialize answer).take (r - 4)).take (codec.serialize answer).length =
            codec.serialize answer := by
          rw [take_take, take_of_length_le (by omega)]
        rw [hread]
        dsimp only
        rw [hdata, codec.parse_serialize]
      · rw [if_neg (fun h => hall h.2), readFully_none]
        dsimp only
        rw [length_take]
        omega
    · have hshort : (s.incoming.take (min (max 1 (s.sizes.headD 4)) 4)).length ≠ 4 := by
        rw [length_take, hlength]
        omega
      rw [if_neg hshort, if_neg]
      omega

/-- A call receives the answer exactly if everything is transferred and the length of the response
arrives in one piece. -/
theorem methodCall_eq {codec : ReplyCodec} (conn : KvConnection) (hne : frame ≠ [])
    (hsize : (codec.serialize answer).length < 2 ^ 32) :
    methodCall codec conn frame answer =
      if conn.executed frame = true ∧ conn.lengthWhole = true ∧
          conn.replied (codec.serialize answer).length = true then
        if totalBytesLimit < (codec.serialize answer).length then .crashed else .received answer
      else .failed := by
  rw [methodCall]
  cases hexecuted : conn.executed frame with
  | false =>
    rw [if_neg (show ¬(false = true ∧ _) by simp)]
    split
    · apply handleReadLen_nil
      rw [if_neg (by decide), passed_eq_take, take_nil]
    · rfl
  | true =>
    rw [if_pos (sent_of_executed hne hexecuted), if_pos rfl,
      handleReadLen_eq hsize (passed_eq_take _ _)]
    have hframe : (responseFrame codec answer).length = 4 + (codec.serialize answer).length := by
      rw [responseFrame, length_append, length_beBytes]
    simp only [KvConnection.lengthWhole, KvConnection.replied, hframe, decide_eq_true_eq, true_and]

/-! ## What is reported -/

theorem requestFrame_ne_nil (index : Nat) (message : Bytes) : requestFrame index message ≠ [] := by
  rw [← length_pos_iff, requestFrame, length_append, length_beBytes]
  omega

/-- The answer to a `Put`, and whether it says that the value was stored. -/
theorem putValue_result (values : Objects) (backendOk : Bool) (key value : Bytes) :
    (putValue values backendOk key value).2.value = [] ∧
      ((putValue values backendOk key value).2.result = .success ↔ backendOk = true) := by
  cases backendOk with
  | true => exact ⟨rfl, by simp [putValue]⟩
  | false => exact ⟨rfl, by simp [putValue]⟩

/-- The request is executed, and its response comes back as the client wants it. -/
abbrev KvConnection.accepts (conn : KvConnection) (frame response : Bytes) : Prop :=
  conn.executed frame = true ∧ conn.lengthWhole = true ∧ conn.replied response.length = true

theorem clientPut_iff (codec : ReplyCodec) (conn : KvConnection) (message : Bytes)
    (values : Objects) (backendOk : Bool) (key value : Bytes) :
    (clientPut codec conn message values backendOk key value = some true →
        conn.executed (requestFrame 0 message) = true ∧ backendOk = true) ↔
      conn.accepts (requestFrame 0 message)
        (codec.serialize (putValue values backendOk key value).2) ∨
      (conn.executed (requestFrame 0 message) = true ∧ backendOk = true) := by
  rcases putValue_result values backendOk key value with ⟨hvalue, hresult⟩
  rw [clientPut]
  generalize (putValue values backendOk key value).2 = answer at hvalue hresult ⊢
  have hsize : (codec.serialize answer).length < 2 ^ 32 := by
    cases answer with
    | mk result value =>
      rw [show value = [] from hvalue]
      exact codec.serialize_short result
  rw [methodCall_eq conn (requestFrame_ne_nil 0 message) hsize]
  by_cases haccepts : conn.accepts (requestFrame 0 message) (codec.serialize answer)
  · rw [if_pos haccepts]
    refine iff_of_true ?_ (Or.inl haccepts)
    split
    · intro h
      cases h
    · intro h
      refine ⟨haccepts.1, hresult.mp ?_⟩
      simpa [RpcOutcome.response] using h
  · rw [if_neg haccepts]
    simp [haccepts, RpcOutcome.response, RpcReply.unset]

theorem clientGet_iff (codec : ReplyCodec) (conn : KvConnection) (message : Bytes)
    {values : Objects} {key : Bytes}
    (hsize : (codec.serialize (getValue values key)).length < 2 ^ 32) :
    (∀ v, clientGet codec conn message values key = some (some v) →
        conn.executed (requestFrame 1 message) = true ∧ values key = some v) ↔
      conn.accepts (requestFrame 1 message) (codec.serialize (getValue values key)) ∨
      (conn.executed (requestFrame 1 message) = true ∧ values key = some []) := by
  rw [clientGet, methodCall_eq conn (requestFrame_ne_nil 1 message) hsize]
  by_cases haccepts : conn.accepts (requestFrame 1 message) (codec.serialize (getValue values key))
  · rw [if_pos haccepts]
    refine iff_of_true ?_ (Or.inl haccepts)
    intro v
    split
    · intro h
      cases h
    · intro h
      refine ⟨haccepts.1, ?_⟩
      rw [getValue] at h
      cases hkey : values key with
      | none =>
        rw [hkey] at h
        simp [RpcOutcome.response] at h
      | some value =>
        rw [hkey] at h
        simpa [RpcOutcome.response] using h
  · rw [if_neg haccepts]
    simp [haccepts, RpcOutcome.response, RpcReply.unset]

theorem accepted_iff (codec : ReplyCodec) (conn : KvConnection) (hne : frame ≠ [])
    (hsize : (codec.serialize answer).length < 2 ^ 32) (hexecuted : conn.executed frame = true)
    (hreplied : conn.replied (codec.serialize answer).length = true) :
    methodCall codec conn frame answer = .received answer ↔
      conn.lengthWhole = true ∧ (codec.serialize answer).length ≤ totalBytesLimit := by
  rw [methodCall_eq conn hne hsize]
  cases hwhole : conn.lengthWhole with
  | false => simp
  | true =>
    rw [if_pos ⟨hexecuted, rfl, hreplied⟩]
    by_cases hlimit : totalBytesLimit < (codec.serialize answer).length
    · simp [hlimit]
    · simp [hlimit, Nat.le_of_not_lt hlimit]

/-- A call that fails on the way is reported as successful.  So `Put` returns true only for a value
that was stored exactly if everything is transferred, or the value was stored anyway; `Get` returns
true only with the value that was sent exactly if everything is transferred, or the value is empty
anyway; and a response that is transferred without an error is accepted exactly if its length comes
in one piece and it is not too large. -/
theorem kvClient_reports_iff (codec : ReplyCodec) (conn : KvConnection) (message : Bytes)
    (values : Objects) (backendOk : Bool) (key value : Bytes)
    (hsize : (codec.serialize (getValue values key)).length < 2 ^ 32) :
    ((clientPut codec conn message values backendOk key value = some true →
        conn.executed (requestFrame 0 message) = true ∧ backendOk = true) ↔
      conn.accepts (requestFrame 0 message)
        (codec.serialize (putValue values backendOk key value).2) ∨
      (conn.executed (requestFrame 0 message) = true ∧ backendOk = true)) ∧
    ((∀ v, clientGet codec conn message values key = some (some v) →
        conn.executed (requestFrame 1 message) = true ∧ values key = some v) ↔
      conn.accepts (requestFrame 1 message) (codec.serialize (getValue values key)) ∨
      (conn.executed (requestFrame 1 message) = true ∧ values key = some [])) ∧
    (∀ (index : Nat) (answer : RpcReply), (codec.serialize answer).length < 2 ^ 32 →
      conn.executed (requestFrame index message) = true →
      conn.replied (codec.serialize answer).length = true →
      (methodCall codec conn (requestFrame index message) answer = .received answer ↔
        conn.lengthWhole = true ∧ (codec.serialize answer).length ≤ totalBytesLimit)) := by
  refine ⟨clientPut_iff codec conn message values backendOk key value,
    clientGet_iff codec conn message hsize, ?_⟩
  intro index answer hanswer hexecuted hreplied
  exact accepted_iff codec conn (requestFrame_ne_nil index message) hanswer hexecuted hreplied

/-- A coding of replies: a byte for the result, and the value. -/
def plainCodec : ReplyCodec where
  serialize := fun reply => (if reply.result = .success then 0 else 1) :: reply.value
  parse := fun bytes =>
    match bytes with
    | [] => none
    | b :: value => some ⟨if b = 0 then .success else .failure, value⟩
  parse_serialize := by
    rintro ⟨result, value⟩
    cases result with
    | success => rfl
    | failure => rfl
  serialize_short := by
    intro result
    cases result with
    | success => decide
    | failure => decide

/-- A connection on which everything arrives, in pieces of the given sizes. -/
def openConnection (replySizes : List Nat) : KvConnection where
  sends := []
  arrives := none
  replies := none
  replySizes := replySizes
  replyFails := false

/-- Everything is transferred, so what the client reports is right. -/
theorem kvClient_reports_open :
    clientGet plainCodec (openConnection []) [97] (fun _ => some [7]) [97] = some (some [7]) ∧
      (clientPut plainCodec (openConnection []) [97] (fun _ => some [7]) true [97] [8] = some true →
        (openConnection []).executed (requestFrame 0 [97]) = true ∧ true = true) :=
  ⟨by decide, (kvClient_reports_iff plainCodec (openConnection []) [97] (fun _ => some [7]) true
    [97] [8] (by decide)).1.mpr (Or.inl (by decide +kernel))⟩

/-- A connection on which the first send fails. -/
def closedConnection : KvConnection :=
  { openConnection [] with sends := [none] }

/-- A `Put` that was never sent returns true, so does a `Get`, with an empty value; and a response
is not accepted if its length comes in two pieces. -/
theorem kvClient_reports_lost :
    (clientPut plainCodec closedConnection [97] (fun _ => some [7]) true [97] [8] = some true ∧
      closedConnection.executed (requestFrame 0 [97]) = false) ∧
    clientGet plainCodec closedConnection [97] (fun _ => some [7]) [97] = some (some []) ∧
    methodCall plainCodec (openConnection [2]) (requestFrame 1 [97]) ⟨.failure, []⟩ = .failed := by
  refine ⟨⟨?_, ?_⟩, ?_, ?_⟩ <;> decide +kernel

end BlueSky
