import BlueSky.Store.Server

/-!
# Requests sent back to back

Clients of the simple server may send the next request before the reply to the last one.  The bytes
of the requests then arrive in pieces that have nothing to do with where a request ends.

Main results:

- Theorem {lit}`Serving.step`: an iteration keeps what the connection has done and has still to do.
- Theorem {lit}`Serving.finished`: after enough iterations the commands have been executed.
- Theorem {lit}`handleConnection_executes`: the commands are executed as if each had arrived alone,
  where a body is never in the buffer together with bytes that follow it, or is as long as its line;
  the array of arguments is left exactly by lines with too many words.
-/

namespace BlueSky

open List ByteLib DecimalLib SocketLib WordsLib

/-! ## Requests -/

/-- A request of the protocol. -/
inductive Request where
  | get (file : Bytes) (offset length : Nat)
  | put (file body : Bytes)
deriving DecidableEq, Repr

/-- The command that a request asks for. -/
def Request.command : Request → ServerCommand
  | .get file offset length => .get (normalizePath file) offset length
  | .put file body => .put (normalizePath file) body

/-- The numbers fit in an `int`, and an object is not too large. -/
def Request.Fits : Request → Prop
  | .get _ offset length => offset < 2 ^ 31 ∧ length < 2 ^ 31
  | .put _ body => body.length ≤ maxObjectSize

instance (r : Request) : Decidable r.Fits := by
  cases r with
  | get file offset length => exact inferInstanceAs (Decidable (_ ∧ _))
  | put file body => exact inferInstanceAs (Decidable (_ ≤ _))

/-- The digits of a number. -/
def Numeral (digits : Bytes) (n : Nat) : Prop :=
  digits ≠ [] ∧ (∀ b ∈ digits, isDigit b = true) ∧ digitsValue 0 digits = n

/-- A request with the line it is sent as. -/
structure SentRequest where
  line : Bytes
  request : Request
deriving DecidableEq, Repr

/-- What is sent behind the line. -/
def SentRequest.body (q : SentRequest) : Bytes :=
  match q.request with
  | .get _ _ _ => []
  | .put _ body => body

/-- The bytes of a request. -/
def SentRequest.encode (q : SentRequest) : Bytes :=
  q.line ++ newline :: q.body

/-- The bytes of requests that are sent back to back. -/
def encodeAll (requests : List SentRequest) : Bytes :=
  requests.flatMap SentRequest.encode

/-- The line has the words of the request. -/
def SentRequest.Words (q : SentRequest) : Prop :=
  match q.request with
  | .get file offset length => ∃ digits digits', Numeral digits offset ∧ Numeral digits' length ∧
      words isWhitespace q.line = [chars ['G', 'E', 'T'], file, digits, digits']
  | .put file body => ∃ digits, Numeral digits body.length ∧
      words isWhitespace q.line = [chars ['P', 'U', 'T'], file, digits]

/-- The line of a request is one line with the right words that has room in the buffer. -/
structure SentRequest.WellFormed (q : SentRequest) : Prop where
  words : q.Words
  newline_free : newline ∉ q.line
  nul_free : (0 : Byte) ∉ q.line
  short : q.line.length < maxCmdLen

/-- The line of a request, as it is parsed. -/
def Request.commandLine : Request → CommandLine
  | .get file offset length => .get (normalizePath file) offset length
  | .put file body => .put (normalizePath file) body.length

theorem atoi_numeral {digits : Bytes} {n : Nat} (h : Numeral digits n) (hn : n < 2 ^ 31) :
    atoi digits = n := by
  rcases h with ⟨hne, hdigits, hvalue⟩
  have hread := @atoi_digits digits [] hdigits hne (by simp) (by rw [hvalue]; exact hn)
  rwa [append_nil, hvalue] at hread

/-- The line of a well-formed request is parsed as the request. -/
theorem SentRequest.WellFormed.parse {q : SentRequest} (h : q.WellFormed) (hfits : q.request.Fits) :
    ∃ args, parseArgs q.line = some args ∧ parseCommand args = some q.request.commandLine := by
  have hwords := h.words
  unfold SentRequest.Words at hwords
  cases hrequest : q.request with
  | get file offset length =>
    rw [hrequest] at hwords hfits
    rcases hwords with ⟨digits, digits', hoffset, hlength, hwords⟩
    refine ⟨_, by rw [parseArgs_eq, hwords]; exact if_pos (by simp [maxArgs]), ?_⟩
    simp only [map_cons, map_nil, parseCommand, if_true, Request.commandLine,
      atoi_numeral hoffset hfits.1, atoi_numeral hlength hfits.2]
  | put file body =>
    rw [hrequest] at hwords hfits
    rcases hwords with ⟨digits, hsize, hwords⟩
    have hsmall : body.length < 2 ^ 31 := lt_of_le_of_lt hfits (by decide)
    refine ⟨_, by rw [parseArgs_eq, hwords]; exact if_pos (by simp [maxArgs]), ?_⟩
    simp only [map_cons, map_nil, parseCommand, if_true, Request.commandLine,
      atoi_numeral hsize hsmall]

/-! ## One command -/

theorem ServerState.execute_eq (s : ServerState) (c : ServerCommand) :
    s.execute c =
      { s with
        served := (s.served.exec c).1
        status := if (s.served.exec c).2 then s.status else .exited } := by
  rw [ServerState.execute]
  cases s.served.exec c with
  | mk served alive =>
    cases alive with
    | true => rfl
    | false => rfl

theorem execAll_cons (s : Served) (c : ServerCommand) (cs : List ServerCommand) :
    s.execAll (c :: cs) =
      if (s.exec c).2 then (s.exec c).1.execAll cs else ((s.exec c).1, false) := by
  rw [Served.execAll]
  cases s.exec c with
  | mk served alive =>
    cases alive with
    | true => rfl
    | false => rfl

/-- Every command that is reached is recorded. -/
theorem executed_exec (s : Served) (c : ServerCommand) :
    (s.exec c).1.executed = s.executed ++ [c] := by
  cases c with
  | get path start len => rfl
  | put path body =>
    rw [Served.exec]
    cases cmdPut s.disk path body with
    | mk disk reply =>
      cases reply with
      | none => rfl
      | some reply => rfl

/-- If the process is still there, all commands have been executed. -/
theorem executed_execAll {s : Served} {cs : List ServerCommand} (h : (s.execAll cs).2 = true) :
    (s.execAll cs).1.executed = s.executed ++ cs := by
  induction cs generalizing s with
  | nil => exact (append_nil _).symm
  | cons c cs ih =>
    rw [execAll_cons] at h ⊢
    by_cases halive : (s.exec c).2 = true
    · rw [if_pos halive] at h ⊢
      rw [ih h, executed_exec, append_assoc, singleton_append]
    · rw [if_neg halive] at h
      cases h

theorem toNat_size {n : Nat} (h : n ≤ maxObjectSize) : ((n : Int) % 2 ^ 64).toNat = n := by
  have hmax : maxObjectSize < 2 ^ 64 := by decide
  omega

theorem ServerState.dispatch_get (s : ServerState) (cmdlen : Nat) {file : Bytes}
    {offset length : Nat} (h : offset < 2 ^ 31) :
    s.dispatch cmdlen (Request.get file offset length).commandLine =
      s.execute (Request.get file offset length).command := by
  have hoffset : ((offset : Int) % 2 ^ 64).toNat = offset := by
    omega
  rw [Request.commandLine, Request.command, ServerState.dispatch, hoffset]

/-- A body that has arrived, or is on the way, is stored; if there are more bytes in the buffer than
its own, its length has to be that of the line. -/
theorem ServerState.put_eq {s : ServerState} (h : s.BufferOk) {cmdlen : Nat}
    {path body more : Bytes}
    (hsize : body.length ≤ maxObjectSize) (hstream : s.stream = body ++ more)
    (hfits : s.buflen ≤ body.length ∨ cmdlen = body.length) :
    ∃ s' : ServerState, s.put cmdlen path body.length = s'.execute (.put path body) ∧
      s'.served = s.served ∧ s'.status = s.status ∧ s'.BufferOk ∧ s'.stream = more ∧
      s'.remaining ≤ s.remaining := by
  have hlength := h.length_buffered
  have hused := h.used
  rw [ServerState.put, toNat_size hsize]
  dsimp only
  rw [if_neg (by omega)]
  by_cases hmore : s.buflen ≤ body.length
  · -- The rest of the body is read.
    have hmin : min s.buflen body.length = s.buflen := Nat.min_eq_left hmore
    rw [hmin, if_neg (lt_irrefl _)]
    have hbody : body = s.buffered ++ body.drop s.buflen := by
      have htake := congrArg (List.take s.buflen) hstream
      rw [ServerState.stream, take_left' hlength, take_append_of_le_length hmore] at htake
      rw [htake, take_append_drop]
    have hincoming : s.socket.incoming = body.drop s.buflen ++ more := by
      rw [ServerState.stream, hbody, append_assoc] at hstream
      exact append_cancel_left hstream
    have henough : body.length - s.buflen ≤ s.socket.incoming.length := by
      rw [hincoming, length_append, length_drop]
      omega
    rcases readFully_eq henough with ⟨sizes, hread⟩
    have htake : s.socket.incoming.take (body.length - s.buflen) = body.drop s.buflen := by
      rw [hincoming, take_left' (by rw [length_drop])]
    have hdrop : s.socket.incoming.drop (body.length - s.buflen) = more := by
      rw [hincoming, drop_left' (by rw [length_drop])]
    rw [hread, htake, hdrop]
    refine ⟨{ s with buflen := 0, socket := { s.socket with incoming := more, sizes := sizes } },
      ?_, rfl, rfl, ⟨h.size, Nat.zero_le _⟩, ?_, ?_⟩
    · dsimp only
      rw [← ServerState.buffered, ← hbody]
    · rw [ServerState.stream, ServerState.buffered, take_zero, nil_append]
    · rw [ServerState.remaining, ServerState.remaining, hincoming, length_append]
      dsimp only
      omega
  · -- The body is in the buffer, and as long as the line.
    have hcmdlen := hfits.resolve_left hmore
    have hmin : min s.buflen body.length = body.length := Nat.min_eq_right (by omega)
    rw [hmin, if_pos (by omega), Nat.sub_self]
    have hwrap : (s.buflen + 2 ^ 64 - cmdlen) % 2 ^ 64 = s.buflen - body.length := by
      have hmax : maxCmdLen < 2 ^ 64 := by decide
      omega
    rw [hwrap]
    have hroom : body.length + (s.buflen - body.length) ≤ s.cmdbuf.length := by
      rw [h.size]
      omega
    have hbody : s.cmdbuf.take body.length = body := by
      have htake := congrArg (List.take body.length) hstream
      rw [ServerState.stream, take_append_of_le_length (by omega), ServerState.buffered,
        take_take, Nat.min_eq_left (by omega), take_left] at htake
      exact htake
    rcases readFully_eq (Nat.zero_le s.socket.incoming.length) with ⟨sizes, hread⟩
    rw [hbody]
    dsimp only
    rw [hread, take_zero, drop_zero]
    dsimp only
    rw [append_nil]
    refine ⟨{ s with
        cmdbuf := memmove s.cmdbuf body.length (s.buflen - body.length)
        buflen := s.buflen - body.length
        socket := { s.socket with sizes := sizes } }, rfl, rfl, rfl,
      ⟨(length_memmove hroom).trans h.size, ?_⟩, ?_, ?_⟩
    · change s.buflen - body.length ≤ maxCmdLen
      omega
    · rw [ServerState.stream, ServerState.buffered]
      dsimp only
      rw [take_memmove hroom, ← drop_take, ← ServerState.buffered]
      have hdrop := congrArg (List.drop body.length) hstream
      rw [drop_left, ServerState.stream, drop_append_of_le_length (by omega)] at hdrop
      exact hdrop
    · rw [ServerState.remaining, ServerState.remaining]
      dsimp only
      omega

/-- The process exits if the body does not arrive. -/
theorem ServerState.put_truncated {s : ServerState} (h : s.BufferOk) {cmdlen n : Nat} {path : Bytes}
    (hsize : n ≤ maxObjectSize) (hstream : s.stream.length < n) :
    (s.put cmdlen path n).served = s.served ∧ (s.put cmdlen path n).status = .exited := by
  rw [ServerState.stream, length_append, h.length_buffered] at hstream
  have hmin : min s.buflen n = s.buflen := Nat.min_eq_left (by omega)
  have hread : readFully s.socket (n - s.buflen) = none := readFully_none (by omega)
  rw [ServerState.put, toNat_size hsize]
  dsimp only
  rw [if_neg (by omega), hmin, if_neg (lt_irrefl _), hread]
  exact ⟨rfl, rfl⟩

/-! ## Iterations of the loop -/

/-- The size of the object, if the line in the buffer is a `PUT`. -/
def ServerState.putSize (s : ServerState) : Option Int :=
  if newline ∈ s.buffered then
    match (parseArgs s.text).bind parseCommand with
    | some (.put _ size) => some size
    | _ => none
  else none

/-- The bytes behind the line of a `PUT` that are in the buffer belong to its body, or the body is
as long as the line. -/
def ServerState.PutFits (s : ServerState) : Prop :=
  ∀ size ∈ s.putSize, ((s.buflen - s.cmdlen : Nat) : Int) ≤ size ∨ (s.cmdlen : Int) = size

instance (s : ServerState) : Decidable s.PutFits :=
  inferInstanceAs (Decidable (∀ size ∈ s.putSize, _))

/-- A request that has not been sent to its end. -/
def Truncated (bytes : Bytes) : Prop :=
  ∃ (q : SentRequest) (missing : Bytes), q.WellFormed ∧ q.request.Fits ∧ missing ≠ [] ∧
    bytes ++ missing = q.encode

/-- The connection still has to execute the requests {lit}`todo`, which are followed by
{lit}`rest`, and will then have done {lit}`result`. -/
structure Serving (s : ServerState) (todo : List SentRequest) (rest : Bytes)
    (result : Served × Bool) : Prop where
  running : s.status = .running
  buffer : s.BufferOk
  stream : s.stream = encodeAll todo ++ rest
  wellFormed : ∀ q ∈ todo, q.WellFormed
  fits : ∀ q ∈ todo, q.request.Fits
  result : s.served.execAll (todo.map fun q => q.request.command) = result

/-- The connection has ended and has done {lit}`result`. -/
structure Finished (s : ServerState) (result : Served × Bool) : Prop where
  served : s.served = result.1
  status : s.status = .closed ∨ s.status = .exited

section Serving

variable {s s' : ServerState} {q : SentRequest} {todo : List SentRequest} {rest : Bytes}
  {result : Served × Bool}

/-- Executing the next command. -/
theorem Serving.execute (h : Serving s (q :: todo) rest result) (hrun : s'.status = s.status)
    (hserved : s'.served = s.served) (hbuffer : s'.BufferOk)
    (hstream : s'.stream = encodeAll todo ++ rest) (hless : s'.remaining < s.remaining) :
    Finished (s'.execute q.request.command) result ∨
      Serving (s'.execute q.request.command) todo rest result ∧
        (s'.execute q.request.command).remaining < s.remaining := by
  have hresult := h.result
  rw [map_cons, execAll_cons, ← hserved] at hresult
  rw [ServerState.execute_eq]
  by_cases halive : (s'.served.exec q.request.command).2 = true
  · rw [if_pos halive] at hresult
    exact Or.inr ⟨⟨by simp [halive, hrun, h.running], ⟨hbuffer.size, hbuffer.used⟩, hstream,
      fun p hp => h.wellFormed p (mem_cons_of_mem q hp),
      fun p hp => h.fits p (mem_cons_of_mem q hp), hresult⟩, hless⟩
  · rw [if_neg halive] at hresult
    exact Or.inl ⟨by rw [← hresult], Or.inr (by simp [halive])⟩

/-- The first line of what has not been used. -/
theorem Serving.exists_line (h : Serving s todo rest result) (hrest : Truncated rest) :
    ∃ (q : SentRequest) (missing after : Bytes), q.WellFormed ∧ q.request.Fits ∧
      s.stream ++ missing = q.line ++ newline :: after := by
  cases todo with
  | nil =>
    rcases hrest with ⟨q, missing, hwell, hfits, _, hencode⟩
    refine ⟨q, missing, q.body, hwell, hfits, ?_⟩
    rw [h.stream]
    exact hencode
  | cons q todo =>
    refine ⟨q, [], q.body ++ (encodeAll todo ++ rest), h.wellFormed q mem_cons_self,
      h.fits q mem_cons_self, ?_⟩
    rw [h.stream, encodeAll, flatMap_cons, SentRequest.encode, encodeAll]
    simp

/-- The line of a request is in the buffer, and {lit}`after` follows it, of which {lit}`missing` is
not sent. -/
structure ServerState.AtLine (s : ServerState) (q : SentRequest) (missing after : Bytes) :
    Prop where
  buffer : s.shifted.BufferOk
  stream : s.shifted.stream ++ missing = after
  cmdlen : s.cmdlen = q.line.length + 1
  less : s.shifted.remaining < s.remaining
  step : serverStep s = s.shifted.dispatch (q.line.length + 1) q.request.commandLine
  putSize : s.putSize = match q.request with
    | .get _ _ _ => none
    | .put _ body => some (body.length : Int)

theorem ServerState.BufferOk.atLine (h : s.BufferOk) (hrun : s.status = .running)
    (hwell : q.WellFormed) (hfits : q.request.Fits) (hmem : newline ∈ s.buffered)
    {missing after : Bytes} (hstream : s.stream ++ missing = q.line ++ newline :: after) :
    s.AtLine q missing after := by
  rw [ServerState.stream, append_assoc] at hstream
  rcases exists_of_mem hwell.newline_free hmem hstream with ⟨leftover, hbuffered, hafter⟩
  rcases h.shifted hwell.newline_free hbuffered with ⟨hbuffer, hleftover, hcmdlen⟩
  have hline := ServerState.line_eq hwell.newline_free hbuffered
  have htext : s.text = q.line := by
    rw [ServerState.text_eq (by rw [hline]; exact hwell.nul_free), hline]
  rcases hwell.parse hfits with ⟨args, hargs, hcommand⟩
  refine ⟨hbuffer, ?_, hcmdlen, ?_, ?_, ?_⟩
  · rw [ServerState.stream, hleftover, append_assoc]
    exact hafter
  · have hlength := h.length_buffered
    rw [hbuffered, length_append, length_cons] at hlength
    change 2 * s.socket.incoming.length + (s.buflen - s.cmdlen) <
      2 * s.socket.incoming.length + s.buflen
    omega
  · rw [serverStep_command hrun h hmem (by rw [htext]; exact hargs) hcommand, hcmdlen]
  · rw [ServerState.putSize, if_pos hmem, htext, hargs, Option.bind_some, hcommand]
    cases q.request with
    | get file offset length => rfl
    | put file body => rfl

/-- Nothing is executed for a request that has not been sent to its end. -/
theorem Serving.step_truncated (h : Serving s [] rest result) (hrest : Truncated rest)
    (hmem : newline ∈ s.buffered) : Finished (serverStep s) result := by
  rcases hrest with ⟨q, missing, hwell, hfits, hmissing, hencode⟩
  rw [← nil_append rest, ← show s.stream = [] ++ rest from h.stream] at hencode
  have hline := h.buffer.atLine h.running hwell hfits hmem hencode
  have hshort : s.shifted.stream.length < q.body.length := by
    have hpos := length_pos_iff.mpr hmissing
    rw [← hline.stream, length_append]
    omega
  rw [hline.step]
  cases hrequest : q.request with
  | get file offset length =>
    rw [SentRequest.body, hrequest] at hshort
    exact absurd hshort (Nat.not_lt_zero _)
  | put file body =>
    rw [SentRequest.body, hrequest] at hshort
    rw [hrequest] at hfits
    rcases @ServerState.put_truncated _ hline.buffer (q.line.length + 1) _ (normalizePath file)
      hfits hshort with ⟨hserved, hstatus⟩
    exact ⟨by rw [← h.result]; exact hserved, Or.inr hstatus⟩

/-- The next request is executed when its line is in the buffer. -/
theorem Serving.step_command (h : Serving s (q :: todo) rest result) (hput : s.PutFits)
    (hmem : newline ∈ s.buffered) :
    Finished (serverStep s) result ∨
      Serving (serverStep s) todo rest result ∧ (serverStep s).remaining < s.remaining := by
  have hfits := h.fits q mem_cons_self
  have hline := h.buffer.atLine h.running (h.wellFormed q mem_cons_self) hfits hmem
    (show s.stream ++ [] = q.line ++ newline :: (q.body ++ (encodeAll todo ++ rest)) by
      rw [h.stream, encodeAll, flatMap_cons, SentRequest.encode, encodeAll]
      simp)
  have hstream := hline.stream
  rw [append_nil] at hstream
  rw [hline.step]
  cases hrequest : q.request with
  | get file offset length =>
    rw [hrequest] at hfits
    rw [SentRequest.body, hrequest, nil_append] at hstream
    rw [s.shifted.dispatch_get _ hfits.1, ← hrequest]
    exact h.execute rfl rfl hline.buffer hstream hline.less
  | put file body =>
    have hsize := hline.putSize
    rw [hrequest] at hfits hsize
    rw [SentRequest.body, hrequest] at hstream
    have hcond : s.shifted.buflen ≤ body.length ∨ q.line.length + 1 = body.length := by
      have hcases := hput _ hsize
      change s.buflen - s.cmdlen ≤ body.length ∨ _
      rw [hline.cmdlen] at hcases ⊢
      omega
    rcases @ServerState.put_eq _ hline.buffer _ (normalizePath file) _ _ hfits hstream hcond with
      ⟨s', heq, hserved, hstatus, hbuffer, hstream', hle⟩
    have hcommand : s.shifted.dispatch (q.line.length + 1) (Request.put file body).commandLine =
        s'.execute q.request.command := by
      rw [hrequest]
      exact heq
    rw [hcommand]
    exact h.execute hstatus hserved hbuffer hstream' (lt_of_le_of_lt hle hline.less)

/-- An iteration keeps what the connection has done and has still to do. -/
theorem Serving.step (h : Serving s todo rest result) (hrest : Truncated rest)
    (hput : s.PutFits) :
    Finished (serverStep s) result ∨
      ∃ todo', todo' <:+ todo ∧ Serving (serverStep s) todo' rest result ∧
        (serverStep s).remaining < s.remaining := by
  by_cases hmem : newline ∈ s.buffered
  · cases todo with
    | nil => exact Or.inl (h.step_truncated hrest hmem)
    | cons q todo =>
      rcases h.step_command hput hmem with hdone | hnext
      · exact Or.inl hdone
      · exact Or.inr ⟨todo, suffix_cons q todo, hnext⟩
  · -- More of the first line has to come.
    rcases h.exists_line hrest with ⟨q, missing, after, hwell, _, hline⟩
    rw [ServerState.stream, append_assoc] at hline
    have hshort := length_le_of_not_mem hmem hline
    rw [h.buffer.length_buffered] at hshort
    have hroom : s.buflen < maxCmdLen := lt_of_le_of_lt hshort hwell.short
    by_cases hincoming : s.socket.incoming = []
    · left
      rw [serverStep_closed h.running hmem hroom hincoming]
      have htodo : todo = [] := by
        cases todo with
        | nil => rfl
        | cons q' todo =>
          have hstream := h.stream
          rw [ServerState.stream, hincoming, append_nil, encodeAll, flatMap_cons,
            SentRequest.encode] at hstream
          exact absurd (by rw [hstream]; simp) hmem
      have hresult := h.result
      rw [htodo] at hresult
      exact ⟨by rw [← hresult]; rfl, Or.inl rfl⟩
    · right
      rcases serverStep_read h.running h.buffer hmem hroom hincoming with
        ⟨hrun, hbuffer, hserved, hstream, hless⟩
      exact ⟨todo, suffix_refl todo, ⟨hrun, hbuffer, hstream.trans h.stream, h.wellFormed,
        h.fits, by rw [hserved]; exact h.result⟩, hless⟩

/-! ## Whole connections -/

theorem iterate_serverStep (h : s.status ≠ .running) (n : Nat) :
    serverStep^[n] s = s := by
  induction n with
  | zero => rfl
  | succ n ih => rw [Function.iterate_succ_apply, serverStep_of_ne h, ih]

/-- After enough iterations the commands have been executed. -/
theorem Serving.finished {n : Nat} (h : Serving s todo rest result) (hrest : Truncated rest)
    (hput : ∀ k < n, ∀ todo', todo' <:+ todo → Serving (serverStep^[k] s) todo' rest result →
      (serverStep^[k] s).PutFits) (hn : s.remaining < n) :
    Finished (serverStep^[n] s) result := by
  induction n generalizing s todo with
  | zero => exact absurd hn (Nat.not_lt_zero _)
  | succ n ih =>
    rw [Function.iterate_succ_apply]
    have hfits := hput 0 (Nat.succ_pos n) todo (suffix_refl todo) h
    rcases h.step hrest hfits with hdone | ⟨todo', hsuffix, hnext, hless⟩
    · rw [iterate_serverStep]
      · exact hdone
      · rcases hdone.status with hstatus | hstatus <;> simp [hstatus]
    · apply ih hnext
      · intro k hk todo'' hsuffix'
        rw [← Function.iterate_succ_apply]
        exact hput (k + 1) (Nat.succ_lt_succ hk) todo'' (hsuffix'.trans hsuffix)
      · omega

/-- The start of a connection on which requests arrive. -/
theorem serving_start {socket : Socket} {cmdbuf rest : Bytes} (hbuf : cmdbuf.length = maxCmdLen)
    (disk : Disk) {requests : List SentRequest} (hwell : ∀ q ∈ requests, q.WellFormed)
    (hfits : ∀ q ∈ requests, q.request.Fits)
    (hstream : socket.incoming = encodeAll requests ++ rest) :
    Serving (.start socket cmdbuf disk) requests rest
      ((Served.mk disk [] []).execAll (requests.map fun q => q.request.command)) :=
  ⟨rfl, ⟨hbuf, Nat.zero_le _⟩, hstream, hwell, hfits, rfl⟩

theorem truncated_nil : Truncated [] := by
  refine ⟨⟨chars ['P', 'U', 'T', ' ', 'a', ' ', '0'], .put (chars ['a']) []⟩,
    _, ⟨⟨chars ['0'], ?_, ?_⟩, ?_, ?_, ?_⟩, ?_, ?_, rfl⟩
  · exact ⟨by decide, by decide, by decide⟩
  · decide
  · decide
  · decide
  · decide
  · decide
  · decide

/-- While no more than one request has arrived, nothing follows the body of a `PUT`. -/
theorem putFits_of_encode (hrun : s.status = .running) (h : s.BufferOk) (hwell : q.WellFormed)
    (hfits : q.request.Fits) {missing : Bytes} (hstream : s.stream ++ missing = q.encode) :
    s.PutFits := by
  intro size hsize
  have hmem : newline ∈ s.buffered := by
    by_contra hno
    rw [ServerState.putSize, if_neg hno] at hsize
    cases hsize
  have hline := h.atLine hrun hwell hfits hmem hstream
  rw [hline.putSize] at hsize
  cases hrequest : q.request with
  | get file offset length =>
    rw [hrequest] at hsize
    cases hsize
  | put file body =>
    rw [hrequest] at hsize
    have hlength := congrArg List.length hline.stream
    rw [SentRequest.body, hrequest, length_append, ServerState.stream, length_append,
      hline.buffer.length_buffered] at hlength
    rw [← Option.some.inj hsize]
    change s.buflen - s.cmdlen + _ + _ = body.length at hlength
    omega

/-- A request that arrives alone is executed if it arrives to its end. -/
theorem handleConnection_alone (hwell : q.WellFormed) (hfits : q.request.Fits)
    {socket : Socket} {k : Nat} (harrived : socket.incoming = q.encode.take k) {cmdbuf : Bytes}
    (hbuf : cmdbuf.length = maxCmdLen) (disk : Disk) :
    (handleConnection (.start socket cmdbuf disk)).served =
      if q.encode.length ≤ k then ((Served.mk disk [] []).exec q.request.command).1
      else Served.mk disk [] [] := by
  by_cases hall : q.encode.length ≤ k
  · rw [if_pos hall]
    rw [take_of_length_le hall] at harrived
    have hserving := @serving_start socket cmdbuf [] hbuf disk [q] (by simpa using hwell)
      (by simpa using hfits) (by rw [harrived, encodeAll]; simp)
    have hfinished := hserving.finished truncated_nil (fun n _ todo hsuffix hnow => by
      have hpart : ∃ missing, encodeAll todo ++ missing = q.encode := by
        rcases suffix_cons_iff.mp hsuffix with htodo | htodo
        · exact ⟨[], by rw [htodo, encodeAll, flatMap_singleton, append_nil]⟩
        · exact ⟨q.encode, by rw [suffix_nil.mp htodo]; rfl⟩
      rcases hpart with ⟨missing, hpart⟩
      apply putFits_of_encode hnow.running hnow.buffer hwell hfits
      rw [hnow.stream, append_nil (encodeAll todo)]
      exact hpart) (Nat.lt_succ_self _)
    rw [handleConnection, ← ServerState.remaining, hfinished.served, map_singleton, execAll_cons]
    split
    · rfl
    · rfl
  · rw [if_neg hall]
    have hmissing : q.encode.drop k ≠ [] := by
      rw [Ne, drop_eq_nil_iff]
      exact hall
    have htrunc : Truncated socket.incoming :=
      ⟨q, q.encode.drop k, hwell, hfits, hmissing, by rw [harrived, take_append_drop]⟩
    have hserving :=
      @serving_start socket cmdbuf socket.incoming hbuf disk [] (by simp) (by simp) rfl
    have hfinished := hserving.finished htrunc (fun n _ todo hsuffix hnow => by
      apply putFits_of_encode hnow.running hnow.buffer hwell hfits
      rw [hnow.stream, suffix_nil.mp hsuffix, harrived]
      exact take_append_drop k q.encode) (Nat.lt_succ_self _)
    exact hfinished.served

end Serving

/-! ## The array of arguments -/

/-- The line in the buffer has more words than there is room for. -/
def ServerState.TooManyWords (s : ServerState) : Prop :=
  s.status = .running ∧ newline ∈ s.buffered ∧ maxArgs < (words isWhitespace s.text).length

variable {s : ServerState}

/-- Executing a command does not touch the array of arguments. -/
theorem status_execute (h : s.status ≠ .argsOverrun) (c : ServerCommand) :
    (s.execute c).status ≠ .argsOverrun := by
  rw [ServerState.execute_eq]
  dsimp only
  split
  · exact h
  · decide

theorem status_put (h : s.status ≠ .argsOverrun) (cmdlen : Nat) (path : Bytes) (size : Int) :
    (s.put cmdlen path size).status ≠ .argsOverrun := by
  unfold ServerState.put
  dsimp only
  split
  · simp
  · split
    · simp
    · apply status_execute
      dsimp only
      split <;> exact h

theorem status_dispatch (h : s.status ≠ .argsOverrun) (cmdlen : Nat) (command : CommandLine) :
    (s.dispatch cmdlen command).status ≠ .argsOverrun := by
  cases command with
  | get path start len => exact status_execute h _
  | put path size => exact status_put h cmdlen path size
  | delete path => exact h

/-- The array of arguments is left exactly by a line with too many words. -/
theorem serverStep_argsOverrun_iff (hrun : s.status = .running) :
    (serverStep s).status = .argsOverrun ↔ s.TooManyWords := by
  have hne : s.status ≠ .argsOverrun := by simp [hrun]
  rw [serverStep, if_neg (by simp [hrun])]
  by_cases hmem : newline ∈ s.buffered
  · have hwords : s.TooManyWords ↔ parseArgs s.text = none := by
      rw [ServerState.TooManyWords, parseArgs_eq_none_iff]
      simp [hrun, hmem]
    rw [if_neg (by simpa using hmem), hwords]
    cases hargs : parseArgs s.text with
    | none => simp
    | some args =>
      dsimp only
      cases hcommand : parseCommand args with
      | none => simp
      | some command =>
        dsimp only
        split
        · simp
        · simpa using status_dispatch (show s.shifted.status ≠ _ from hne) s.cmdlen command
  · have hno : ¬s.TooManyWords := fun h => hmem h.2.1
    rw [if_pos hmem, iff_false_right hno]
    split
    · simp
    · split
      · simp
      · split
        · exact hne
        · simp

/-- Over a whole connection. -/
theorem argsOverrun_iff (hrun : s.status = .running) :
    (∃ n, (serverStep^[n] s).status = .argsOverrun) ↔ ∃ n, (serverStep^[n] s).TooManyWords := by
  constructor
  · rintro ⟨n, hn⟩
    induction n with
    | zero =>
      rw [Function.iterate_zero_apply, hrun] at hn
      cases hn
    | succ n ih =>
      rw [Function.iterate_succ_apply'] at hn
      by_cases hstill : (serverStep^[n] s).status = .running
      · exact ⟨n, (serverStep_argsOverrun_iff hstill).mp hn⟩
      · rw [serverStep_of_ne hstill] at hn
        exact ih hn
  · rintro ⟨n, hn⟩
    refine ⟨n + 1, ?_⟩
    rw [Function.iterate_succ_apply']
    exact (serverStep_argsOverrun_iff hn.1).mpr hn

/-! ## The request stream -/

/-- Requests are executed in order as if each had arrived alone, where at each `PUT` the bytes
behind its line in the buffer belong to its body or the body is as long as the line.  More than
{lit}`MAX_ARGS` words are stored exactly if a line has so many. -/
theorem handleConnection_executes (socket : Socket) {cmdbuf : Bytes}
    (hbuf : cmdbuf.length = maxCmdLen) (disk : Disk) :
    (∀ requests : List SentRequest, (∀ q ∈ requests, q.WellFormed) →
      socket.incoming = encodeAll requests → (∀ q ∈ requests, q.request.Fits) →
      (∀ k ≤ 2 * socket.incoming.length, (serverStep^[k] (.start socket cmdbuf disk)).PutFits) →
      let result := (Served.mk disk [] []).execAll (requests.map fun q => q.request.command)
      Finished (handleConnection (.start socket cmdbuf disk)) result ∧
        (result.2 = true → result.1.executed = requests.map fun q => q.request.command)) ∧
    ((∃ n, (serverStep^[n] (.start socket cmdbuf disk)).status = .argsOverrun) ↔
      ∃ n, (serverStep^[n] (.start socket cmdbuf disk)).TooManyWords) := by
  constructor
  · intro requests hwell hstream hfits hput
    dsimp only
    rw [← append_nil (encodeAll requests)] at hstream
    constructor
    · apply (serving_start hbuf disk hwell hfits hstream).finished truncated_nil
      · intro k hk _ _ _
        exact hput k (Nat.le_of_lt_succ hk)
      · exact Nat.lt_succ_self _
    · exact executed_execAll
  · exact argsOverrun_iff rfl

/-- A file is stored and read back. -/
def storeAndRead : List SentRequest :=
  [⟨chars ['P', 'U', 'T', ' ', 'a', ' ', '1'], .put (chars ['a']) (chars ['x'])⟩,
    ⟨chars ['G', 'E', 'T', ' ', 'a', ' ', '0', ' ', '0'], .get (chars ['a']) 0 0⟩]

/-- The two requests, in pieces of the given sizes. -/
def storeAndReadSocket (sizes : List Nat) : Socket :=
  ⟨encodeAll storeAndRead, sizes, false⟩

/-- No files, and no failures. -/
def emptyDisk : Disk := ⟨fun _ => none, []⟩

theorem wellFormed_storeAndRead :
    ∀ q ∈ storeAndRead, q.WellFormed ∧ q.request.Fits := by
  intro q hq
  simp only [storeAndRead, mem_cons, not_mem_nil, or_false] at hq
  rcases hq with rfl | rfl
  · refine ⟨⟨⟨chars ['1'], ⟨by decide, by decide, by decide⟩, by decide⟩, ?_, ?_, ?_⟩, ?_⟩ <;>
      decide
  · refine ⟨⟨⟨chars ['0'], chars ['0'], ⟨by decide, by decide, by decide⟩,
      ⟨by decide, by decide, by decide⟩, by decide⟩, ?_, ?_, ?_⟩, ?_⟩ <;> decide

/-- The first piece ends where the first request ends. -/
theorem handleConnection_executes_two :
    (∀ k ≤ 2 * (storeAndReadSocket [9]).incoming.length,
      (serverStep^[k] (.start (storeAndReadSocket [9]) (zeros maxCmdLen) emptyDisk)).PutFits) ∧
    Finished (handleConnection (.start (storeAndReadSocket [9]) (zeros maxCmdLen) emptyDisk))
      ((Served.mk emptyDisk [] []).execAll (storeAndRead.map fun q => q.request.command)) := by
  have hput : ∀ k ≤ 2 * (storeAndReadSocket [9]).incoming.length,
      (serverStep^[k] (.start (storeAndReadSocket [9]) (zeros maxCmdLen) emptyDisk)).PutFits := by
    decide +kernel
  exact ⟨hput, ((handleConnection_executes (storeAndReadSocket [9]) length_replicate
    emptyDisk).1 storeAndRead (fun q hq => (wellFormed_storeAndRead q hq).1) rfl
    (fun q hq => (wellFormed_storeAndRead q hq).2) hput).1⟩

/-- In one piece, the second request is lost: the buffer loses as many bytes as the first line has,
and not as many as the body has.  And a line of five words leaves the array of arguments. -/
theorem handleConnection_loses :
    (∀ q ∈ storeAndRead, q.WellFormed ∧ q.request.Fits) ∧
    (handleConnection (.start (storeAndReadSocket []) (zeros maxCmdLen) emptyDisk)).served.executed
      = [.put (chars ['a']) (chars ['x'])] ∧
    (handleConnection (.start ⟨chars ['a', ' ', 'b', ' ', 'c', ' ', 'd', ' ', 'e', '\n'], [], false⟩
      (zeros maxCmdLen) emptyDisk)).status = .argsOverrun := by
  refine ⟨wellFormed_storeAndRead, ?_, ?_⟩
  · decide +kernel
  · decide +kernel

end BlueSky
