import BlueSky.Lib.Decimal
import BlueSky.Lib.Socket
import BlueSky.Lib.Words

/-!
# The simple server

The server that stores objects as files reads commands from a connection into a buffer of
{lit}`MAX_CMD_LEN` bytes, cuts a line into at most {lit}`MAX_ARGS` words, executes the command and
moves what follows it to the start of the buffer.

Main results:

- Theorem {lit}`parseArgs_eq`: the arguments are the words of the line, if there is room for them.
- Theorem {lit}`serverStep_read`, {lit}`serverStep_closed`, {lit}`serverStep_command`: what one
  iteration of the loop does.
-/

namespace BlueSky

open Function List ByteLib DecimalLib SocketLib WordsLib

/-- The most words of a command. -/
def maxArgs : Nat := 4

/-- The size of the command buffer. -/
def maxCmdLen : Nat := 4096

/-- The largest object that is accepted. -/
def maxObjectSize : Nat := 256 * 2 ^ 20

/-- The bytes of a text. -/
def chars (cs : List Char) : Bytes :=
  cs.map fun c => BitVec.ofNat 8 c.toNat

/-- The characters of `WHITESPACE`. -/
def isWhitespace (b : Byte) : Bool :=
  b = 32 || b = 9 || b = 13 || b = 10

/-- The name of the file for a path: `/` and `_` are escaped. -/
def normalizePath (path : Bytes) : Bytes :=
  path.flatMap fun b => if b = 47 then [95, 115] else if b = 95 then [95, 117] else [b]

/-! ## Files and commands -/

/-- How the file system behaves in one command. -/
structure DiskOutcome where
  /-- Whether the file can be opened. -/
  opens : Bool
  /-- How many bytes can be written before an error, if there is one. -/
  writes : Option Nat
  /-- How many bytes the reads return at most; {lit}`none` is an error. -/
  reads : List (Option Nat)
deriving DecidableEq, Repr

/-- A command without failures. -/
def DiskOutcome.success : DiskOutcome := ⟨true, none, []⟩

/-- The files, and how the file system behaves in the next commands. -/
structure Disk where
  files : Bytes → Option Bytes
  outcomes : List DiskOutcome

/-- How the file system behaves in the next command. -/
def Disk.next (disk : Disk) : DiskOutcome :=
  disk.outcomes.headD .success

/-- The loop of `cmd_get` that sends the file.  Where a read fails, zeros are sent. -/
def sendFile : Nat → Bytes → Nat → List (Option Nat) → Bytes
  | 0, _, _, _ => []
  | fuel + 1, rest, datalen, reads =>
    if datalen = 0 then []
    else
      let needed := min datalen 65536
      let bytes :=
        match reads.headD (some needed) with
        | some k => rest.take (min (max 1 k) needed)
        | none => []
      if bytes = [] then zeros needed ++ sendFile fuel rest (datalen - needed) reads.tail
      else bytes ++ sendFile fuel (rest.drop bytes.length) (datalen - bytes.length) reads.tail

/-- Where `cmd_get` starts to read and how many bytes it announces. -/
def getRange (size start : Nat) (len : Int) : Nat × Nat :=
  let (offset, datalen) :=
    if 0 < start then if size ≤ start then (0, 0) else (start, size - start) else (0, size)
  (offset, if 0 < len ∧ len < datalen then len.toNat else datalen)

/-- The reply of `cmd_get` for a file that was opened. -/
def getReply (content : Bytes) (start : Nat) (len : Int) (reads : List (Option Nat)) : Bytes :=
  let (offset, datalen) := getRange content.length start len
  decimal datalen ++ newline :: sendFile datalen (content.drop offset) datalen reads

/-- The reply if a file cannot be opened. -/
def errorReply : Bytes := chars ['-', '1', '\n']

/-- The reply if an object was stored. -/
def storedReply : Bytes := chars ['0', '\n']

/-- `cmd_get`. -/
def cmdGet (disk : Disk) (path : Bytes) (start : Nat) (len : Int) : Disk × Bytes :=
  ({ disk with outcomes := disk.outcomes.tail },
    match disk.files path with
    | none => errorReply
    | some content =>
      if disk.next.opens then getReply content start len disk.next.reads else errorReply)

/-- `cmd_put` once it has the body; there is no reply if the process exits. -/
def cmdPut (disk : Disk) (path body : Bytes) : Disk × Option Bytes :=
  let rest := { disk with outcomes := disk.outcomes.tail }
  if disk.next.opens then
    match disk.next.writes with
    | none => ({ rest with files := update disk.files path (some body) }, some storedReply)
    | some k =>
      if k < body.length then
        ({ rest with files := update disk.files path (some (body.take k)) }, none)
      else
        ({ rest with files := update disk.files path (some body) }, some storedReply)
  else (rest, some errorReply)

/-- A command with its arguments. -/
inductive ServerCommand where
  | get (path : Bytes) (start : Nat) (len : Int)
  | put (path : Bytes) (body : Bytes)
deriving DecidableEq, Repr

/-- What a connection has done: the files, the replies and the commands executed. -/
structure Served where
  disk : Disk
  output : Bytes
  executed : List ServerCommand

/-- Execute a command; the flag says whether the process is still there. -/
def Served.exec (s : Served) : ServerCommand → Served × Bool
  | .get path start len =>
    let (disk, reply) := cmdGet s.disk path start len
    (⟨disk, s.output ++ reply, s.executed ++ [.get path start len]⟩, true)
  | .put path body =>
    match cmdPut s.disk path body with
    | (disk, some reply) => (⟨disk, s.output ++ reply, s.executed ++ [.put path body]⟩, true)
    | (disk, none) => (⟨disk, s.output, s.executed ++ [.put path body]⟩, false)

/-- Execute commands one after the other, while the process is there. -/
def Served.execAll (s : Served) : List ServerCommand → Served × Bool
  | [] => (s, true)
  | c :: cs =>
    match s.exec c with
    | (s', true) => s'.execAll cs
    | (s', false) => (s', false)

/-! ## The command line -/

/-- The loop over the words of a line; {lit}`none` if a word is stored behind the end of the
array. -/
def parseArgsFuel : Nat → Bytes → List (Bytes × Int) → Option (List (Bytes × Int))
  | 0, _, args => some args
  | fuel + 1, text, args =>
    match strtok isWhitespace text with
    | none => some args
    | some (token, rest) =>
      if args.length = maxArgs then none
      else parseArgsFuel fuel rest (args ++ [(token, atoi token)])

/-- The words of a line with the numbers they start with. -/
def parseArgs (text : Bytes) : Option (List (Bytes × Int)) :=
  parseArgsFuel (text.length + 1) text []

/-- The line after the words have been cut off: a NUL is written behind each. -/
def cutWords : Nat → Bytes → Bytes
  | 0, text => text
  | fuel + 1, text =>
    match strtok isWhitespace text with
    | none => text
    | some (token, rest) =>
      if (text.takeWhile isWhitespace).length + token.length < text.length then
        text.takeWhile isWhitespace ++ token ++ 0 :: cutWords fuel rest
      else text

/-- A command line with the right number of words. -/
inductive CommandLine where
  | get (path : Bytes) (start len : Int)
  | put (path : Bytes) (size : Int)
  | delete (path : Bytes)
deriving DecidableEq, Repr

/-- The command that the arguments stand for. -/
def parseCommand : List (Bytes × Int) → Option CommandLine
  | [(cmd, _), (path, _), (_, start), (_, len)] =>
    if cmd = chars ['G', 'E', 'T'] then some (.get (normalizePath path) start len) else none
  | [(cmd, _), (path, _), (_, size)] =>
    if cmd = chars ['P', 'U', 'T'] then some (.put (normalizePath path) size) else none
  | [(cmd, _), (path, _)] =>
    if cmd = chars ['D', 'E', 'L', 'E', 'T', 'E'] then some (.delete (normalizePath path))
    else none
  | _ => none

/-! ## The loop -/

/-- How a connection stands. -/
inductive ServerStatus where
  | running
  | closed
  | exited
  /-- More than {lit}`MAX_ARGS` words were stored. -/
  | argsOverrun
  /-- The command buffer was left. -/
  | bufferOverrun
deriving DecidableEq, Repr

/-- The state of `handle_connection`. -/
structure ServerState where
  socket : Socket
  cmdbuf : Bytes
  buflen : Nat
  served : Served
  status : ServerStatus

/-- The bytes in the buffer that have not been used. -/
def ServerState.buffered (s : ServerState) : Bytes :=
  s.cmdbuf.take s.buflen

/-- The line at the start of the buffer. -/
def ServerState.line (s : ServerState) : Bytes :=
  s.cmdbuf.takeWhile (· ≠ newline)

/-- The line as a string: it ends at a NUL. -/
def ServerState.text (s : ServerState) : Bytes :=
  s.line.takeWhile (· ≠ 0)

/-- The length of the line with its end. -/
def ServerState.cmdlen (s : ServerState) : Nat :=
  s.line.length + 1

/-- The buffer after the line has been cut into words. -/
def ServerState.cutbuf (s : ServerState) : Bytes :=
  cutWords (s.text.length + 1) s.text ++ s.line.drop s.text.length ++ 0 :: s.cmdbuf.drop s.cmdlen

/-- `memmove` of a part of the buffer to its start. -/
def memmove (buf : Bytes) (start count : Nat) : Bytes :=
  (buf.drop start).take count ++ buf.drop count

/-- Execute a command of the connection. -/
def ServerState.execute (s : ServerState) (c : ServerCommand) : ServerState :=
  match s.served.exec c with
  | (served, true) => { s with served := served }
  | (served, false) => { s with served := served, status := .exited }

/-- The `PUT` branch, for a line of length {lit}`cmdlen` that has been removed from the buffer. -/
def ServerState.put (s : ServerState) (cmdlen : Nat) (path : Bytes) (size : Int) : ServerState :=
  let objectSize := (size % 2 ^ 64).toNat
  if maxObjectSize < objectSize then { s with status := .closed }
  else
    let dataBuflen := min s.buflen objectSize
    let data := s.cmdbuf.take dataBuflen
    let s :=
      if dataBuflen < s.buflen then
        -- The length of the line is subtracted here, not the number of bytes removed.
        { s with
          cmdbuf := memmove s.cmdbuf dataBuflen (s.buflen - dataBuflen)
          buflen := (s.buflen + 2 ^ 64 - cmdlen) % 2 ^ 64 }
      else { s with buflen := 0 }
    match readFully s.socket (objectSize - dataBuflen) with
    | none => { s with status := .exited }
    | some (rest, socket) => { s with socket := socket }.execute (.put path (data ++ rest))

/-- Execute the command of a line that has been removed from the buffer. -/
def ServerState.dispatch (s : ServerState) (cmdlen : Nat) : CommandLine → ServerState
  | .get path start len => s.execute (.get path (start % 2 ^ 64).toNat len)
  | .put path size => s.put cmdlen path size
  | .delete _ => s

/-- The state after a line has been removed from the buffer. -/
def ServerState.shifted (s : ServerState) : ServerState :=
  { s with
    cmdbuf := memmove s.cutbuf s.cmdlen (s.buflen - s.cmdlen)
    buflen := s.buflen - s.cmdlen }

/-- One iteration of the loop of `handle_connection`. -/
def serverStep (s : ServerState) : ServerState :=
  if s.status ≠ .running then s
  else if newline ∉ s.buffered then
    if maxCmdLen < s.buflen then { s with status := .bufferOverrun }
    else if s.buflen = maxCmdLen then { s with status := .closed }
    else
      match s.socket.read (maxCmdLen - s.buflen) with
      | (.data bytes, socket) =>
        { s with
          socket := socket
          cmdbuf := s.buffered ++ bytes ++ s.cmdbuf.drop (s.buflen + bytes.length)
          buflen := s.buflen + bytes.length }
      | (_, socket) => { s with socket := socket, status := .closed }
  else
    match parseArgs s.text with
    | none => { s with status := .argsOverrun }
    | some args =>
      match parseCommand args with
      | none => { s with status := .closed }
      | some command =>
        if maxCmdLen < s.buflen then { s with status := .bufferOverrun }
        else s.shifted.dispatch s.cmdlen command

/-- A new connection; the buffer is not initialised. -/
def ServerState.start (socket : Socket) (cmdbuf : Bytes) (disk : Disk) : ServerState :=
  ⟨socket, cmdbuf, 0, ⟨disk, [], []⟩, .running⟩

/-- `handle_connection`: every iteration uses up a byte. -/
def handleConnection (s : ServerState) : ServerState :=
  serverStep^[2 * s.socket.incoming.length + s.buflen + 1] s

/-! ## Sending a file -/

variable {fuel : Nat}

theorem sendFile_eq {datalen : Nat} (hfuel : datalen ≤ fuel) {rest : Bytes}
    (henough : datalen ≤ rest.length) {reads : List (Option Nat)} (hreads : none ∉ reads) :
    sendFile fuel rest datalen reads = rest.take datalen := by
  induction fuel generalizing rest datalen reads with
  | zero =>
    rw [Nat.le_zero.mp hfuel]
    rfl
  | succ fuel ih =>
    rw [sendFile]
    by_cases hzero : datalen = 0
    · rw [if_pos hzero, hzero, take_zero]
    · rw [if_neg hzero]
      -- A read that does not fail returns between 1 and the needed number of bytes.
      have hread : ∃ k, 0 < k ∧ k ≤ min datalen 65536 ∧
          (match reads.headD (some (min datalen 65536)) with
            | some k => rest.take (min (max 1 k) (min datalen 65536))
            | none => []) = rest.take k := by
        cases hhead : reads.headD (some (min datalen 65536)) with
        | none =>
          cases reads with
          | nil => cases hhead
          | cons r reads =>
            rw [headD_cons] at hhead
            exact absurd (hhead ▸ mem_cons_self) hreads
        | some k => exact ⟨min (max 1 k) (min datalen 65536), by omega, by omega, rfl⟩
      rcases hread with ⟨k, hpos, hle, hread⟩
      have hk : k ≤ datalen := by omega
      have hlength : (rest.take k).length = k := by
        rw [length_take]
        omega
      have hne : rest.take k ≠ [] := by
        rw [← length_pos_iff, hlength]
        exact hpos
      dsimp only
      rw [hread, if_neg hne, hlength, ih (by omega) (by rw [length_drop]; omega)
        (fun h => hreads (mem_of_mem_tail h))]
      rw [← take_add, Nat.add_sub_cancel' hk]

theorem getRange_le (size start : Nat) (len : Int) :
    (getRange size start len).1 + (getRange size start len).2 ≤ size := by
  rw [getRange]
  split_ifs <;> dsimp only <;> split_ifs <;> omega

theorem getRange_eq {size start len : Nat} (hlen : 0 < len) (hinside : start + len ≤ size) :
    getRange size start len = (start, len) := by
  rw [getRange]
  by_cases hstart : 0 < start
  · rw [if_pos hstart, if_neg (by omega)]
    dsimp only
    split_ifs
    · simp
    · rw [show size - start = len by omega]
  · rw [if_neg hstart]
    dsimp only
    rw [show start = 0 by omega] at hinside ⊢
    split_ifs
    · simp
    · rw [show size = len by omega]

theorem getRange_whole (size : Nat) : getRange size 0 0 = (0, size) := by
  rw [getRange, if_neg (lt_irrefl 0)]
  dsimp only
  rw [if_neg (by omega)]

/-- The reply if no read fails. -/
theorem getReply_eq {content : Bytes} {start : Nat} {len : Int} {reads : List (Option Nat)}
    (hreads : none ∉ reads) :
    getReply content start len reads =
      decimal (getRange content.length start len).2 ++ newline ::
        slice content (getRange content.length start len).1
          (getRange content.length start len).2 := by
  have hle := getRange_le content.length start len
  rw [getReply]
  dsimp only
  rw [sendFile_eq (Nat.le_refl _) (by rw [length_drop]; omega) hreads, slice]

/-! ## Words and arguments -/

theorem parseArgsFuel_eq {text : Bytes} (hfuel : text.length < fuel) {args : List (Bytes × Int)}
    (hargs : args.length ≤ maxArgs) :
    parseArgsFuel fuel text args =
      if args.length + (words isWhitespace text).length ≤ maxArgs then
        some (args ++ (words isWhitespace text).map fun word => (word, atoi word))
      else none := by
  induction fuel generalizing text args with
  | zero => exact absurd hfuel (Nat.not_lt_zero _)
  | succ fuel ih =>
    rw [parseArgsFuel]
    cases htok : strtok isWhitespace text with
    | none =>
      rw [words_of_strtok_none htok, length_nil, Nat.add_zero, if_pos hargs]
      simp
    | some cut =>
      rcases cut with ⟨token, rest⟩
      have hshort := length_of_strtok htok
      rw [words_of_strtok htok, length_cons]
      dsimp only
      by_cases hfull : args.length = maxArgs
      · rw [if_pos hfull, if_neg (by omega)]
      · rw [if_neg hfull, ih (by omega) (by rw [length_append]; simp; omega)]
        simp only [length_append, length_cons, length_nil, Nat.zero_add,
          map_cons, append_assoc, singleton_append]
        rw [Nat.add_right_comm, Nat.add_assoc]

/-- The arguments are the words of the line, if there is room for them. -/
theorem parseArgs_eq (text : Bytes) :
    parseArgs text =
      if (words isWhitespace text).length ≤ maxArgs then
        some ((words isWhitespace text).map fun word => (word, atoi word))
      else none := by
  rw [parseArgs, parseArgsFuel_eq (Nat.lt_succ_self _) (Nat.zero_le _)]
  simp

theorem parseArgs_eq_none_iff (text : Bytes) :
    parseArgs text = none ↔ maxArgs < (words isWhitespace text).length := by
  rw [parseArgs_eq]
  split <;> simp_all

theorem length_cutWords (fuel : Nat) (text : Bytes) :
    (cutWords fuel text).length = text.length := by
  induction fuel generalizing text with
  | zero => rfl
  | succ fuel ih =>
    rw [cutWords]
    cases htok : strtok isWhitespace text with
    | none => rfl
    | some cut =>
      rcases cut with ⟨token, rest⟩
      dsimp only
      have hlength := congrArg List.length
        (takeWhile_append_dropWhile (p := isWhitespace) (l := text))
      rw [length_append] at hlength
      split
      · rename_i hlt
        rw [length_append, length_append, length_cons, ih]
        rcases strtok_split htok with ⟨_, _, ⟨hdrop, _⟩ | ⟨c, _, hdrop⟩⟩
        · rw [hdrop] at hlength
          omega
        · rw [hdrop, length_append, length_cons] at hlength
          omega
      · rfl

/-! ## The buffer -/

theorem length_memmove {buf : Bytes} {start count : Nat} (h : start + count ≤ buf.length) :
    (memmove buf start count).length = buf.length := by
  rw [memmove, length_append, length_take, length_drop, length_drop]
  omega

theorem take_memmove {buf : Bytes} {start count : Nat} (h : start + count ≤ buf.length) :
    (memmove buf start count).take count = (buf.drop start).take count := by
  rw [memmove, take_append_of_le_length (by rw [length_take, length_drop]; omega),
    take_take, Nat.min_self]

/-- The buffer has its size, and the bytes in use are in it. -/
structure ServerState.BufferOk (s : ServerState) : Prop where
  size : s.cmdbuf.length = maxCmdLen
  used : s.buflen ≤ maxCmdLen

/-- What is left to do: bytes that are read and bytes that are used. -/
def ServerState.remaining (s : ServerState) : Nat :=
  2 * s.socket.incoming.length + s.buflen

/-- The bytes that have not been used, in the buffer and on the way. -/
def ServerState.stream (s : ServerState) : Bytes :=
  s.buffered ++ s.socket.incoming

variable {s : ServerState}

theorem ServerState.BufferOk.length_buffered (h : s.BufferOk) : s.buffered.length = s.buflen := by
  rw [ServerState.buffered, length_take, h.size]
  exact Nat.min_eq_left h.used

/-- The line at the start of the buffer. -/
theorem ServerState.line_eq {line leftover : Bytes} (hline : newline ∉ line)
    (hbuffered : s.buffered = line ++ newline :: leftover) : s.line = line := by
  have hbuf : s.cmdbuf = line ++ newline :: (leftover ++ s.cmdbuf.drop s.buflen) := by
    have hsplit := take_append_drop s.buflen s.cmdbuf
    rw [← ServerState.buffered, hbuffered] at hsplit
    conv_lhs => rw [← hsplit]
    simp
  rw [ServerState.line, hbuf, takeWhile_append_of_pos, takeWhile_cons_of_neg (by simp), append_nil]
  intro b hb
  have hne : b ≠ newline := by
    rintro rfl
    exact hline hb
  simpa using hne

/-- A line without NULs is the whole string. -/
theorem ServerState.text_eq (hnul : (0 : Byte) ∉ s.line) : s.text = s.line := by
  rw [ServerState.text, takeWhile_eq_self_iff]
  intro b hb
  have hne : b ≠ 0 := by
    rintro rfl
    exact hnul hb
  simpa using hne

theorem ServerState.BufferOk.length_cutbuf (h : s.BufferOk) (hle : s.cmdlen ≤ maxCmdLen) :
    s.cutbuf.length = maxCmdLen := by
  have htext : s.text.length ≤ s.line.length := (takeWhile_sublist _).length_le
  have hcmdlen : s.cmdlen = s.line.length + 1 := rfl
  rw [ServerState.cutbuf, length_append, length_append, length_cons,
    length_cutWords, length_drop, length_drop, h.size]
  omega

theorem ServerState.drop_cutbuf (s : ServerState) :
    s.cutbuf.drop s.cmdlen = s.cmdbuf.drop s.cmdlen := by
  have htext : s.text.length ≤ s.line.length := (takeWhile_sublist _).length_le
  have hlength : (cutWords (s.text.length + 1) s.text ++ s.line.drop s.text.length ++ [0]).length =
      s.cmdlen := by
    rw [length_append, length_append, length_cutWords, length_drop]
    change _ + 1 = s.line.length + 1
    omega
  rw [ServerState.cutbuf, append_cons, ← hlength, drop_left]

/-- Removing the line leaves what follows it in the buffer. -/
theorem ServerState.BufferOk.shifted (h : s.BufferOk) {line leftover : Bytes}
    (hline : newline ∉ line) (hbuffered : s.buffered = line ++ newline :: leftover) :
    s.shifted.BufferOk ∧ s.shifted.buffered = leftover ∧ s.cmdlen = line.length + 1 := by
  have hcmdlen : s.cmdlen = line.length + 1 := by
    rw [ServerState.cmdlen, ServerState.line_eq hline hbuffered]
  have hlength := h.length_buffered
  rw [hbuffered, length_append, length_cons] at hlength
  have hused := h.used
  have hcut := h.length_cutbuf (show s.cmdlen ≤ maxCmdLen by omega)
  have hroom : s.cmdlen + (s.buflen - s.cmdlen) ≤ s.cutbuf.length := by omega
  refine ⟨⟨(length_memmove hroom).trans hcut, ?_⟩, ?_, hcmdlen⟩
  · change s.buflen - s.cmdlen ≤ maxCmdLen
    omega
  · change (memmove s.cutbuf s.cmdlen (s.buflen - s.cmdlen)).take (s.buflen - s.cmdlen) = leftover
    rw [take_memmove hroom, s.drop_cutbuf, ← drop_take, ← ServerState.buffered, hbuffered,
      hcmdlen, append_cons, drop_left' (by simp)]

/-! ## Iterations -/

theorem serverStep_of_ne (h : s.status ≠ .running) : serverStep s = s :=
  if_pos h

/-- Without a line in the buffer, some of the bytes that arrive are added to it. -/
theorem serverStep_read (hrun : s.status = .running) (h : s.BufferOk) (hline : newline ∉ s.buffered)
    (hroom : s.buflen < maxCmdLen) (hincoming : s.socket.incoming ≠ []) :
    (serverStep s).status = .running ∧ (serverStep s).BufferOk ∧
      (serverStep s).served = s.served ∧ (serverStep s).stream = s.stream ∧
      (serverStep s).remaining < s.remaining := by
  rcases read_of_ne_nil hincoming (show 0 < maxCmdLen - s.buflen by omega) with
    ⟨chunk, rest, sizes, hsplit, hchunk, hle, hread⟩
  have hpos := length_pos_iff.mpr hchunk
  have hlength := h.length_buffered
  have hsize := h.size
  have hstep : serverStep s =
      { s with
        socket := { s.socket with incoming := rest, sizes := sizes }
        cmdbuf := s.buffered ++ chunk ++ s.cmdbuf.drop (s.buflen + chunk.length)
        buflen := s.buflen + chunk.length } := by
    rw [serverStep, if_neg (by simp [hrun]), if_pos hline, if_neg (by omega), if_neg (by omega),
      hread]
  rw [hstep]
  refine ⟨hrun, ⟨?_, ?_⟩, rfl, ?_, ?_⟩
  · dsimp only
    rw [length_append, length_append, length_drop, hlength]
    omega
  · change s.buflen + chunk.length ≤ maxCmdLen
    omega
  · rw [ServerState.stream, ServerState.buffered, ServerState.stream, hsplit]
    dsimp only
    rw [take_left' (by rw [length_append, hlength]), append_assoc]
  · rw [ServerState.remaining, ServerState.remaining, hsplit, length_append]
    dsimp only
    omega

/-- The connection is closed when no more bytes come. -/
theorem serverStep_closed (hrun : s.status = .running) (hline : newline ∉ s.buffered)
    (hroom : s.buflen < maxCmdLen) (hincoming : s.socket.incoming = []) :
    serverStep s = { s with status := .closed } := by
  rw [serverStep, if_neg (by simp [hrun]), if_pos hline, if_neg (by omega), if_neg (by omega),
    read_of_nil hincoming]
  cases s.socket.fails with
  | true => rfl
  | false => rfl

/-- With a line in the buffer, its command is executed. -/
theorem serverStep_command (hrun : s.status = .running) (h : s.BufferOk)
    (hline : newline ∈ s.buffered) {args : List (Bytes × Int)}
    (hargs : parseArgs s.text = some args) {command : CommandLine}
    (hcommand : parseCommand args = some command) :
    serverStep s = s.shifted.dispatch s.cmdlen command := by
  have hused := h.used
  rw [serverStep, if_neg (by simp [hrun]), if_neg (by simpa using hline), hargs]
  dsimp only
  rw [hcommand]
  dsimp only
  rw [if_neg (by omega)]

end BlueSky
