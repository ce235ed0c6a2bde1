import BlueSky.Store.Async
import BlueSky.Store.FileNames
import BlueSky.Store.ServerStream

/-!
# The client of the simple server

The simple store sends a request as one line, the data of a `PUT` behind it, and reads the reply: a
line with a number, and the object behind the reply to a `GET`.

Main results:

- Theorem {lit}`served_exchange`: the server executes a request exactly if all of it arrives.
- Theorem {lit}`readReply_object`, {lit}`readReply_error`, {lit}`readReply_nil`: what the client
  makes of the part of a reply that arrives.
- Theorem {lit}`getReply_reassembles`: when a `GET` delivers the object of a reply, and when it
  fails.
-/

namespace BlueSky

open List Option ByteLib DecimalLib SocketLib WordsLib

/-! ## Requests -/

/-- The line of a `GET`. -/
def getLine (key : Bytes) (start len : Nat) : Bytes :=
  chars ['G', 'E', 'T'] ++ 32 :: (key ++ 32 :: (decimal start ++ 32 :: decimal len))

/-- The line of a `PUT`. -/
def putLine (key : Bytes) (len : Nat) : Bytes :=
  chars ['P', 'U', 'T'] ++ 32 :: (key ++ 32 :: decimal len)

/-- What the client sends for a `GET`. -/
def getRequest (key : Bytes) (start len : Nat) : SentRequest :=
  ⟨getLine key start len, .get key start len⟩

/-- What the client sends for a `PUT`. -/
def putRequest (key data : Bytes) : SentRequest :=
  ⟨putLine key data.length, .put key data⟩

/-- A key that is one word and can be the name of a file. -/
structure ServerKey (key : Bytes) : Prop where
  ne_nil : key ≠ []
  word : ∀ b ∈ key, isWhitespace b = false
  nul_free : (0 : Byte) ∉ key
  short : (normalizePath key).length ≤ 255

theorem length_decimal {n k : Nat} (hk : 0 < k) (h : n < 10 ^ k) : (decimal n).length ≤ k := by
  induction k generalizing n with
  | zero => exact absurd hk (lt_irrefl 0)
  | succ k ih =>
    rw [decimal_eq]
    split
    · simp
    · rename_i hlarge
      rw [length_append, length_singleton]
      have hpos : 0 < k := by
        by_contra hzero
        rw [show k = 0 by omega] at h
        omega
      have hless : n / 10 < 10 ^ k := by
        rw [pow_succ] at h
        omega
      have := ih hpos hless
      omega

variable {b : Byte}

theorem isWhitespace_of_isDigit (h : isDigit b = true) : isWhitespace b = false := by
  revert b
  decide

theorem ne_zero_of_isDigit (h : isDigit b = true) : b ≠ 0 := by
  revert b
  decide

theorem ne_newline_of_isDigit (h : isDigit b = true) : b ≠ newline := by
  revert b
  decide

theorem numeral_decimal (n : Nat) : Numeral (decimal n) n :=
  ⟨decimal_ne_nil n, isDigit_decimal n, digitsValue_decimal n⟩

theorem word_decimal (n : Nat) : ∀ b ∈ decimal n, isWhitespace b = false :=
  fun b hb => isWhitespace_of_isDigit (isDigit_decimal n b hb)

/-- Bytes that are not white space do not end a line. -/
theorem newline_not_mem {word : Bytes} (h : ∀ b ∈ word, isWhitespace b = false) :
    newline ∉ word :=
  fun hmem => absurd (h newline hmem) (by decide)

theorem nul_not_mem_decimal (n : Nat) : (0 : Byte) ∉ decimal n :=
  fun hmem => ne_zero_of_isDigit (isDigit_decimal n 0 hmem) rfl

/-- The line of a `GET` is well formed. -/
theorem wellFormed_getRequest {key : Bytes} (hkey : ServerKey key) {start len : Nat}
    (hstart : start < 2 ^ 31) (hlen : len < 2 ^ 31) : (getRequest key start len).WellFormed := by
  have hdigits : ∀ n < 2 ^ 31, (decimal n).length ≤ 10 := fun n hn =>
    length_decimal (by decide) (lt_trans hn (by decide))
  refine ⟨⟨decimal start, decimal len, numeral_decimal start, numeral_decimal len, ?_⟩, ?_, ?_, ?_⟩
  · change words isWhitespace (getLine key start len) = _
    rw [getLine, words_append (by decide) (by decide) (by decide),
      words_append hkey.ne_nil hkey.word (by decide),
      words_append (decimal_ne_nil start) (word_decimal start) (by decide),
      words_single (decimal_ne_nil len) (word_decimal len)]
  · change newline ∉ getLine key start len
    simp only [getLine, mem_append, mem_cons, newline_not_mem hkey.word,
      newline_not_mem (word_decimal start), newline_not_mem (word_decimal len)]
    decide
  · change (0 : Byte) ∉ getLine key start len
    simp only [getLine, mem_append, mem_cons, hkey.nul_free, nul_not_mem_decimal]
    decide
  · change (getLine key start len).length < maxCmdLen
    have hshort := le_trans (length_normalizePath key).1 hkey.short
    have hstart' := hdigits start hstart
    have hlen' := hdigits len hlen
    simp only [getLine, length_append, length_cons, maxCmdLen]
    change 3 + _ < _
    omega

/-- How a connection behaves during a request. -/
structure Connection where
  /-- Whether there is a connection. -/
  connects : Bool
  /-- How many bytes of the request can be written, if a write fails. -/
  sends : Option Nat
  /-- How many bytes of the request arrive, if some get lost. -/
  arrives : Option Nat
  /-- The sizes of the pieces in which the request arrives. -/
  requestSizes : List Nat
  /-- Whether the server sees an error behind the request, and not the end of the stream. -/
  requestFails : Bool
  /-- The buffer of the server before the first command. -/
  cmdbuf : { buf : Bytes // buf.length = maxCmdLen }
  /-- How many bytes of the reply arrive, if some get lost. -/
  replies : Option Nat
  /-- The sizes of the pieces in which the reply arrives. -/
  replySizes : List Nat
  /-- Whether the client sees an error behind the reply, and not the end of the stream. -/
  replyFails : Bool

/-- All bytes of the request are written. -/
def Connection.sent (conn : Connection) (request : Bytes) : Bool :=
  request.length ≤ (passed conn.sends request).length

/-- The bytes of the request that arrive. -/
def Connection.arrived (conn : Connection) (request : Bytes) : Bytes :=
  passed conn.arrives (passed conn.sends request)

/-- What the server does with the bytes of a request. -/
def Connection.served (conn : Connection) (disk : Disk) (request : Bytes) : Served :=
  (handleConnection (.start ⟨conn.arrived request, conn.requestSizes, conn.requestFails⟩
    conn.cmdbuf.val disk)).served

/-- What the client receives. -/
def Connection.reply (conn : Connection) (served : Served) : Socket :=
  ⟨passed conn.replies served.output, conn.replySizes, conn.replyFails⟩

/-- The data that the client reads; {lit}`none` if it gives up. -/
def readReply (s : Socket) : Option Bytes :=
  match readUntil s 255 with
  | none => none
  | some (buf, s) =>
    let result := atoi buf
    if result < 0 then none
    else
      let text := buf.takeWhile (· ≠ 0)
      if newline ∈ text then
        let headerSize := (text.takeWhile (· ≠ newline)).length + 1
        let dataBytes := min (buf.length - headerSize) result.toNat
        (readFully s (result.toNat - dataBytes)).map fun rest =>
          slice buf headerSize dataBytes ++ rest.1
      else (readFully s result.toNat).map Prod.fst

/-- The branch for a `GET` of `simplestore_task`, once the request has been sent. -/
def StoreAsync.getReply (a : StoreAsync) (s : Socket) : StoreAsync :=
  match readReply s with
  | none => { a with result := -1 }
  | some data => { a with data := some data, result := 0, rangeDone := true }

/-- Whether the reply to a `PUT` is read and is 0. -/
def readStored (s : Socket) : Bool :=
  match readUntil s 255 with
  | none => false
  | some (buf, _) => atoi buf = 0

/-- `simplestore_task`. -/
def simplestoreTask (disk : Disk) (conn : Connection) (a : StoreAsync) : Disk × StoreAsync :=
  let a := { a with status := .running }
  if conn.connects then
    let a := { a with result := -1 }
    match a.op with
    | .get =>
      let request := (getRequest a.key a.start a.len).encode
      let served := conn.served disk request
      let a := if conn.sent request then a.getReply (conn.reply served) else a
      (served.disk, a.markComplete)
    | .put =>
      let request := (putRequest a.key (a.data.getD [])).encode
      let served := conn.served disk request
      let a :=
        if conn.sent request && readStored (conn.reply served) then { a with result := 0 } else a
      (served.disk, a.markComplete)
  else (disk, a.markComplete)

/-! ## What the server does -/

/-- All bytes of the request arrive. -/
def Connection.complete (conn : Connection) (request : Bytes) : Bool :=
  request.length ≤ (conn.arrived request).length

/-- The server executes a request exactly if all of it arrives. -/
theorem served_exchange {q : SentRequest} (hwell : q.WellFormed) (hfits : q.request.Fits)
    (conn : Connection) (disk : Disk) :
    conn.served disk q.encode =
      if conn.complete q.encode then ((Served.mk disk [] []).exec q.request.command).1
      else Served.mk disk [] [] := by
  have harrived : conn.arrived q.encode = q.encode.take (conn.arrived q.encode).length := by
    have htake : ∀ k, q.encode.take k = q.encode.take (q.encode.take k).length := by
      intro k
      rw [length_take]
      exact take_eq_take_min
    rw [Connection.arrived, passed_eq_take, passed_eq_take, take_take]
    exact htake _
  rw [Connection.served, handleConnection_alone hwell hfits harrived conn.cmdbuf.property disk]
  simp only [Connection.complete, decide_eq_true_eq]

/-- What arrives has been sent. -/
theorem sent_of_complete {conn : Connection} {request : Bytes}
    (h : conn.complete request = true) : conn.sent request = true := by
  simp only [Connection.complete, Connection.sent, decide_eq_true_eq] at h ⊢
  refine le_trans h ?_
  rw [Connection.arrived, passed_eq_take conn.arrives, length_take]
  exact Nat.min_le_right _ _

/-! ## What the client reads -/

variable {s : Socket}

/-- What is read if the connection ends before a line has come. -/
theorem readReply_rest (hline : newline ∉ s.incoming) (hshort : s.incoming.length < 255) :
    readReply s = if s.fails = false ∧ atoi s.incoming = 0 then some [] else none := by
  rcases readUntil_rest hline hshort with ⟨s', hs', _, hread⟩
  rw [readReply, hread]
  cases hfails : s.fails with
  | true => rfl
  | false =>
    have htext : newline ∉ s.incoming.takeWhile (· ≠ 0) :=
      fun h => hline ((takeWhile_sublist _).subset h)
    rw [if_neg (by decide)]
    dsimp only
    rw [if_neg htext]
    simp only [true_and]
    by_cases hzero : atoi s.incoming = 0
    · rcases readFully_eq (Nat.zero_le s'.incoming.length) with ⟨sizes, heq⟩
      rw [if_pos hzero, if_neg (by omega), hzero, Int.toNat_zero, heq, take_zero]
      rfl
    · rw [if_neg hzero]
      by_cases hneg : atoi s.incoming < 0
      · rw [if_pos hneg]
      · rw [if_neg hneg, readFully_none (by rw [hs', length_nil]; omega)]
        rfl

/-- The line with the size of an object is read, and then as much of what follows. -/
theorem readReply_line {digits body : Bytes} (hne : digits ≠ [])
    (hdigits : ∀ b ∈ digits, isDigit b = true) (hshort : digits.length < 255)
    (hs : s.incoming = digits ++ newline :: body) :
    readReply s = if 0 ≤ atoi digits ∧ (atoi digits).toNat ≤ body.length
      then some (body.take (atoi digits).toNat) else none := by
  have hline : newline ∉ digits := fun h => ne_newline_of_isDigit (hdigits _ h) rfl
  rcases readUntil_line hline hs hshort with ⟨leftover, s', hread, _, hrest⟩
  have hatoi : atoi (digits ++ newline :: leftover) = atoi digits := by
    apply atoi_append hdigits hne
    intro b hb
    rw [← some.inj hb]
    decide
  have htext : (digits ++ newline :: leftover).takeWhile (· ≠ 0) =
      digits ++ newline :: leftover.takeWhile (· ≠ 0) := by
    rw [takeWhile_append_of_pos, takeWhile_cons_of_pos (by decide)]
    intro b hb
    simpa using ne_zero_of_isDigit (hdigits b hb)
  have hheader : ((digits ++ newline :: leftover.takeWhile (· ≠ 0)).takeWhile
      (· ≠ newline)).length = digits.length := by
    rw [takeWhile_append_of_pos, takeWhile_cons_of_neg (by simp), append_nil]
    intro b hb
    simpa using ne_newline_of_isDigit (hdigits b hb)
  rw [readReply, hread]
  dsimp only
  rw [hatoi]
  by_cases hneg : atoi digits < 0
  · rw [if_pos hneg, if_neg fun h => absurd h.1 (Int.not_le.mpr hneg)]
  rw [if_neg hneg, htext, if_pos (by simp), hheader]
  generalize (atoi digits).toNat = n
  have hsize : (digits ++ newline :: leftover).length - (digits.length + 1) = leftover.length := by
    rw [length_append, length_cons]
    omega
  have hslice : ∀ k, slice (digits ++ newline :: leftover) (digits.length + 1) k =
      leftover.take k := by
    intro k
    rw [slice, append_cons, drop_left' (by simp)]
  have hlength := congrArg List.length hrest
  rw [length_append] at hlength
  rw [hsize, hslice]
  by_cases hall : n ≤ body.length
  · rcases readFully_eq (show n - min leftover.length n ≤ s'.incoming.length by omega) with
      ⟨sizes, heq⟩
    rw [if_pos ⟨Int.not_lt.mp hneg, hall⟩, heq, map_some, ← hrest, take_append]
    congr 2
    · rw [take_eq_take_iff]
      omega
    · rw [take_eq_take_iff]
      omega
  · rw [if_neg fun h => hall h.2, readFully_none (by omega), map_none]

/-- The line of an object: its size is read, and then the object. -/
theorem readReply_header {n : Nat} (hn : n < 2 ^ 31) {body : Bytes}
    (hs : s.incoming = decimal n ++ newline :: body) (hle : body.length ≤ n) :
    readReply s = if body.length = n then some body else none := by
  have hten : (decimal n).length ≤ 10 := length_decimal (by decide) (lt_trans hn (by decide))
  have hatoi := @atoi_decimal n hn [] (by simp)
  rw [append_nil] at hatoi
  rw [readReply_line (decimal_ne_nil n) (isDigit_decimal n) (by omega) hs, hatoi, Int.toNat_natCast]
  by_cases hall : body.length = n
  · rw [if_pos ⟨Int.natCast_nonneg n, hall.ge⟩, if_pos hall, take_of_length_le hle]
  · rw [if_neg (by omega), if_neg hall]

variable {r : Nat}

/-- A connection that ends before the object does.  If it ends in the line, with digits that mean
zero or with none, an empty object is read. -/
theorem readReply_cut {digits body : Bytes} (hne : digits ≠ [])
    (hdigits : ∀ b ∈ digits, isDigit b = true) (hshort : digits.length < 255)
    (hvalue : digitsValue 0 digits = body.length) (hn : body.length < 2 ^ 31)
    (hr : r < digits.length + 1 + body.length)
    (hs : s.incoming = (digits ++ newline :: body).take r) :
    readReply s = if s.fails = false ∧ r ≤ digits.length ∧ digitsValue 0 (digits.take r) = 0
      then some [] else none := by
  by_cases hheader : digits.length < r
  · rcases Nat.exists_eq_add_of_lt hheader with ⟨k, rfl⟩
    rw [Nat.add_assoc, take_length_add_append, take_succ_cons] at hs
    have hatoi := @atoi_digits digits [] hdigits hne (by simp) (by omega)
    rw [append_nil, hvalue] at hatoi
    rw [readReply_line hne hdigits hshort hs, hatoi, Int.toNat_natCast, length_take,
      if_neg (by omega), if_neg (by omega)]
  · have hin : s.incoming = digits.take r := by
      rw [hs, take_append_of_le_length (by omega)]
    have hall : ∀ b ∈ digits.take r, isDigit b = true :=
      fun b hb => hdigits b (mem_of_mem_take hb)
    have hatoi : atoi (digits.take r) = digitsValue 0 (digits.take r) := by
      by_cases hnil : digits.take r = []
      · rw [hnil]
        decide
      have hle : digitsValue 0 (digits.take r) ≤ digitsValue 0 digits := by
        conv_rhs => rw [← take_append_drop r digits, digitsValue_append]
        exact le_digitsValue _ _
      have hread := @atoi_digits (digits.take r) [] hall hnil (by simp) (by omega)
      rwa [append_nil] at hread
    have hline : newline ∉ digits.take r := fun h => ne_newline_of_isDigit (hall _ h) rfl
    rw [readReply_rest (by rwa [hin]) (by rw [hin, length_take]; omega), hin, hatoi]
    simp only [Nat.not_lt.mp hheader, true_and, Nat.cast_eq_zero]

variable {a : StoreAsync}

theorem getReply_delivers_iff {body : Bytes} :
    ((a.getReply s).data = some body ∧ (a.getReply s).result = 0) ↔ readReply s = some body := by
  unfold StoreAsync.getReply
  cases readReply s with
  | none => simp
  | some data => simp

theorem getReply_fails_iff : a.getReply s = { a with result := -1 } ↔ readReply s = none := by
  unfold StoreAsync.getReply
  cases readReply s with
  | none => simp
  | some data => simp

/-- The first line does not fit into the buffer. -/
theorem readReply_long (hlong : 255 ≤ s.incoming.length) (hline : newline ∉ s.incoming.take 255) :
    readReply s = none := by
  rw [readReply, readUntil_long hline hlong]

/-- A reply with a line for the length of an object and with the object.  It is delivered in full,
however it is cut into pieces, exactly if the line fits into the buffer and the length is an `int`.
If less of it arrives, nothing is delivered, unless the connection ends in the line, behind no
digits or behind zeros: this is taken for an empty object.  A line that does not fit into the
buffer is a failure. -/
theorem getReply_reassembles {digits body : Bytes} (hne : digits ≠ [])
    (hdigits : ∀ b ∈ digits, isDigit b = true) (hvalue : digitsValue 0 digits = body.length)
    (a : StoreAsync) (s : Socket) :
    (s.incoming = digits ++ newline :: body →
      ((a.getReply s).data = some body ∧ (a.getReply s).result = 0 ↔
        digits.length < 255 ∧ body.length < 2 ^ 31)) ∧
    (∀ r, r < digits.length + 1 + body.length →
      s.incoming = (digits ++ newline :: body).take r →
      digits.length < 255 → body.length < 2 ^ 31 →
      (a.getReply s = { a with result := -1 } ↔
        ¬ (s.fails = false ∧ r ≤ digits.length ∧ digitsValue 0 (digits.take r) = 0))) ∧
    (255 ≤ s.incoming.length → newline ∉ s.incoming.take 255 →
      a.getReply s = { a with result := -1 }) := by
  rw [getReply_delivers_iff, getReply_fails_iff]
  refine ⟨?_, ?_, readReply_long⟩
  · intro hs
    by_cases hshort : digits.length < 255
    · rw [readReply_line hne hdigits hshort hs]
      constructor
      · -- The number that is read is the length, which is an `int`.
        intro hread
        have hlt := atoi_lt digits
        split_ifs at hread with hsize
        have htake := congrArg List.length (some.inj hread)
        rw [length_take] at htake
        exact ⟨hshort, by omega⟩
      · rintro ⟨-, hn⟩
        have hatoi := @atoi_digits digits [] hdigits hne (by simp) (by omega)
        rw [append_nil, hvalue] at hatoi
        rw [hatoi, Int.toNat_natCast, take_length, if_pos ⟨Int.natCast_nonneg _, le_rfl⟩]
    · have hline : newline ∉ s.incoming.take 255 := by
        rw [hs, take_append_of_le_length (by omega)]
        exact fun h => ne_newline_of_isDigit (hdigits _ (mem_of_mem_take h)) rfl
      rw [readReply_long (by rw [hs, length_append]; omega) hline]
      simp [hshort]
  · intro r hr hs hshort hn
    rw [readReply_cut hne hdigits hshort hvalue hn hr hs]
    split_ifs with hzero
    · simp [hzero]
    · simp [hzero]

/-- An object with a NUL and a newline, of which single bytes arrive. -/
theorem getReply_reassembles_pieces :
    ((newAsync .get [] none).getReply
      ⟨chars ['0', '3'] ++ newline :: [0, 10, 7], [1, 1, 1, 1, 1, 1], false⟩).data =
        some [0, 10, 7] :=
  (((@getReply_reassembles (chars ['0', '3']) [0, 10, 7] (by decide) (by decide) (by decide) _ _).1
    rfl).mpr (by decide)).1

/-- A connection that ends at once is taken for an empty object. -/
theorem getReply_empty_stream :
    ((newAsync .get [] none).getReply ⟨(chars ['3'] ++ newline :: [0, 10, 7]).take 0, [], false⟩) =
      { newAsync .get [] none with data := some [], result := 0, rangeDone := true } := by
  decide

end BlueSky
