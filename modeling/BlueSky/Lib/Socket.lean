import BlueSky.Lib.Bytes

/-!
# Reading from a connection

The receiving end of a connection: the bytes that still arrive, in pieces of any size, and then
either the end of the stream or an error.  Calls that were interrupted are made again and are left
out.

Main results:

- Theorem {lit}`read_of_ne_nil`: a read returns some of the bytes that arrive next.
- Theorem {lit}`readFully_eq`: a loop that waits for a number of bytes gets them if they arrive.
- Theorem {lit}`readUntil_line`, {lit}`readUntil_rest`, {lit}`readUntil_long`: a loop that
  waits for the end of a line.
-/

namespace SocketLib

open List ByteLib

/-- The receiving end of a connection. -/
structure Socket where
  /-- The bytes that still arrive. -/
  incoming : Bytes
  /-- How many bytes the next reads return at most. -/
  sizes : List Nat
  /-- Whether an error follows the bytes, and not the end of the stream. -/
  fails : Bool
deriving DecidableEq, Repr

/-- What `read` returns. -/
inductive ReadResult where
  | data (bytes : Bytes)
  | eof
  | error
deriving DecidableEq, Repr

/-- `read` of up to `n` bytes. -/
def Socket.read (s : Socket) (n : Nat) : ReadResult × Socket :=
  if s.incoming = [] then (if s.fails then .error else .eof, s)
  else
    let k := min (max 1 (s.sizes.headD n)) n
    (.data (s.incoming.take k), { s with incoming := s.incoming.drop k, sizes := s.sizes.tail })

variable {s : Socket}

theorem read_of_nil (h : s.incoming = []) (n : Nat) :
    s.read n = (if s.fails then .error else .eof, s) :=
  if_pos h

/-- A read returns some of the bytes that arrive next. -/
theorem read_of_ne_nil (h : s.incoming ≠ []) {n : Nat} (hn : 0 < n) :
    ∃ chunk rest sizes, s.incoming = chunk ++ rest ∧ chunk ≠ [] ∧ chunk.length ≤ n ∧
      s.read n = (.data chunk, { s with incoming := rest, sizes := sizes }) := by
  refine ⟨s.incoming.take (min (max 1 (s.sizes.headD n)) n),
    s.incoming.drop (min (max 1 (s.sizes.headD n)) n), s.sizes.tail,
    (take_append_drop _ _).symm, ?_, ?_, if_neg h⟩
  · rw [Ne, take_eq_nil_iff]
    rintro (hzero | hnil)
    · omega
    · exact h hnil
  · rw [length_take]
    omega

/-- The part of a byte string that gets through. -/
def passed (limit : Option Nat) (bytes : Bytes) : Bytes :=
  match limit with
  | none => bytes
  | some n => bytes.take n

theorem passed_eq_take (limit : Option Nat) (bytes : Bytes) :
    passed limit bytes = bytes.take (limit.getD bytes.length) := by
  cases limit with
  | none => exact take_length.symm
  | some n => rfl

/-! ## A number of bytes -/

/-- Read until `len` bytes have come; the fuel bounds the number of reads. -/
def readFullyFuel : Nat → Socket → Nat → Option (Bytes × Socket)
  | 0, s, _ => some ([], s)
  | fuel + 1, s, len =>
    if len = 0 then some ([], s)
    else
      match s.read len with
      | (.data chunk, s) =>
        (readFullyFuel fuel s (len - chunk.length)).map fun result =>
          (chunk ++ result.1, result.2)
      | _ => none

/-- Read until `len` bytes have come. -/
def readFully (s : Socket) (len : Nat) : Option (Bytes × Socket) :=
  readFullyFuel len s len

variable {fuel : Nat}

theorem readFullyFuel_spec {len : Nat} (hfuel : len ≤ fuel) (s : Socket) :
    (len ≤ s.incoming.length → ∃ sizes, readFullyFuel fuel s len =
      some (s.incoming.take len, { s with incoming := s.incoming.drop len, sizes := sizes })) ∧
    (s.incoming.length < len → readFullyFuel fuel s len = none) := by
  induction fuel generalizing s len with
  | zero =>
    rw [Nat.le_zero.mp hfuel]
    exact ⟨fun _ => ⟨s.sizes, by simp [readFullyFuel]⟩, fun h => absurd h (Nat.not_lt_zero _)⟩
  | succ fuel ih =>
    rw [readFullyFuel]
    by_cases hlen : len = 0
    · rw [if_pos hlen, hlen]
      exact ⟨fun _ => ⟨s.sizes, by simp⟩, fun h => absurd h (Nat.not_lt_zero _)⟩
    · rw [if_neg hlen]
      by_cases hnil : s.incoming = []
      · rw [read_of_nil hnil]
        refine ⟨fun h => absurd (hnil ▸ h) (by simpa using hlen), fun _ => ?_⟩
        cases s.fails with
        | true => rfl
        | false => rfl
      · rcases read_of_ne_nil hnil (Nat.pos_of_ne_zero hlen) with
          ⟨chunk, rest, sizes, hsplit, hchunk, hle, hread⟩
        have hpos := length_pos_iff.mpr hchunk
        rcases @ih (len - chunk.length) (by omega)
            { s with incoming := rest, sizes := sizes } with ⟨henough, hshort⟩
        rw [hread, hsplit, length_append]
        dsimp only at henough hshort ⊢
        constructor
        · intro h
          rcases henough (by omega) with ⟨sizes', heq⟩
          refine ⟨sizes', ?_⟩
          rw [heq, Option.map_some, take_append, take_of_length_le hle,
            drop_append, drop_of_length_le hle, nil_append]
        · intro h
          rw [hshort (by omega)]
          rfl

/-- The bytes that are waited for have come, if so many arrive. -/
theorem readFully_eq {s : Socket} {len : Nat} (h : len ≤ s.incoming.length) :
    ∃ sizes, readFully s len =
      some (s.incoming.take len, { s with incoming := s.incoming.drop len, sizes := sizes }) :=
  (readFullyFuel_spec (Nat.le_refl len) s).1 h

theorem readFully_none {len : Nat} (h : s.incoming.length < len) : readFully s len = none :=
  (readFullyFuel_spec (Nat.le_refl len) s).2 h

/-! ## A line -/

/-- The end of a line. -/
def newline : Byte := 10

/-- Read until the buffer, which has room for `room` more bytes, has the end of a line, or the
stream ends. -/
def readUntilFuel : Nat → Socket → Bytes → Nat → Option (Bytes × Socket)
  | 0, _, _, _ => none
  | fuel + 1, s, buf, room =>
    if newline ∈ buf then some (buf, s)
    else if room = 0 then none
    else
      match s.read room with
      | (.data chunk, s) => readUntilFuel fuel s (buf ++ chunk) (room - chunk.length)
      | (.eof, s) => some (buf, s)
      | (.error, _) => none

/-- Read the first line into a buffer of `room` bytes, with whatever else comes with it. -/
def readUntil (s : Socket) (room : Nat) : Option (Bytes × Socket) :=
  readUntilFuel (room + 1) s [] room

variable {buf rest : Bytes}

/-- A part of a stream without the end of the first line is not longer than the line. -/
theorem length_le_of_not_mem {more line : Bytes} (hmem : newline ∉ buf)
    (h : buf ++ more = line ++ newline :: rest) : buf.length ≤ line.length := by
  by_contra hlt
  have htaken : line ++ [newline] = buf.take (line.length + 1) := by
    have htake := congrArg (List.take (line.length + 1)) h
    rw [take_append_of_le_length (by omega)] at htake
    rw [htake, take_append]
    simp
  have hin : newline ∈ buf.take (line.length + 1) := by
    rw [← htaken]
    simp
  exact hmem (mem_of_mem_take hin)

/-- A part of a stream with the end of a line has the first line, and more. -/
theorem exists_of_mem {more line : Bytes} (hline : newline ∉ line) (hmem : newline ∈ buf)
    (h : buf ++ more = line ++ newline :: rest) :
    ∃ leftover, buf = line ++ newline :: leftover ∧ leftover ++ more = rest := by
  rw [append_cons] at h
  rcases append_eq_append_iff.mp h with ⟨after, hafter, _⟩ | ⟨leftover, hbuf, hrest⟩
  · -- The part ends in the line, but the end of a line is not in it.
    cases after using List.reverseRecOn with
    | nil =>
      rw [append_nil] at hafter
      exact ⟨[], by rw [← hafter], by
        rw [← hafter] at h
        simpa using h⟩
    | append_singleton after b _ =>
      rw [← append_assoc] at hafter
      rcases append_inj' hafter rfl with ⟨hinit, _⟩
      rw [hinit] at hline
      exact absurd (mem_append_left _ hmem) hline
  · exact ⟨leftover, by rw [hbuf, ← append_cons], hrest.symm⟩

variable {room : Nat}

theorem readUntilFuel_line (hfuel : room < fuel) {line : Bytes} (hline : newline ∉ line)
    (hstream : buf ++ s.incoming = line ++ newline :: rest)
    (hroom : line.length < buf.length + room) :
    ∃ leftover s', readUntilFuel fuel s buf room = some (line ++ newline :: leftover, s') ∧
      s'.fails = s.fails ∧ leftover ++ s'.incoming = rest := by
  induction fuel generalizing s buf room with
  | zero => exact absurd hfuel (Nat.not_lt_zero _)
  | succ fuel ih =>
    rw [readUntilFuel]
    by_cases hmem : newline ∈ buf
    · rw [if_pos hmem]
      rcases exists_of_mem hline hmem hstream with ⟨leftover, hbuf, hrest⟩
      exact ⟨leftover, s, by rw [hbuf], rfl, hrest⟩
    · rw [if_neg hmem]
      have hlong := length_le_of_not_mem hmem hstream
      have hne : s.incoming ≠ [] := by
        intro hnil
        have hlength := congrArg List.length hstream
        rw [hnil] at hlength
        simp only [append_nil, length_append, length_cons] at hlength
        omega
      rw [if_neg (by omega)]
      rcases read_of_ne_nil hne (show 0 < room by omega) with
        ⟨chunk, rest', sizes, hsplit, hchunk, hle, hread⟩
      have hpos := length_pos_iff.mpr hchunk
      rw [hread]
      apply ih (by omega)
      · rw [append_assoc, ← hsplit]
        exact hstream
      · rw [length_append]
        omega

/-- The line that arrives is in the buffer, whatever else is. -/
theorem readUntil_line {line : Bytes} (hline : newline ∉ line)
    (hstream : s.incoming = line ++ newline :: rest) (hroom : line.length < room) :
    ∃ leftover s', readUntil s room = some (line ++ newline :: leftover, s') ∧
      s'.fails = s.fails ∧ leftover ++ s'.incoming = rest :=
  readUntilFuel_line (Nat.lt_succ_self room) hline (by rw [nil_append]; exact hstream)
    (by simpa using hroom)

theorem readUntilFuel_rest (hfuel : room < fuel) (hnone : newline ∉ buf ++ s.incoming)
    (hroom : s.incoming.length < room) :
    ∃ s', s'.incoming = [] ∧ s'.fails = s.fails ∧
      readUntilFuel fuel s buf room = if s.fails then none else some (buf ++ s.incoming, s') := by
  induction fuel generalizing s buf room with
  | zero => exact absurd hfuel (Nat.not_lt_zero _)
  | succ fuel ih =>
    have hbuf : newline ∉ buf := fun h => hnone (mem_append_left _ h)
    rw [readUntilFuel, if_neg hbuf, if_neg (by omega)]
    by_cases hnil : s.incoming = []
    · refine ⟨s, hnil, rfl, ?_⟩
      rw [read_of_nil hnil, hnil, append_nil]
      cases s.fails with
      | true => rfl
      | false => rfl
    · rcases read_of_ne_nil hnil (show 0 < room by omega) with
        ⟨chunk, rest, sizes, hsplit, hchunk, hle, hread⟩
      have hpos := length_pos_iff.mpr hchunk
      have hlength := congrArg List.length hsplit
      rw [length_append] at hlength
      rw [hsplit, ← append_assoc] at hnone
      rcases @ih { s with incoming := rest, sizes := sizes } (buf ++ chunk)
          (room - chunk.length) (by omega) hnone (show rest.length < _ by omega) with
        ⟨s', hs', hfails, heq⟩
      refine ⟨s', hs', hfails, ?_⟩
      rw [hread, hsplit, ← append_assoc]
      exact heq

/-- If no line arrives, the buffer has all that arrives, unless there is an error. -/
theorem readUntil_rest (hnone : newline ∉ s.incoming) (hroom : s.incoming.length < room) :
    ∃ s', s'.incoming = [] ∧ s'.fails = s.fails ∧
      readUntil s room = if s.fails then none else some (s.incoming, s') :=
  readUntilFuel_rest (Nat.lt_succ_self room) (by rw [nil_append]; exact hnone) hroom

theorem readUntilFuel_long (hfuel : room < fuel) (hnone : newline ∉ buf ++ s.incoming.take room)
    (hroom : room ≤ s.incoming.length) :
    readUntilFuel fuel s buf room = none := by
  induction fuel generalizing s buf room with
  | zero => exact absurd hfuel (Nat.not_lt_zero _)
  | succ fuel ih =>
    rw [readUntilFuel, if_neg fun h => hnone (mem_append_left _ h)]
    by_cases hzero : room = 0
    · exact if_pos hzero
    · have hne : s.incoming ≠ [] := ne_nil_of_length_pos (by omega)
      rcases read_of_ne_nil hne (Nat.pos_of_ne_zero hzero) with
        ⟨chunk, rest, sizes, hsplit, hchunk, hle, hread⟩
      have hpos := length_pos_iff.mpr hchunk
      rw [hsplit, take_append, take_of_length_le hle, ← append_assoc] at hnone
      rw [hsplit, length_append] at hroom
      rw [if_neg hzero, hread]
      exact ih (by omega) hnone (show _ ≤ rest.length by omega)

/-- A line that does not fit into the buffer. -/
theorem readUntil_long (hnone : newline ∉ s.incoming.take room) (hroom : room ≤ s.incoming.length) :
    readUntil s room = none :=
  readUntilFuel_long (Nat.lt_succ_self room) (by rw [nil_append]; exact hnone) hroom

end SocketLib
