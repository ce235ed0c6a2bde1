import BlueSky.Lib.Bytes
import Mathlib.Data.List.Basic
import Mathlib.Tactic.SplitIfs

/-!
# Record marking on a byte stream

A message travels over a byte stream as a sequence of fragments.  Each fragment is headed by four
bytes in network order, which give its length and, in the top bit, whether it is the last one of
its message.  The module gives the stream of a list of fragments and the messages that a list of
fragments stands for.

Main results:

- Theorem {lit}`reassemble_records`: the fragments of a list of messages stand for these messages.
- Theorem {lit}`beNat_mark`: a header is read back as the word it was made from.
-/

namespace RecordMarkingLib

open List ByteLib

/-! ## Network order -/

/-- The number that bytes in network order stand for. -/
def beNat (bytes : Bytes) : Nat :=
  leNat bytes.reverse

/-- The `k` bytes of a number in network order. -/
def beBytes (k n : Nat) : Bytes :=
  (leBytes k n).reverse

@[simp]
theorem length_beBytes (k n : Nat) : (beBytes k n).length = k := by
  simp [beBytes]

variable {n : Nat}

theorem beNat_beBytes_of_lt {k : Nat} (h : n < 256 ^ k) : beNat (beBytes k n) = n := by
  simp [beNat, beBytes, leNat_leBytes_of_lt h]

/-! ## Fragments -/

/-- A fragment of a message. -/
structure Fragment where
  last : Bool
  body : Bytes
deriving DecidableEq, Repr

/-- The word that heads a fragment of which `n` bytes are to come. -/
def markWord (last : Bool) (n : Nat) : Nat :=
  (if last then 2 ^ 31 else 0) + n

/-- The header of a fragment. -/
def Fragment.mark (f : Fragment) : Bytes :=
  beBytes 4 (markWord f.last f.body.length)

/-- A fragment on the stream. -/
def Fragment.encode (f : Fragment) : Bytes :=
  f.mark ++ f.body

/-- The stream of a list of fragments. -/
def stream (fs : List Fragment) : Bytes :=
  fs.flatMap Fragment.encode

@[simp]
theorem stream_cons (f : Fragment) (fs : List Fragment) :
    stream (f :: fs) = f.mark ++ (f.body ++ stream fs) := by
  simp [stream, Fragment.encode]

@[simp]
theorem length_mark (f : Fragment) : f.mark.length = 4 :=
  length_beBytes 4 _

/-- The mark holds the length of the fragment. -/
theorem markWord_mod {last : Bool} (h : n < 2 ^ 31) : markWord last n % 2 ^ 31 = n := by
  unfold markWord
  split_ifs <;> omega

/-- A mark is zero only for an empty fragment that is not the last. -/
theorem markWord_eq_zero {last : Bool} : markWord last n = 0 ↔ last = false ∧ n = 0 := by
  cases last <;> simp [markWord]

variable {f : Fragment}

theorem beNat_mark (h : f.body.length < 2 ^ 31) : beNat f.mark = markWord f.last f.body.length := by
  apply beNat_beBytes_of_lt
  unfold markWord
  split_ifs <;> omega

/-! ## Reassembly -/

/-- The messages that fragments stand for, where `got` has come before them. -/
def reassemble (got : Bytes) : List Fragment → List Bytes
  | [] => []
  | f :: fs =>
    if f.last then (got ++ f.body) :: reassemble [] fs else reassemble (got ++ f.body) fs

/-- No message that the fragments stand for grows over `limit`. -/
def Fits (limit : Nat) (got : Bytes) : List Fragment → Prop
  | [] => got.length ≤ limit
  | f :: fs =>
    got.length + f.body.length ≤ limit ∧
      if f.last then Fits limit [] fs else Fits limit (got ++ f.body) fs

variable {limit : Nat} {got : Bytes} {fs : List Fragment}

theorem Fits.length_le (h : Fits limit got fs) : got.length ≤ limit := by
  cases fs with
  | nil => exact h
  | cons f fs => exact Nat.le_trans (Nat.le_add_right _ _) h.1

/-- A fragment that is not the last one of its message is added to what has come. -/
theorem reassemble_skip (hlast : f.last = false) :
    reassemble got (f :: fs) = reassemble (got ++ f.body) fs := by
  simp [reassemble, hlast]

/-- After a fragment the rest of the message has to fit. -/
theorem Fits.skip (h : Fits limit got (f :: fs)) (hlast : f.last = false) :
    Fits limit (got ++ f.body) fs := by
  simpa [Fits, hlast] using h.2

/-- A message with a way to split it into fragments. -/
structure Record where
  pieces : List Bytes
  final : Bytes
deriving DecidableEq, Repr

/-- The message of a record. -/
def Record.message (r : Record) : Bytes :=
  r.pieces.flatten ++ r.final

/-- The fragments of a record: only the final one is marked as the last. -/
def Record.fragments (r : Record) : List Fragment :=
  r.pieces.map (Fragment.mk false) ++ [⟨true, r.final⟩]

/-- A message in several fragments is put together. -/
theorem reassemble_pieces (got : Bytes) (pieces : List Bytes) (final : Bytes)
    (fs : List Fragment) :
    reassemble got (pieces.map (Fragment.mk false) ++ ⟨true, final⟩ :: fs) =
      (got ++ (pieces.flatten ++ final)) :: reassemble [] fs := by
  induction pieces generalizing got with
  | nil => simp [reassemble]
  | cons p ps ih => simp [reassemble, ih]

/-- Whatever the fragments, the messages are those of the records. -/
theorem reassemble_records (records : List Record) :
    reassemble [] (records.flatMap Record.fragments) = records.map Record.message := by
  induction records with
  | nil => rfl
  | cons r rs ih =>
    simp [Record.fragments, Record.message, reassemble_pieces, ih]

theorem fits_pieces {limit : Nat} {got : Bytes} {pieces : List Bytes} {final : Bytes}
    {fs : List Fragment} (h : (got ++ (pieces.flatten ++ final)).length ≤ limit)
    (hfs : Fits limit [] fs) :
    Fits limit got (pieces.map (Fragment.mk false) ++ ⟨true, final⟩ :: fs) := by
  induction pieces generalizing got with
  | nil =>
    constructor
    · simpa using h
    · simpa using hfs
  | cons p ps ih =>
    simp only [flatten_cons, append_assoc, length_append] at h
    constructor
    · change got.length + p.length ≤ limit
      omega
    · apply ih
      simp only [length_append]
      omega

/-- Where each message is within the limit, no message grows over it on the way. -/
theorem fits_records {records : List Record} (h : ∀ r ∈ records, r.message.length ≤ limit) :
    Fits limit [] (records.flatMap Record.fragments) := by
  induction records with
  | nil => exact Nat.zero_le limit
  | cons r rs ih =>
    have htail := ih (fun r' hr' => h r' (mem_cons_of_mem r hr'))
    have hhead := h r mem_cons_self
    simpa [Record.fragments] using @fits_pieces limit [] r.pieces r.final _ hhead htail

end RecordMarkingLib
