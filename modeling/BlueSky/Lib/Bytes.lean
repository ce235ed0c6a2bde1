import Mathlib

/-!
# Byte strings and little-endian fields

Binary formats are modelled as lists of octets.  This module fixes the
little-endian coding of unsigned fields, the slice of a buffer that a record
occupies, and the few facts about runs of zero bytes that a torn file needs.

Main results:

- Theorem {lit}`leNat_leBytes`: reading back a written field gives the value
  modulo the width of the field.
- Theorem {lit}`leBytes_leNat`: a field is determined by its value.
- Theorem {lit}`slice_append_right`: a slice that starts after a known part of
  a buffer is a slice of what follows it.
-/

namespace ByteLib

open List

/-- One octet. -/
abbrev Byte := BitVec 8

instance : LawfulBEq Byte := inferInstance

/-- A byte string. -/
abbrev Bytes := List Byte

/-- The {lit}`k` low octets of {lit}`n`, least significant first. -/
def leBytes : Nat → Nat → Bytes
  | 0, _ => []
  | k + 1, n => BitVec.ofNat 8 n :: leBytes k (n / 256)

/-- The number a byte string denotes, least significant octet first. -/
def leNat : Bytes → Nat
  | [] => 0
  | b :: bs => b.toNat + 256 * leNat bs

/-- The {lit}`len` bytes of a buffer that start at {lit}`off` (fewer at its end). -/
def slice (buf : Bytes) (off len : Nat) : Bytes :=
  (buf.drop off).take len

/-- A run of zero bytes. -/
def zeros (n : Nat) : Bytes :=
  List.replicate n 0

/-! ## Field codecs -/

@[simp]
theorem length_leBytes (k n : Nat) : (leBytes k n).length = k := by
  induction k generalizing n with
  | zero => rfl
  | succ k ih => simp [leBytes, ih]

theorem leNat_leBytes (k n : Nat) : leNat (leBytes k n) = n % 256 ^ k := by
  induction k generalizing n with
  | zero => simp [leBytes, leNat, Nat.mod_one]
  | succ k ih =>
    have hsplit : n % 256 ^ (k + 1) = n % 256 + 256 * (n / 256 % 256 ^ k) := by
      rw [pow_succ', Nat.mod_mul]
    simp [leBytes, leNat, ih, hsplit]

variable {k : Nat}

/-- A value that fits its field is read back exactly. -/
theorem leNat_leBytes_of_lt {n : Nat} (h : n < 256 ^ k) : leNat (leBytes k n) = n := by
  rw [leNat_leBytes, Nat.mod_eq_of_lt h]

theorem leNat_append (a b : Bytes) :
    leNat (a ++ b) = leNat a + 256 ^ a.length * leNat b := by
  induction a with
  | nil => simp [leNat]
  | cons x xs ih =>
    simp only [cons_append, leNat, length_cons, ih, pow_succ']
    ring

theorem leNat_lt (a : Bytes) : leNat a < 256 ^ a.length := by
  induction a with
  | nil => simp [leNat]
  | cons x xs ih =>
    have hx := x.isLt
    simp only [leNat, length_cons, pow_succ']
    omega

/-- A field is determined by its value. -/
theorem leBytes_leNat (a : Bytes) : leBytes a.length (leNat a) = a := by
  induction a with
  | nil => rfl
  | cons x xs ih =>
    have hx := x.isLt
    have hdiv : (x.toNat + 256 * leNat xs) / 256 = leNat xs := by omega
    have hmod : BitVec.ofNat 8 (x.toNat + 256 * leNat xs) = x := by
      apply BitVec.eq_of_toNat_eq
      simp only [BitVec.toNat_ofNat]
      omega
    simp only [leNat, length_cons, leBytes, hdiv, hmod, ih]

/-! ## Slices -/

theorem length_slice (buf : Bytes) (off len : Nat) :
    (slice buf off len).length = min len (buf.length - off) := by
  simp [slice]

variable {len : Nat}

theorem length_slice_of_le {buf : Bytes} {off : Nat} (h : off + len ≤ buf.length) :
    (slice buf off len).length = len := by
  rw [length_slice]
  omega

/-- A slice that starts after a prefix lies in the rest of the buffer. -/
theorem slice_append_right (a b : Bytes) (off len : Nat) :
    slice (a ++ b) (a.length + off) len = slice b off len := by
  have hskip : a.drop (a.length + off) = [] :=
    drop_eq_nil_of_le (Nat.le_add_right _ _)
  simp [slice, drop_append, hskip]

variable {a : Bytes}

/-- A slice that ends inside a prefix does not see what follows it. -/
theorem slice_append_left (b : Bytes) {off : Nat} (h : off + len ≤ a.length) :
    slice (a ++ b) off len = slice a off len := by
  unfold slice
  rw [drop_append_of_le_length (by omega), take_append_of_le_length]
  simp only [length_drop]
  omega

@[simp]
theorem slice_zero_length (a : Bytes) : slice a 0 a.length = a := by
  simp [slice]

/-- Slices nest. -/
theorem slice_slice {buf : Bytes} {off len i n : Nat} (h : i + n ≤ len) :
    slice (slice buf off len) i n = slice buf (off + i) n := by
  unfold slice
  rw [drop_take, take_take, drop_drop]
  congr 1
  omega

/-- Two neighbouring slices make one. -/
theorem slice_add (buf : Bytes) (off m n : Nat) :
    slice buf off (m + n) = slice buf off m ++ slice buf (off + m) n := by
  unfold slice
  rw [take_add, drop_drop]

/-- A slice in the middle of a concatenation is the part written there. -/
theorem slice_middle (a b c : Bytes) : slice (a ++ (b ++ c)) a.length b.length = b := by
  have hright := slice_append_right a (b ++ c) 0 b.length
  rw [Nat.add_zero] at hright
  rw [hright, slice_append_left c (by simp), slice_zero_length]

/-! ## Zero bytes -/

@[simp]
theorem length_zeros (n : Nat) : (zeros n).length = n := by
  simp [zeros]

theorem leNat_eq_zero (h : ∀ b ∈ a, b = 0) : leNat a = 0 := by
  induction a with
  | nil => rfl
  | cons x xs ih =>
    have hx : x = 0 := h x mem_cons_self
    have hxs : leNat xs = 0 := ih fun b hb => h b (mem_cons_of_mem _ hb)
    simp [leNat, hx, hxs]

/-- Up to a cut, a file that was written and then zero-filled reads as written. -/
theorem slice_cut_of_le {cut off : Nat} (hcut : off + len ≤ cut) (hlen : off + len ≤ a.length) :
    slice (a.take cut ++ zeros k) off len = slice a off len := by
  rw [slice_append_left _ (by simp only [length_take]; omega)]
  conv_rhs => rw [← take_append_drop cut a]
  rw [slice_append_left _ (by simp only [length_take]; omega)]

/-- Past a cut, a file that was written and then zero-filled reads as zeros. -/
theorem slice_cut_zeros {cut off : Nat} (h : cut ≤ off) :
    ∀ b ∈ slice (a.take cut ++ zeros k) off len, b = 0 := by
  intro b hb
  have hdrop : b ∈ (a.take cut ++ zeros k).drop off :=
    mem_of_mem_take hb
  rw [drop_append] at hdrop
  rcases mem_append.mp hdrop with hleft | hright
  · have hempty : (a.take cut).drop off = [] := by
      apply drop_eq_nil_of_le
      simp only [length_take]
      omega
    simp [hempty] at hleft
  · exact eq_of_mem_replicate (mem_of_mem_drop hright)

end ByteLib
