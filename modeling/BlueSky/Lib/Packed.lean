import BlueSky.Lib.Bytes

/-!
# Packed structures

A packed structure is a sequence of unsigned little-endian fields without padding.
It is written down as the list of the widths and values of its fields.

Main results:

- Theorem {lit}`fieldAt_pack`: a field is read back at the sum of the widths before it.
- Theorem {lit}`pack_fieldsAt`: the fields of a buffer make up the bytes they cover.
-/

namespace PackedLib

open ByteLib

/-- The fields of a structure: the width of each in octets, and its value. -/
abbrev Fields := List (Nat × Nat)

/-- The bytes of a structure. -/
def pack : Fields → Bytes
  | [] => []
  | field :: fields => leBytes field.1 field.2 ++ pack fields

/-- The number of bytes of a structure. -/
def width (fields : Fields) : Nat :=
  (fields.map Prod.fst).sum

/-- The value of the field of {lit}`k` octets at an offset. -/
def fieldAt (buf : Bytes) (off k : Nat) : Nat :=
  leNat (slice buf off k)

/-- The fields of the given widths that follow one another from an offset on. -/
def fieldsAt (buf : Bytes) : Nat → List Nat → Fields
  | _, [] => []
  | off, k :: ks => (k, fieldAt buf off k) :: fieldsAt buf (off + k) ks

@[simp]
theorem length_pack (fields : Fields) : (pack fields).length = width fields := by
  induction fields with
  | nil => rfl
  | cons field fields ih => simp [pack, width, ih]

theorem pack_append (fs gs : Fields) : pack (fs ++ gs) = pack fs ++ pack gs := by
  induction fs with
  | nil => rfl
  | cons field fs ih => simp [pack, ih]

theorem fieldAt_lt (buf : Bytes) (off k : Nat) : fieldAt buf off k < 256 ^ k := by
  calc fieldAt buf off k < 256 ^ (slice buf off k).length := leNat_lt _
    _ ≤ 256 ^ k := by
        apply Nat.pow_le_pow_right (by norm_num)
        rw [length_slice]
        exact min_le_left _ _

/-- A field is read back at the sum of the widths of the fields before it. -/
theorem fieldAt_pack (pre : Fields) (k n : Nat) (post : Fields) (rest : Bytes) :
    fieldAt (pack (pre ++ (k, n) :: post) ++ rest) (width pre) k = n % 256 ^ k := by
  have hmiddle := slice_middle (pack pre) (leBytes k n) (pack post ++ rest)
  rw [length_pack, length_leBytes] at hmiddle
  have hbytes : pack (pre ++ (k, n) :: post) ++ rest =
      pack pre ++ (leBytes k n ++ (pack post ++ rest)) := by
    simp [pack_append, pack]
  rw [fieldAt, hbytes, hmiddle, leNat_leBytes]

/-- The fields of a buffer make up the bytes they cover. -/
theorem pack_fieldsAt {buf : Bytes} {off : Nat} {ks : List Nat}
    (h : off + ks.sum ≤ buf.length) : pack (fieldsAt buf off ks) = slice buf off ks.sum := by
  induction ks generalizing off with
  | nil => simp [fieldsAt, pack, slice]
  | cons k ks ih =>
    rw [List.sum_cons] at h ⊢
    have hlen : (slice buf off k).length = k := length_slice_of_le (by omega)
    have hfield : leBytes k (fieldAt buf off k) = slice buf off k := by
      have hread := leBytes_leNat (slice buf off k)
      rwa [hlen] at hread
    rw [fieldsAt, pack, hfield, ih (by omega), slice_add]

end PackedLib
