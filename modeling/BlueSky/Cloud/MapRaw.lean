import BlueSky.Cloud.CacheFile

/-!
# Mapping parts of a cache file

A cache file is mapped into memory as a whole when part of it is needed, and stays mapped as long
as a string refers to it.  The file may grow meanwhile; what lies behind the end of the mapping is
then read from the file.  `bluesky_cachefile_map_raw` has these three ways to a range of bytes,
which should all lead to the same bytes.

Main results:

- Theorem {lit}`stringNewFromMmap_eq`: what a string in a mapping holds.
- Theorem {lit}`MappedFile.mapRaw_covered`, {lit}`MappedFile.mapRaw_uncovered`: what is returned
  for a range that is mapped, or can be mapped, and for another one.
- Theorem {lit}`MappedFile.mapRaw_iff`: when the bytes of the file are returned.
-/

namespace BlueSky

open Option ByteLib

/-! ## The file and its mapping -/

/-- A cache file and its mapping: the fields `addr` and `len` of `BlueSkyCacheFile`.  The mapping
is shared, so that it shows what is in the file now; the file has not become shorter since it was
mapped. -/
structure MappedFile where
  bytes : Bytes
  /-- The length of the mapping, if there is one. -/
  len : Option Nat
  covered_le : ∀ n ∈ len, n ≤ bytes.length
  /-- Lengths of files are non-negative values of `off_t`. -/
  length_lt : bytes.length < 2 ^ 63

namespace MappedFile

/-- The file is mapped as a whole. -/
def map (file : MappedFile) : MappedFile where
  bytes := file.bytes
  len := some file.bytes.length
  covered_le := by simp
  length_lt := file.length_lt

/-- A write to the file, which leaves the mapping as it is. -/
def write (file : MappedFile) (offset : Nat) (buf : Bytes) (h : offset + buf.length < 2 ^ 63) :
    MappedFile where
  bytes := robustPwrite file.bytes offset buf
  len := file.len
  covered_le := by
    intro n hn
    rw [length_robustPwrite]
    exact (file.covered_le n hn).trans (Nat.le_max_left _ _)
  length_lt := by
    rw [length_robustPwrite]
    exact Nat.max_lt.mpr ⟨file.length_lt, h⟩

end MappedFile

/-- The `int` that an offset becomes as an argument of `bluesky_string_new_from_mmap`. -/
def intOffset (offset : Nat) : Int :=
  (BitVec.ofNat 32 offset).toInt

/-- `bluesky_string_new_from_mmap`, for a mapping of a given length.  Nothing is returned if the
assertion fails, or if the string lies before the mapping. -/
def stringNewFromMmap (bytes : Bytes) (mapped : Nat) (offset : Int) (len : Nat) : Option Bytes :=
  if (BitVec.ofInt 64 offset + BitVec.ofNat 64 len).toNat ≤ mapped ∧ 0 ≤ offset then
    some (slice bytes offset.toNat len)
  else none

/-- `readbuf` from the position in a file where some bytes are left: the result, which is never
increased, and what is in the buffer. -/
def readbuf (left : Bytes) (len : Nat) : Nat × Bytes :=
  (0, left.take len)

/-- `bluesky_cachefile_map_raw`: the result, which may be `NULL`, and the file with its mapping
afterwards.  The position in the file is at its end when it comes to `readbuf`. -/
def MappedFile.mapRaw (file : MappedFile) (offset size : Nat) :
    Option (Option Bytes × MappedFile) :=
  let stop := (offset + size) % 2 ^ 64
  match file.len.filter (fun len => stop ≤ len) with
  | some len =>
    (stringNewFromMmap file.bytes len (intOffset offset) size).map fun str => (some str, file)
  | none =>
    let length := file.bytes.length
    if length < stop then some (none, file)
    else
      match file.len with
      | none =>
        (stringNewFromMmap file.bytes length (intOffset offset) size).map fun str =>
          (some str, file.map)
      | some _ =>
        let (actualSize, buf) := readbuf (file.bytes.drop length) size
        if actualSize ≠ size then some (none, file) else some (some buf, file)

/-! ## Strings in a mapping -/

section Strings

variable {bytes : Bytes} {mapped offset size : Nat}

/-- The `int` is not above the offset. -/
theorem intOffset_le (offset : Nat) : intOffset offset ≤ offset := by
  have hle : (BitVec.ofNat 32 offset).toNat ≤ offset := by
    rw [BitVec.toNat_ofNat]
    exact Nat.mod_le _ _
  rw [intOffset, BitVec.toInt_eq_toNat_cond]
  split_ifs
  · exact_mod_cast hle
  · omega

/-- Inside the mapping, a string holds the bytes from the `int` on. -/
theorem stringNewFromMmap_eq (hlen : mapped < 2 ^ 63) (h : offset + size ≤ mapped) :
    stringNewFromMmap bytes mapped (intOffset offset) size =
      if 0 ≤ intOffset offset then some (slice bytes (intOffset offset).toNat size) else none := by
  by_cases hsign : 0 ≤ intOffset offset
  · have hle := intOffset_le offset
    have hsum : (BitVec.ofInt 64 (intOffset offset) + BitVec.ofNat 64 size).toNat ≤ mapped := by
      rw [BitVec.toNat_add, BitVec.toNat_ofInt, BitVec.toNat_ofNat]
      omega
    rw [stringNewFromMmap, if_pos ⟨hsum, hsign⟩, if_pos hsign]
  · rw [stringNewFromMmap, if_neg (fun hboth => hsign hboth.2), if_neg hsign]

end Strings

/-! ## The three ways -/

namespace MappedFile

variable {file : MappedFile} {offset size : Nat}

/-- How far the file is mapped, or can be mapped. -/
def covered (file : MappedFile) : Nat :=
  file.len.getD file.bytes.length

theorem covered_le_length (file : MappedFile) : file.covered ≤ file.bytes.length := by
  rw [covered]
  cases hlen : file.len with
  | none => exact Nat.le_refl _
  | some n => exact file.covered_le n hlen

/-- The file when it has been mapped at need. -/
def mapped (file : MappedFile) : MappedFile :=
  if file.len = none then file.map else file

theorem bytes_mapped (file : MappedFile) : file.mapped.bytes = file.bytes := by
  rw [mapped]
  split_ifs
  · rfl
  · rfl

/-- Some string is returned, or the program is aborted, for what is mapped or can be mapped. -/
theorem mapRaw_covered (h : (offset + size) % 2 ^ 64 ≤ file.covered) :
    file.mapRaw offset size =
      (stringNewFromMmap file.bytes file.covered (intOffset offset) size).map fun str =>
        (some str, file.mapped) := by
  rw [covered] at h ⊢
  rw [mapRaw, mapped]
  dsimp only
  cases hlen : file.len with
  | none =>
    rw [hlen, getD_none] at h
    rw [filter_none, getD_none]
    dsimp only
    rw [if_neg (Nat.not_lt.mpr h)]
    simp
  | some len =>
    rw [hlen] at h
    rw [filter_some_pos (by simpa using h), getD_some]
    simp

/-- Nothing is returned for what is not covered, even if it is in the file, unless it is
empty. -/
theorem mapRaw_uncovered (h : file.covered < (offset + size) % 2 ^ 64) :
    file.mapRaw offset size =
      some (if (offset + size) % 2 ^ 64 ≤ file.bytes.length ∧ size = 0 then some [] else none,
        file) := by
  rw [covered] at h
  rw [mapRaw]
  dsimp only
  cases hlen : file.len with
  | none =>
    rw [hlen, getD_none] at h
    rw [filter_none]
    dsimp only
    rw [if_pos h, if_neg (by omega)]
  | some len =>
    rw [hlen, getD_some] at h
    rw [filter_some_neg (by simpa using h)]
    dsimp only
    by_cases hpast : file.bytes.length < (offset + size) % 2 ^ 64
    · rw [if_pos hpast, if_neg (by omega)]
    · rw [if_neg hpast]
      have hactual : (readbuf (file.bytes.drop file.bytes.length) size).1 = 0 := rfl
      by_cases hsize : size = 0
      · rw [if_neg (by rw [hactual, hsize]; simp), if_pos ⟨Nat.not_lt.mp hpast, hsize⟩, readbuf,
          hsize, List.take_zero]
      · rw [if_pos (by rw [hactual]; exact Ne.symm hsize), if_neg (fun hboth => hsize hboth.2)]

/-- When the bytes of the file are returned.  Past the end of the file, the sum of offset and size
must not wrap around to what is mapped; in the file, the bytes must be mapped, if there are any,
and the conversion of the offset to an `int` must lead to the same bytes. -/
def Readable (file : MappedFile) (offset size : Nat) : Prop :=
  if file.bytes.length < offset + size then file.covered < (offset + size) % 2 ^ 64
  else if offset + size ≤ file.covered then
    0 ≤ intOffset offset ∧
      slice file.bytes (intOffset offset).toNat size = slice file.bytes offset size
  else size = 0

instance (file : MappedFile) (offset size : Nat) : Decidable (file.Readable offset size) := by
  unfold Readable
  infer_instance

/-- Nothing is returned for a range that is not in the file. -/
theorem mapRaw_past (hoffset : offset < 2 ^ 63) (hpast : file.bytes.length < offset + size) :
    (∃ file', file.mapRaw offset size = some (none, file') ∧ file'.bytes = file.bytes) ↔
      file.covered < (offset + size) % 2 ^ 64 := by
  constructor
  · rintro ⟨file', hresult, -⟩
    by_contra hcovered
    rw [mapRaw_covered (Nat.not_lt.mp hcovered)] at hresult
    rcases map_eq_some_iff.mp hresult with ⟨str, -, heq⟩
    cases heq
  · intro hcovered
    refine ⟨file, ?_, rfl⟩
    have hle := file.covered_le_length
    rw [mapRaw_uncovered hcovered, if_neg (by omega)]

/-- What is in the file. -/
theorem mapRaw_inside (h : offset + size ≤ file.bytes.length) :
    (∃ file', file.mapRaw offset size = some (some (slice file.bytes offset size), file') ∧
        file'.bytes = file.bytes) ↔
      if offset + size ≤ file.covered then
        0 ≤ intOffset offset ∧
          slice file.bytes (intOffset offset).toNat size = slice file.bytes offset size
      else size = 0 := by
  have hle := file.covered_le_length
  have hlt := file.length_lt
  have hstop : (offset + size) % 2 ^ 64 = offset + size := Nat.mod_eq_of_lt (by omega)
  split_ifs with hcovered
  · rw [mapRaw_covered (by omega), stringNewFromMmap_eq (by omega) hcovered]
    by_cases hsign : 0 ≤ intOffset offset
    · rw [if_pos hsign, map_some]
      constructor
      · rintro ⟨file', heq, -⟩
        rw [some_inj, Prod.mk.injEq, some_inj] at heq
        exact ⟨hsign, heq.1⟩
      · rintro ⟨-, hslice⟩
        rw [hslice]
        exact ⟨_, rfl, file.bytes_mapped⟩
    · rw [if_neg hsign, map_none]
      exact iff_of_false (by simp) (fun hboth => hsign hboth.1)
  · rw [mapRaw_uncovered (by omega), hstop]
    constructor
    · rintro ⟨file', heq, -⟩
      rw [some_inj, Prod.mk.injEq] at heq
      by_contra hsize
      rw [if_neg (fun hboth => hsize hboth.2)] at heq
      cases heq.1
    · intro hsize
      refine ⟨file, ?_, rfl⟩
      rw [if_pos ⟨h, hsize⟩, hsize]
      rfl

/-- Whatever the file holds and however far it is mapped, the bytes of the file are returned, or
`NULL` for a range that is not in the file, exactly under the condition. -/
theorem mapRaw_iff (file : MappedFile) {offset size : Nat} (hoffset : offset < 2 ^ 63) :
    (∃ file', file.mapRaw offset size = some (cachefileMapRaw file.bytes offset size, file') ∧
        file'.bytes = file.bytes) ↔
      file.Readable offset size := by
  rw [cachefileMapRaw, Readable]
  by_cases hpast : file.bytes.length < offset + size
  · rw [if_pos hpast, if_pos hpast]
    exact mapRaw_past hoffset hpast
  · rw [if_neg hpast, if_neg hpast]
    exact mapRaw_inside (Nat.not_lt.mp hpast)

end MappedFile

/-- A file of one byte that is mapped, and to which a byte is added. -/
def grownFile : MappedFile :=
  (MappedFile.map ⟨[1], none, by simp, by decide⟩).write 1 [2] (by decide)

theorem mapRaw_iff_grown :
    ∃ file', grownFile.mapRaw 0 1 = some (some [1], file') ∧ file'.bytes = [1, 2] :=
  (grownFile.mapRaw_iff (by decide)).mpr (by decide +kernel)

/-- The byte that was added is not returned. -/
theorem grown_file_null :
    cachefileMapRaw grownFile.bytes 1 1 = some [2] ∧
      (grownFile.mapRaw 1 1).map Prod.fst = some none := by
  decide +kernel

end BlueSky
