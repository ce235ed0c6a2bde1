import Mathlib

/-!
# Arrays stored in chunks with holes

An array of a given size is kept as a list of chunks of a fixed length; the last
chunk is cut to the size of the array, and a missing chunk reads as a fill value.
This module relates such a list to the array it stands for: reading a window,
overwriting a part of one chunk, and changing the size.

Main results:

- Theorem {lit}`Chunked.resize` and theorem {lit}`flat_resizeChunks`: changing the
  size cuts the array or extends it by the fill value.
- Theorem {lit}`Chunked.splice` and theorem {lit}`cellAt_spliceChunk`: overwriting
  inside one chunk overwrites these cells and no others.
- Theorem {lit}`window_hole` and theorem {lit}`window_chunk`: what a window that
  stays inside one chunk contains.
-/

namespace ChunkLib

open List

variable {α : Type*} (z : α) (B : Nat)

/-- A chunk, or a hole. -/
abbrev Chunk (α : Type*) := Option (List α)

/-- The number of chunks for an array of the given size. -/
def chunkCount (size : Nat) : Nat :=
  (size + B - 1) / B

/-- The length of a chunk of an array of the given size. -/
def chunkLen (size i : Nat) : Nat :=
  min B (size - i * B)

/-- One cell of a chunk; holes, and cells past the end, read as the fill value. -/
def cell (c : Chunk α) (j : Nat) : α :=
  (c.getD []).getD j z

/-- One cell of the array. -/
def cellAt (cs : List (Chunk α)) (p : Nat) : α :=
  cell z (cs.getD (p / B) none) (p % B)

/-- A window of the array. -/
def window (cs : List (Chunk α)) (off len : Nat) : List α :=
  (List.range len).map fun j => cellAt z B cs (off + j)

/-- The whole array. -/
def flat (size : Nat) (cs : List (Chunk α)) : List α :=
  window z B cs 0 size

/-- The right number of chunks, each of the right length. -/
structure Chunked (size : Nat) (cs : List (Chunk α)) : Prop where
  count : cs.length = chunkCount B size
  len : ∀ (i : Nat) (c : List α), cs[i]? = some (some c) → c.length = chunkLen B size i

/-- A chunk cut or extended to a length. -/
def fill (n : Nat) (c : List α) : List α :=
  c.take n ++ List.replicate (n - c.length) z

/-- Overwrite a part of a list. -/
def splice (c : List α) (j : Nat) (d : List α) : List α :=
  c.take j ++ (d ++ c.drop (j + d.length))

/-- The chunks of an array after its size was changed. -/
def resizeChunks (size : Nat) (cs : List (Chunk α)) : List (Chunk α) :=
  (List.range (chunkCount B size)).map fun i =>
    (cs.getD i none).map (fill z (chunkLen B size i))

/-- A chunk with holes filled in. -/
def solid (len : Nat) (c : Chunk α) : List α :=
  c.getD (List.replicate len z)

/-- Overwrite a part of one chunk, filling it in if it is a hole. -/
def spliceChunk (size : Nat) (cs : List (Chunk α)) (k j : Nat) (d : List α) :
    List (Chunk α) :=
  cs.set k (some (splice (solid z (chunkLen B size k) (cs.getD k none)) j d))

/-! ## Positions -/

section Positions

variable {B}

/-- A chunk exists if it begins before the end. -/
theorem lt_chunkCount_iff (hB : 0 < B) {size i : Nat} :
    i < chunkCount B size ↔ i * B < size := by
  rw [chunkCount, Nat.lt_iff_add_one_le, Nat.le_div_iff_mul_le hB, Nat.add_mul]
  omega

theorem div_lt_chunkCount (hB : 0 < B) {size p : Nat} (h : p < size) :
    p / B < chunkCount B size := by
  rw [lt_chunkCount_iff hB]
  exact lt_of_le_of_lt (Nat.div_mul_le_self p B) h

/-- A position of the array lies inside its chunk. -/
theorem mod_lt_chunkLen_iff (hB : 0 < B) {size p : Nat} :
    p % B < chunkLen B size (p / B) ↔ p < size := by
  have hsplit := Nat.div_add_mod' p B
  have hmod := Nat.mod_lt p hB
  rw [chunkLen, lt_min_iff]
  omega

/-- All chunks but the last are whole. -/
theorem chunkLen_of_lt {size i : Nat} (hB : 0 < B) (h : i + 1 < chunkCount B size) :
    chunkLen B size i = B := by
  rw [lt_chunkCount_iff hB, Nat.add_mul] at h
  rw [chunkLen]
  omega

theorem chunkLen_le (size i : Nat) : chunkLen B size i ≤ B :=
  Nat.min_le_left _ _

theorem chunkCount_zero (hB : 0 < B) : chunkCount B 0 = 0 := by
  rw [chunkCount, Nat.div_eq_zero_iff]
  omega

end Positions

/-! ## Cells and windows -/

@[simp]
theorem length_window (cs : List (Chunk α)) (off len : Nat) :
    (window z B cs off len).length = len := by
  simp [window]

@[simp]
theorem length_flat (size : Nat) (cs : List (Chunk α)) : (flat z B size cs).length = size := by
  simp [flat]

theorem getElem_window (cs : List (Chunk α)) (off len j : Nat)
    (h : j < (window z B cs off len).length) :
    (window z B cs off len)[j] = cellAt z B cs (off + j) := by
  simp [window]

theorem getElem_flat (size : Nat) (cs : List (Chunk α)) (p : Nat)
    (h : p < (flat z B size cs).length) : (flat z B size cs)[p] = cellAt z B cs p := by
  simp [flat, getElem_window]

/-- Neighbouring windows make one. -/
theorem window_add (cs : List (Chunk α)) (off m n : Nat) :
    window z B cs off (m + n) = window z B cs off m ++ window z B cs (off + m) n := by
  simp only [window, range_add, map_append, map_map, Function.comp_def, Nat.add_assoc]

variable {len : Nat}

/-- A window is a part of the whole array. -/
theorem window_eq_flat (cs : List (Chunk α)) {size off : Nat} (h : off + len ≤ size) :
    window z B cs off len = ((flat z B size cs).drop off).take len := by
  apply ext_getElem
  · simp
    omega
  · intro j h1 h2
    simp [getElem_window, getElem_flat]

variable {B}

variable {cs : List (Chunk α)} {j : Nat}

/-- Positions of a window that stays inside one chunk. -/
theorem cellAt_add {off : Nat} (hB : 0 < B) (h : off % B + j < B) :
    cellAt z B cs (off + j) = cell z (cs.getD (off / B) none) (off % B + j) := by
  have hsplit : off + j = off % B + j + off / B * B := by
    have := Nat.div_add_mod' off B
    omega
  have hdiv : (off + j) / B = off / B := by
    rw [hsplit, Nat.add_mul_div_right _ _ hB, Nat.div_eq_of_lt h, Nat.zero_add]
  have hmod : (off + j) % B = off % B + j := by
    rw [hsplit, Nat.add_mul_mod_self_right, Nat.mod_eq_of_lt h]
  rw [cellAt, hdiv, hmod]

/-- A window inside a hole. -/
theorem window_hole {off : Nat} (hB : 0 < B) (hlen : off % B + len ≤ B)
    (hhole : cs.getD (off / B) none = none) :
    window z B cs off len = List.replicate len z := by
  apply ext_getElem
  · simp
  · intro j h1 h2
    rw [length_window] at h1
    rw [getElem_window, cellAt_add z hB (by omega), hhole]
    simp [cell]

variable {c : List α}

/-- A window inside a chunk. -/
theorem window_chunk {off : Nat} (hB : 0 < B) (hlen : off % B + len ≤ B)
    (hchunk : cs.getD (off / B) none = some c) (hc : off % B + len ≤ c.length) :
    window z B cs off len = (c.drop (off % B)).take len := by
  apply ext_getElem
  · simp
    omega
  · intro j h1 h2
    rw [length_window] at h1
    rw [getElem_window, cellAt_add z hB (by omega), hchunk]
    have hj : off % B + j < c.length := by omega
    simp [cell, getElem?_eq_getElem hj]

/-- Past the size of the array everything reads as the fill value. -/
theorem Chunked.cellAt_of_ge {size : Nat} (h : Chunked B size cs) (hB : 0 < B) {p : Nat}
    (hp : size ≤ p) : cellAt z B cs p = z := by
  rw [cellAt, cell]
  cases hc : cs.getD (p / B) none with
  | none => rfl
  | some c =>
    have hget : cs[p / B]? = some (some c) := by
      rw [getD_eq_getElem?_getD] at hc
      cases hopt : cs[p / B]? with
      | none => simp [hopt] at hc
      | some c' => simpa [hopt] using hc
    have hlen := h.len _ _ hget
    have hout : ¬ p % B < c.length := by
      rw [hlen, mod_lt_chunkLen_iff hB]
      omega
    simp [getElem?_eq_none (Nat.le_of_not_lt hout)]

/-! ## Changing the size -/

@[simp]
theorem length_fill (n : Nat) (c : List α) : (fill z n c).length = n := by
  simp [fill]
  omega

theorem getD_fill {n : Nat} (c : List α) (h : j < n) : (fill z n c).getD j z = c.getD j z := by
  simp only [fill, getD_eq_getElem?_getD]
  by_cases hj : j < c.length
  · rw [getElem?_append_left (by simp; omega), getElem?_take_of_lt h]
  · rw [getElem?_append_right (by simp; omega), getElem?_replicate_of_lt
      (by simp; omega), getElem?_eq_none (by omega)]
    rfl

theorem fill_length (c : List α) : fill z c.length c = c := by
  simp [fill]

theorem getD_resizeChunks {size : Nat} (cs : List (Chunk α)) {i : Nat}
    (h : i < chunkCount B size) :
    (resizeChunks z B size cs).getD i none = (cs.getD i none).map (fill z (chunkLen B size i)) := by
  simp [resizeChunks, getD_eq_getElem?_getD, h]

/-- Changing the size keeps the chunks in order. -/
theorem Chunked.resize (size : Nat) (cs : List (Chunk α)) :
    Chunked B size (resizeChunks z B size cs) where
  count := by simp [resizeChunks]
  len := by
    intro i c hget
    obtain ⟨hi, hc⟩ := List.getElem?_eq_some_iff.mp hget
    simp only [resizeChunks, getElem_map, getElem_range] at hc
    obtain ⟨c', -, rfl⟩ := Option.map_eq_some_iff.mp hc
    exact length_fill z _ _

/-- The chunks after a change of size, one by one. -/
theorem eq_resizeChunks {size : Nat} {cs' : List (Chunk α)} (hlen : cs'.length = chunkCount B size)
    (h : ∀ i < chunkCount B size,
      cs'.getD i none = (cs.getD i none).map (fill z (chunkLen B size i))) :
    cs' = resizeChunks z B size cs := by
  apply ext_getElem
  · rw [hlen, (Chunked.resize z size cs).count]
  · intro i h1 h2
    have hi : i < chunkCount B size := hlen ▸ h1
    have heq := (h i hi).trans (getD_resizeChunks z cs hi).symm
    rwa [getD_eq_getElem _ _ h1, getD_eq_getElem _ _ h2] at heq

/-- A chunk that already has its new length stays as it is. -/
theorem Chunked.map_fill {size n i : Nat} (h : Chunked B size cs)
    (hn : i < cs.length → n = chunkLen B size i) :
    (cs.getD i none).map (fill z n) = cs.getD i none := by
  by_cases hi : i < cs.length
  · rw [getD_eq_getElem _ _ hi]
    cases hc : cs[i] with
    | none => rfl
    | some c =>
      have hlen := h.len i c (by rw [getElem?_eq_getElem hi, hc])
      rw [Option.map_some, hn hi, ← hlen, fill_length]
  · rw [getD_eq_default _ _ (Nat.le_of_not_lt hi)]
    rfl

/-- Inside the new size, nothing changes but that the extension reads as the fill
value. -/
theorem cellAt_resizeChunks {size : Nat} (cs : List (Chunk α)) (hB : 0 < B) {p : Nat}
    (hp : p < size) : cellAt z B (resizeChunks z B size cs) p = cellAt z B cs p := by
  rw [cellAt, cellAt, getD_resizeChunks z cs (div_lt_chunkCount hB hp)]
  cases cs.getD (p / B) none with
  | none => rfl
  | some c => exact getD_fill z c ((mod_lt_chunkLen_iff hB).mpr hp)

/-- Changing the size cuts the array or extends it by the fill value. -/
theorem flat_resizeChunks {size size' : Nat} (h : Chunked B size cs) (hB : 0 < B) :
    flat z B size' (resizeChunks z B size' cs) = fill z size' (flat z B size cs) := by
  apply ext_getElem
  · simp
  · intro p h1 h2
    have hp : p < size' := by simpa using h1
    rw [getElem_flat, cellAt_resizeChunks z cs hB hp]
    have hget := getD_fill z (flat z B size cs) hp
    rw [getD_eq_getElem _ _ h2] at hget
    rw [hget]
    by_cases hin : p < size
    · rw [getD_eq_getElem _ _ (by simpa using hin), getElem_flat]
    · rw [getD_eq_default _ _ (by simpa using Nat.le_of_not_lt hin),
        h.cellAt_of_ge z hB (Nat.le_of_not_lt hin)]

/-! ## Overwriting inside a chunk -/

variable {d : List α}

theorem length_splice (h : j + d.length ≤ c.length) : (splice c j d).length = c.length := by
  simp [splice]
  omega

theorem splice_whole (h : c.length = d.length) : splice c 0 d = d := by
  simp [splice, ← h]

/-- A cell after a write is the written one, or the old one. -/
theorem getD_splice {c d : List α} {j i : Nat} (h : j + d.length ≤ c.length) :
    (splice c j d).getD i z =
      if j ≤ i ∧ i < j + d.length then d.getD (i - j) z else c.getD i z := by
  have htake : (c.take j).length = j := by
    simp
    omega
  simp only [splice, getD_eq_getElem?_getD]
  by_cases hlow : i < j
  · rw [getElem?_append_left (by omega), getElem?_take_of_lt hlow, if_neg (by omega)]
  · rw [getElem?_append_right (by omega), htake]
    by_cases hmid : i < j + d.length
    · rw [getElem?_append_left (by omega), if_pos (by omega)]
    · rw [getElem?_append_right (by omega), getElem?_drop, if_neg (by omega)]
      congr 2
      omega

/-- The chunk that a position falls into has the length that the size gives it. -/
theorem Chunked.length_solid {size : Nat} (h : Chunked B size cs) (k : Nat) (hk : k < cs.length) :
    (solid z (chunkLen B size k) (cs.getD k none)).length = chunkLen B size k := by
  rw [getD_eq_getElem _ _ hk]
  cases hc : cs[k] with
  | none => simp [solid]
  | some c => exact h.len k c (by rw [getElem?_eq_getElem hk, hc])

theorem cell_solid (len j : Nat) (c : Chunk α) :
    (solid z len c).getD j z = cell z c j := by
  cases c with
  | none =>
    by_cases hj : j < len
    · simp [solid, cell, hj]
    · simp [solid, cell]
  | some c => rfl

/-- Overwriting inside a chunk keeps the chunks in order. -/
theorem Chunked.splice {size k : Nat} (h : Chunked B size cs) (hk : k < cs.length)
    (hd : j + d.length ≤ chunkLen B size k) :
    Chunked B size (spliceChunk z B size cs k j d) where
  count := by simp [spliceChunk, h.count]
  len := by
    intro i c hget
    rw [spliceChunk, getElem?_set] at hget
    split_ifs at hget with hik
    · subst hik
      have hc : ChunkLib.splice (solid z (chunkLen B size k) (cs.getD k none)) j d = c := by
        simpa using hget
      rw [← hc, length_splice (by rw [h.length_solid z k hk]; exact hd), h.length_solid z k hk]
    · exact h.len i c hget

/-- Overwriting inside a chunk changes these cells and no others. -/
theorem cellAt_spliceChunk {size k : Nat} (h : Chunked B size cs) (hB : 0 < B) (hk : k < cs.length)
    (hd : j + d.length ≤ chunkLen B size k) (p : Nat) :
    cellAt z B (spliceChunk z B size cs k j d) p =
      if k * B + j ≤ p ∧ p < k * B + j + d.length then d.getD (p - (k * B + j)) z
      else cellAt z B cs p := by
  have hle : j + d.length ≤ B := hd.trans (chunkLen_le size k)
  have hsplit := Nat.div_add_mod' p B
  have hmod := Nat.mod_lt p hB
  by_cases hpk : p / B = k
  · have hget : (spliceChunk z B size cs k j d).getD (p / B) none =
        some (splice (solid z (chunkLen B size k) (cs.getD k none)) j d) := by
      simp [spliceChunk, hpk, getD_eq_getElem?_getD, hk]
    rw [cellAt, hget]
    change (splice _ j d).getD (p % B) z = _
    rw [getD_splice z (by rw [h.length_solid z k hk]; exact hd), cell_solid, cellAt, hpk]
    rw [hpk] at hsplit
    have hiff : (j ≤ p % B ∧ p % B < j + d.length) ↔
        (k * B + j ≤ p ∧ p < k * B + j + d.length) := by omega
    simp only [hiff]
    split_ifs with hin
    · congr 1
      omega
    · rfl
  · have hget : (spliceChunk z B size cs k j d).getD (p / B) none =
        cs.getD (p / B) none := by
      simp [spliceChunk, getD_eq_getElem?_getD, getElem?_set_ne (Ne.symm hpk)]
    have hout : ¬ (k * B + j ≤ p ∧ p < k * B + j + d.length) := by
      rintro ⟨hlo, hhi⟩
      apply hpk
      rw [Nat.div_eq_iff hB]
      constructor <;> omega
    rw [cellAt, hget, if_neg hout, cellAt]

end ChunkLib
