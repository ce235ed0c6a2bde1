import BlueSky.Lib.Bytes

/-!
# Strings in buffers

A C string is a sequence of bytes other than NUL.  In a buffer it ends at the first NUL.

Main results:

- Theorem {lit}`readString_append`: a string is read back from the bytes it was written as,
  whatever follows its terminator.
-/

namespace CStringLib

open List ByteLib

/-- The characters of a string, without the terminator. -/
structure CString where
  bytes : Bytes
  nul_free : (0 : Byte) ∉ bytes
deriving DecidableEq, Repr

/-- The empty string. -/
def CString.empty : CString := ⟨[], by simp⟩

/-- A string in memory. -/
def CString.terminated (s : CString) : Bytes :=
  s.bytes ++ [0]

/-- The string at the start of a buffer; nothing if a search for its end would leave the
buffer. -/
def readString (buf : Bytes) : Option CString :=
  if (0 : Byte) ∈ buf then
    some ⟨buf.takeWhile (· ≠ 0), fun h => by simpa using mem_takeWhile_imp h⟩
  else none

theorem takeWhile_terminated (s : CString) (rest : Bytes) :
    (s.terminated ++ rest).takeWhile (· ≠ 0) = s.bytes := by
  rw [CString.terminated, append_assoc, takeWhile_append_of_pos, singleton_append,
    takeWhile_cons_of_neg (by simp), append_nil]
  intro b hb
  have hne : b ≠ 0 := by
    rintro rfl
    exact s.nul_free hb
  simpa using hne

theorem readString_append (s : CString) (rest : Bytes) :
    readString (s.terminated ++ rest) = some s := by
  have hmem : (0 : Byte) ∈ s.terminated ++ rest := by simp [CString.terminated]
  rw [readString, if_pos hmem, Option.some_inj]
  cases s with
  | mk bytes nul_free => simp only [takeWhile_terminated]

end CStringLib
