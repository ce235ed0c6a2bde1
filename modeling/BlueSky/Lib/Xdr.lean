import BlueSky.Lib.CString
import BlueSky.Lib.RecordMarking

/-!
# External data representation

A filter of XDR writes a value as a whole number of four-byte words, and reads a value from the
front of a buffer.  Filters of compound types are put together from filters of their parts; that
what is written is read back, and that what is accepted can be written again, is part of a filter
and does not have to be proved for each type.

Main results:

- Theorem {lit}`Xdr.decode_again`: a value that was accepted is read back when it is written.
- Theorem {lit}`Xdr.size_union`, {lit}`Xdr.size_map`, {lit}`Xdr.size_list`: how long the
  representation of a value is.
-/

namespace XdrLib

open List Option ByteLib CStringLib RecordMarkingLib

/-- A filter.  A value that has no representation is not written. -/
structure Xdr (α : Type) where
  encode : α → Option Bytes
  decode : Bytes → Option (α × Bytes)
  decode_encode : ∀ {a bytes}, encode a = some bytes →
    ∀ rest, decode (bytes ++ rest) = some (a, rest)
  encode_decode : ∀ {buf a rest}, decode buf = some (a, rest) →
    ∃ used bytes, buf = used ++ rest ∧ 4 ∣ used.length ∧ encode a = some bytes ∧
      bytes.length ≤ used.length

/-- Values that are represented by values of another type.  Several of these may be read as one
value, of which one that is not longer is written. -/
structure Coding (α : Type) {β : Type} (c : Xdr β) where
  write : α → Option β
  read : β → α
  read_write : ∀ a b, write a = some b → read b = a
  write_read : ∀ b bytes, c.encode b = some bytes →
    ∃ b' bytes', write (read b) = some b' ∧ c.encode b' = some bytes' ∧ bytes'.length ≤ bytes.length

variable {α β κ : Type} {c : Xdr α} {a : α} {bytes buf rest : Bytes}

/-- Values that are represented by values of another type, each of which stands for one. -/
def Coding.exact {c : Xdr β} (write : α → Option β) (read : β → α)
    (read_write : ∀ a b, write a = some b → read b = a)
    (write_read : ∀ b bytes, c.encode b = some bytes → write (read b) = some b) : Coding α c :=
  ⟨write, read, read_write, fun b bytes h => ⟨b, bytes, write_read b bytes h, h, le_rfl⟩⟩

namespace Xdr

/-- Every encoding is made of whole words. -/
theorem aligned (h : c.encode a = some bytes) : 4 ∣ bytes.length := by
  rcases c.encode_decode (c.decode_encode h []) with ⟨used, _, hused, hdvd, _, _⟩
  rwa [append_cancel_right hused]

/-- A value that was accepted has a representation that is read back, and that is not longer than
the bytes that it was read from. -/
theorem decode_again (h : c.decode buf = some (a, rest)) :
    ∃ bytes, c.encode a = some bytes ∧ bytes.length + rest.length ≤ buf.length ∧
      ∀ rest', c.decode (bytes ++ rest') = some (a, rest') := by
  rcases c.encode_decode h with ⟨used, bytes, rfl, _, hbytes, hle⟩
  refine ⟨bytes, hbytes, ?_, c.decode_encode hbytes⟩
  rw [length_append]
  omega

/-! ## Filters and their parts -/

/-- `xdr_void`. -/
def unit : Xdr Unit where
  encode _ := some []
  decode buf := some ((), buf)
  decode_encode := by
    intro a bytes h rest
    rw [← some.inj h, nil_append]
  encode_decode := by
    intro buf a rest h
    exact ⟨[], [], by simpa using h, dvd_zero 4, rfl, le_rfl⟩

/-- The bytes that fill up the last word of `n` bytes. -/
def padding (n : Nat) : Nat :=
  (4 - n % 4) % 4

theorem dvd_padding (n : Nat) : 4 ∣ n + padding n := by
  unfold padding
  omega

theorem padding_mono {m n : Nat} (h : m ≤ n) : m + padding m ≤ n + padding n := by
  unfold padding
  omega

/-- `xdr_opaque`: `n` bytes.  What is in the place of the padding is not looked at. -/
def fixed (n : Nat) : Xdr Bytes where
  encode b := if b.length = n then some (b ++ zeros (padding n)) else none
  decode buf :=
    if n + padding n ≤ buf.length then some (buf.take n, buf.drop (n + padding n)) else none
  decode_encode := by
    intro b bytes h rest
    rw [ite_none_right_eq_some] at h
    rcases h with ⟨rfl, h⟩
    rw [← some.inj h, length_append, length_append, length_zeros,
      if_pos (Nat.le_add_right _ _), append_assoc, take_left, ← append_assoc,
      drop_left' (by rw [length_append, length_zeros])]
  encode_decode := by
    intro buf b rest h
    rw [ite_none_right_eq_some] at h
    rcases h with ⟨hle, h⟩
    cases h
    have hlength : (buf.take n).length = n := length_take_of_le (Nat.le_of_add_right_le hle)
    refine ⟨buf.take (n + padding n), _, (take_append_drop _ _).symm, ?_, if_pos hlength, ?_⟩
    · rw [length_take_of_le hle]
      exact dvd_padding n
    · rw [length_append, length_zeros, hlength, length_take_of_le hle]

/-- A string of fixed length is padded. -/
theorem fixed_encode {n : Nat} {b : Bytes} :
    (fixed n).encode b = some bytes ↔ b.length = n ∧ b ++ zeros (padding n) = bytes := by
  simp [fixed]

/-- The filter of values that are represented by others. -/
def map (c : Xdr β) (k : Coding α c) : Xdr α where
  encode a := (k.write a).bind c.encode
  decode buf := (c.decode buf).map fun r => (k.read r.1, r.2)
  decode_encode := by
    intro a bytes h rest
    rcases bind_eq_some_iff.mp h with ⟨b, hb, hbytes⟩
    rw [c.decode_encode hbytes, map_some, k.read_write a b hb]
  encode_decode := by
    intro buf a rest h
    rcases map_eq_some_iff.mp h with ⟨⟨b, rest'⟩, hb, heq⟩
    cases heq
    rcases c.encode_decode hb with ⟨used, bytes, hused, hdvd, hbytes, hle⟩
    rcases k.write_read b bytes hbytes with ⟨b', bytes', hwrite, hbytes', hle'⟩
    exact ⟨used, bytes', hused, hdvd, by rw [hwrite, bind_some, hbytes'], hle'.trans hle⟩

theorem map_encode {c : Xdr β} {k : Coding α c} :
    (c.map k).encode a = (k.write a).bind c.encode := rfl

/-- Bytes that are always written as zeros. -/
def ignored (n : Nat) : Xdr Unit :=
  (fixed n).map
    { write _ := some (zeros n)
      read _ := ()
      read_write := fun _ _ _ => rfl
      write_read := by
        intro b bytes h
        rcases fixed_encode.mp h with ⟨rfl, rfl⟩
        refine ⟨_, _, rfl, fixed_encode.mpr ⟨length_replicate, rfl⟩, ?_⟩
        simp [zeros] }

/-- A structure, by the filter of its fields. -/
def struct (c : Xdr β) (fields : α → β) (make : β → α) (make_fields : ∀ a, make (fields a) = a)
    (fields_make : ∀ b, fields (make b) = b) : Xdr α :=
  c.map (.exact (fun a => some (fields a)) make
    (fun a b h => by rw [← some.inj h, make_fields]) fun b _ _ => by rw [fields_make])

/-- The first of two cases. -/
def inl (c : Xdr α) : Xdr (α ⊕ β) :=
  c.map (.exact Sum.getLeft? Sum.inl (fun _ _ h => (Sum.getLeft?_eq_some_iff.mp h).symm)
    fun _ _ _ => rfl)

/-- The second of two cases. -/
def inr (c : Xdr β) : Xdr (α ⊕ β) :=
  c.map (.exact Sum.getRight? Sum.inr (fun _ _ h => (Sum.getRight?_eq_some_iff.mp h).symm)
    fun _ _ _ => rfl)

/-- A discriminated union: the discriminant decides about the filter of what follows, if it has
one. -/
def union (tag : Xdr κ) (arm : κ → Option (Xdr α)) : Xdr (κ × α) where
  encode u := (tag.encode u.1).bind fun x => (arm u.1).bind fun d => (d.encode u.2).map (x ++ ·)
  decode buf := (tag.decode buf).bind fun k => (arm k.1).bind fun d =>
    (d.decode k.2).map fun r => ((k.1, r.1), r.2)
  decode_encode := by
    rintro ⟨k, a⟩ bytes h rest
    rcases bind_eq_some_iff.mp h with ⟨x, hx, h⟩
    rcases bind_eq_some_iff.mp h with ⟨d, hd, h⟩
    rcases map_eq_some_iff.mp h with ⟨y, hy, rfl⟩
    simp only [append_assoc, tag.decode_encode hx, bind_some, hd, d.decode_encode hy, map_some]
  encode_decode := by
    rintro buf ⟨k, a⟩ rest h
    rcases bind_eq_some_iff.mp h with ⟨⟨k', mid⟩, hk, h⟩
    rcases bind_eq_some_iff.mp h with ⟨d, hd, h⟩
    rcases map_eq_some_iff.mp h with ⟨⟨a', rest'⟩, ha, heq⟩
    cases heq
    rcases tag.encode_decode hk with ⟨used, x, rfl, hdvd, hx, hle⟩
    rcases d.encode_decode ha with ⟨used', y, rfl, hdvd', hy, hle'⟩
    refine ⟨used ++ used', x ++ y, (append_assoc _ _ _).symm, ?_, by simp [hx, hd, hy], ?_⟩
    · rw [length_append]
      exact dvd_add hdvd hdvd'
    · rw [length_append, length_append]
      exact add_le_add hle hle'

/-- The tag chooses the arm. -/
theorem union_encode {tag : Xdr κ} {arm : κ → Option (Xdr α)} {k : κ} :
    (union tag arm).encode (k, a) = some bytes ↔
      ∃ x d y, tag.encode k = some x ∧ arm k = some d ∧ d.encode a = some y ∧ x ++ y = bytes := by
  simp only [union, bind_eq_some_iff, map_eq_some_iff, exists_and_left]

/-- One value behind the other. -/
def pair (c : Xdr α) (d : Xdr β) : Xdr (α × β) :=
  c.union fun _ => some d

/-! ## Numbers -/

/-- Numbers in network order, in `k` bytes, that are codes of a type. -/
def codes (k : Nat) {w : Nat} (hw : 2 ^ w ≤ 256 ^ k) (code : α → BitVec w) (read : BitVec w → α)
    (read_code : ∀ a, read (code a) = a) : Xdr α :=
  (fixed k).map
    { write a := some (beBytes k (code a).toNat)
      read b := read (BitVec.ofNat w (beNat b))
      read_write := by
        intro a b h
        rw [← some.inj h, beNat_beBytes_of_lt ((code a).isLt.trans_le hw),
          BitVec.ofNat_toNat, BitVec.setWidth_eq, read_code]
      write_read := by
        intro b bytes h
        rcases fixed_encode.mp h with ⟨hlength, rfl⟩
        refine ⟨_, _, rfl, fixed_encode.mpr ⟨length_beBytes k _, rfl⟩, ?_⟩
        rw [length_append, length_append, hlength, length_beBytes] }

/-- `xdr_enum`, for an enumeration with its codes. -/
def enum (code : α → BitVec 32) (read : BitVec 32 → α) (read_code : ∀ a, read (code a) = a) :
    Xdr α :=
  codes 4 (by norm_num) code read read_code

/-- `xdr_u_int`. -/
def word : Xdr (BitVec 32) :=
  enum id id fun _ => rfl

/-- `xdr_u_quad_t`. -/
def quad : Xdr (BitVec 64) :=
  codes 8 (by norm_num) id id fun _ => rfl

/-- `xdr_bool`: every word other than zero is true. -/
def bool : Xdr Bool :=
  enum (fun b => if b then 1 else 0) (fun w => w != 0) (by decide)

/-! ## Strings, options and lists -/

/-- `xdr_bytes`: the length and then the bytes, of which there may be at most `limit`. -/
def counted (limit : Nat) : Xdr Bytes :=
  (word.union fun n => if n.toNat ≤ limit then some (fixed n.toNat) else none).map
    (.exact (fun b => some (BitVec.ofNat 32 b.length, b)) Prod.snd
      (fun b u h => by rw [← some.inj h])
      (by
        rintro ⟨n, b⟩ bytes h
        rcases union_encode.mp h with ⟨x, d, y, _, hd, hy, _⟩
        rw [← some.inj (ite_none_right_eq_some.mp hd).2] at hy
        rw [(fixed_encode.mp hy).1, BitVec.ofNat_toNat, BitVec.setWidth_eq]))

/-- The length comes before the bytes. -/
theorem counted_encode {limit : Nat} {b : Bytes} :
    (counted limit).encode b = some bytes ↔ b.length ≤ limit ∧ b.length < 2 ^ 32 ∧
      beBytes 4 b.length ++ (b ++ zeros (padding b.length)) = bytes := by
  have hn : (BitVec.ofNat 32 b.length).toNat = b.length % 2 ^ 32 := BitVec.toNat_ofNat _ _
  have hword : word.encode (BitVec.ofNat 32 b.length) = some (beBytes 4 (b.length % 2 ^ 32)) := by
    simp [word, enum, codes, map, fixed, padding, zeros]
  rw [counted, map_encode, Coding.exact, bind_some, union_encode]
  constructor
  · rintro ⟨x, d, y, hx, hd, hy, rfl⟩
    rw [ite_none_right_eq_some, hn, some_inj] at hd
    rcases hd with ⟨hle, rfl⟩
    rcases fixed_encode.mp hy with ⟨hlength, rfl⟩
    rw [hword, ← hlength] at hx
    rw [← hlength] at hle ⊢
    exact ⟨hle, by omega, by rw [some.inj hx]⟩
  · rintro ⟨hle, hlt, rfl⟩
    rw [Nat.mod_eq_of_lt hlt] at hword hn
    exact ⟨_, _, _, hword, if_pos (hn.trans_le hle), fixed_encode.mpr ⟨hn.symm, by rw [hn]⟩, rfl⟩

/-- The string in a buffer to which a NUL is added. -/
def cut (b : Bytes) : CString :=
  (readString (b ++ [0])).getD .empty

theorem cut_bytes (s : CString) : cut s.bytes = s := by
  have hread := readString_append s []
  rw [append_nil] at hread
  exact congrArg (Option.getD · .empty) hread

/-- A string that is cut at its first zero byte has no longer encoding. -/
theorem counted_cut {limit : Nat} {b : Bytes} (h : (counted limit).encode b = some bytes) :
    ∃ bytes', (counted limit).encode (cut b).bytes = some bytes' ∧
      bytes'.length ≤ bytes.length := by
  rcases counted_encode.mp h with ⟨hle, hlt, rfl⟩
  have hcut : (cut b).bytes.length ≤ b.length := by
    rw [cut, readString, if_pos (by simp), getD_some]
    simp only [takeWhile_append]
    split_ifs
    · simp
    · exact (takeWhile_sublist _).length_le
  refine ⟨_, counted_encode.mpr ⟨hcut.trans hle, hcut.trans_lt hlt, rfl⟩, ?_⟩
  simp only [length_append, length_beBytes, length_zeros]
  exact Nat.add_le_add_left (padding_mono hcut) 4

/-- `xdr_string`. -/
def string : Xdr CString :=
  (counted (2 ^ 32 - 1)).map
    { write s := some s.bytes
      read := cut
      read_write := fun s b h => by rw [← some.inj h, cut_bytes]
      write_read := fun b bytes h => ⟨(cut b).bytes, (counted_cut h).imp fun _ h => ⟨rfl, h⟩⟩ }

/-- One of the two cases of a value that may be missing. -/
def optionArm (c : Xdr α) : Bool → Xdr (Option α)
  | true => c.map (.exact id some (fun _ _ h => h.symm) fun _ _ _ => rfl)
  | false => unit.map (.exact (fun o => o.elim (some ()) fun _ => none) (fun _ => none)
      (by rintro (_ | a) _ h <;> first | rfl | cases h) fun _ _ _ => rfl)

/-- `xdr_pointer`, and a union of which the discriminant says whether there is a value. -/
def optional (c : Xdr α) : Xdr (Option α) :=
  (bool.union fun present => some (optionArm c present)).map
    (.exact (fun o => some (o.isSome, o)) Prod.snd
      (fun o u h => by rw [← some.inj h])
      (by
        rintro ⟨present, o⟩ bytes h
        rcases union_encode.mp h with ⟨x, d, y, _, hd, hy, _⟩
        cases hd
        cases present <;> cases o <;> first | rfl | cases hy))

/-- A list of fewer than `n` elements, of which every one points to the next one. -/
def list (c : Xdr α) : Nat → Xdr (List α)
  | 0 => (unit.union fun _ => none).struct (Prod.mk ()) Prod.snd (fun _ => rfl) fun _ => rfl
  | n + 1 => (optional (c.pair (list c n))).map
      (.exact (fun l => some (l.head?.map fun a => (a, l.tail)))
        (fun o => o.elim [] fun u => u.1 :: u.2)
        (by rintro (_ | ⟨a, as⟩) o h <;> cases h <;> rfl)
        (by rintro (_ | ⟨a, as⟩) bytes _ <;> rfl))

/-! ## Sizes -/

/-- How many bytes a value takes. -/
def size (c : Xdr α) (a : α) : Option Nat :=
  (c.encode a).map List.length

@[simp]
theorem size_map {c : Xdr β} {k : Coding α c} : (c.map k).size a = (k.write a).bind c.size := by
  rw [size, map_encode, Option.map_bind]
  rfl

@[simp]
theorem size_union {tag : Xdr κ} {arm : κ → Option (Xdr α)} {k : κ} :
    (union tag arm).size (k, a) =
      (tag.size k).bind fun m => (arm k).bind fun d => (d.size a).map (m + ·) := by
  simp [size, union, Option.map_bind, bind_map, Function.comp_def]

@[simp]
theorem size_unit : unit.size () = some 0 := rfl

@[simp]
theorem size_pair {d : Xdr β} {b : β} :
    (c.pair d).size (a, b) = (c.size a).bind fun m => (d.size b).map (m + ·) := by
  simp [pair]

theorem size_fixed {n : Nat} {b : Bytes} (h : b.length = n) :
    (fixed n).size b = some (n + padding n) := by
  simp [size, fixed, h, zeros]

theorem size_codes {k w : Nat} {hw : 2 ^ w ≤ 256 ^ k} {code : α → BitVec w} {read : BitVec w → α}
    {hread : ∀ a, read (code a) = a} :
    (codes k hw code read hread).size a = some (k + padding k) := by
  simp [codes, size_fixed]

@[simp]
theorem size_enum {code : α → BitVec 32} {read : BitVec 32 → α} {hread : ∀ a, read (code a) = a} :
    (enum code read hread).size a = some 4 := by
  rw [enum, size_codes]
  rfl

@[simp]
theorem size_word {w : BitVec 32} : word.size w = some 4 := by
  rw [word, size_enum]

@[simp]
theorem size_quad {q : BitVec 64} : quad.size q = some 8 := by
  rw [quad, size_codes]
  rfl

@[simp]
theorem size_bool {b : Bool} : bool.size b = some 4 := by
  rw [bool, size_enum]

theorem size_counted {limit : Nat} {b : Bytes} (hle : b.length ≤ limit) (hlt : b.length < 2 ^ 32) :
    (counted limit).size b = some (4 + (b.length + padding b.length)) := by
  rw [size, counted_encode.mpr ⟨hle, hlt, rfl⟩]
  simp [zeros]

theorem size_string {s : CString} (h : s.bytes.length < 2 ^ 32) :
    string.size s = some (4 + (s.bytes.length + padding s.bytes.length)) := by
  rw [string, size_map, bind_some, size_counted (by omega) h]

@[simp]
theorem size_optional {o : Option α} :
    (optional c).size o = (o.elim (some 0) c.size).map (4 + ·) := by
  cases o with
  | none => simp [optional, optionArm, Coding.exact]
  | some a => simp [optional, optionArm, Coding.exact]

/-- Every element takes a pointer and its own size, and the end takes a pointer. -/
theorem size_list {as : List α} {n : Nat} (hn : as.length < n) {sizes : α → Nat}
    (hsizes : ∀ a ∈ as, c.size a = some (sizes a)) :
    (list c n).size as = some (4 + (as.map fun a => 4 + sizes a).sum) := by
  induction as generalizing n with
  | nil =>
    cases n with
    | zero => omega
    | succ n => simp [list, Coding.exact]
  | cons a as ih =>
    cases n with
    | zero => omega
    | succ n =>
      rw [length_cons] at hn
      have htail := ih (show as.length < n by omega) fun b hb => hsizes b (by simp [hb])
      simp [list, Coding.exact, hsizes, htail]
      omega

end Xdr

end XdrLib
