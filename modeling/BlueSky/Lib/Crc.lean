import BlueSky.Lib.Bytes

/-!
# Reflected table-driven CRCs

A 32-bit reflected CRC register consumes one octet at a time through a table of
256 words.  Nothing below depends on the generator polynomial: the residue law
and the detection of a change in the trailing four octets follow from the shape
of the step and, for the second, from the high octets of the table being
pairwise different.

Main results:

- Theorem {lit}`run_leBytes`: feeding the four octets of a word is the same as
  adding the word to the register and feeding four zero octets.
- Theorem {lit}`run_complement`: a register followed by its own complement ends
  in a constant, whatever the register was.
- Theorem {lit}`run_eq_residue_iff`: no other trailing word ends in that
  constant.
-/

namespace CrcLib

open ByteLib

/-- A CRC register. -/
abbrev Register := BitVec 32

/-- One octet of a reflected, table-driven CRC. -/
def step (table : Register → Register) (crc : Register) (b : Byte) : Register :=
  table ((crc ^^^ b.setWidth 32) &&& 0xFF#32) ^^^ (crc >>> 8)

/-- The register after a byte string. -/
def run (table : Register → Register) (crc : Register) (bs : Bytes) : Register :=
  bs.foldl (step table) crc

variable (table : Register → Register)

theorem run_append (crc : Register) (a b : Bytes) :
    run table crc (a ++ b) = run table (run table crc a) b := by
  simp [run]

/-! ## Absorbing a trailing word -/

/-- Only the low octet of a word reaches the table index. -/
theorem index_setWidth (crc w : Register) :
    (crc ^^^ (w.setWidth 8).setWidth 32) &&& 0xFF#32 = (crc ^^^ w) &&& 0xFF#32 := by
  apply BitVec.eq_of_getLsbD_eq
  intro i hi
  have hmask : (0xFF#32).getLsbD i = decide (i < 8) := by
    interval_cases i <;> decide
  simp only [BitVec.getLsbD_and, BitVec.getLsbD_xor, BitVec.getLsbD_setWidth, hmask]
  by_cases h8 : i < 8 <;> simp [h8, hi]

/-- The octet consumed can be moved into the register, up to the octets of the
word that are still to come. -/
theorem step_low_octet (crc w : Register) :
    step table crc (w.setWidth 8) = step table (crc ^^^ w) 0 ^^^ (w >>> 8) := by
  have hzero : ((0 : Byte).setWidth 32 : Register) = 0#32 := rfl
  unfold step
  rw [index_setWidth, hzero, BitVec.xor_zero, BitVec.ushiftRight_xor_distrib,
    BitVec.xor_assoc, BitVec.xor_assoc, BitVec.xor_self, BitVec.xor_zero]

theorem ofNat_shift (w : Register) (n : Nat) :
    BitVec.ofNat 8 (w.toNat / 2 ^ n) = (w >>> n).setWidth 8 := by
  apply BitVec.eq_of_toNat_eq
  simp [BitVec.toNat_setWidth, Nat.shiftRight_eq_div_pow]

theorem leBytes_word (w : Register) :
    leBytes 4 w.toNat =
      [w.setWidth 8, (w >>> 8).setWidth 8, (w >>> 16).setWidth 8, (w >>> 24).setWidth 8] := by
  have h0 : BitVec.ofNat 8 w.toNat = w.setWidth 8 := by
    simp
  have h1 := ofNat_shift w 8
  have h2 := ofNat_shift w 16
  have h3 := ofNat_shift w 24
  simp only [leBytes, Nat.div_div_eq_div_mul, h0]
  norm_num at h1 h2 h3 ⊢
  exact ⟨h1, h2, h3⟩

/-- Feeding the octets of a word adds the word to the register. -/
theorem run_leBytes (crc w : Register) :
    run table crc (leBytes 4 w.toNat) = run table (crc ^^^ w) (zeros 4) := by
  have hgone : w >>> 32 = 0#32 := by
    apply BitVec.eq_of_toNat_eq
    have hw := w.isLt
    simp only [BitVec.toNat_ushiftRight, Nat.shiftRight_eq_div_pow, BitVec.toNat_ofNat]
    omega
  have hcancel : ∀ x y : Register, x ^^^ y ^^^ y = x := by
    intro x y
    rw [BitVec.xor_assoc, BitVec.xor_self, BitVec.xor_zero]
  rw [leBytes_word]
  simp only [run, zeros, List.replicate, List.foldl_cons, List.foldl_nil]
  rw [step_low_octet table crc w, step_low_octet table _ (w >>> 8), hcancel,
    ← BitVec.shiftRight_add, step_low_octet table _ (w >>> 16), hcancel,
    ← BitVec.shiftRight_add, step_low_octet table _ (w >>> 24), hcancel,
    ← BitVec.shiftRight_add, hgone, BitVec.xor_zero]

/-- The constant that a register followed by its complement ends in. -/
def residue : Register :=
  run table (BitVec.allOnes 32) (zeros 4)

/-- Residue law: appending the complemented register gives a constant. -/
theorem run_complement (crc : Register) :
    run table crc (leBytes 4 (~~~crc).toNat) = residue table := by
  have hones : crc ^^^ ~~~crc = BitVec.allOnes 32 := by
    rw [← BitVec.xor_allOnes, ← BitVec.xor_assoc, BitVec.xor_self, BitVec.zero_xor]
  rw [run_leBytes, hones, residue]

/-! ## Changes confined to the trailing word -/

/-- Tables whose words differ in their high octets. -/
def HighOctetsDistinct : Prop :=
  ∀ i j : Register, table (i &&& 0xFF#32) >>> 24 = table (j &&& 0xFF#32) >>> 24 →
    i &&& 0xFF#32 = j &&& 0xFF#32

variable {table}

/-- With distinct high octets, one zero octet loses nothing of the register. -/
theorem step_zero_injective (h : HighOctetsDistinct table) {x y : Register}
    (hxy : step table x 0 = step table y 0) : x = y := by
  have hzero : ((0 : Byte).setWidth 32 : Register) = 0#32 := rfl
  simp only [step, hzero, BitVec.xor_zero] at hxy
  have hshift : ∀ z : Register, z >>> 8 >>> 24 = 0#32 := by
    intro z
    apply BitVec.eq_of_toNat_eq
    have hz := z.isLt
    simp only [BitVec.toNat_ushiftRight, Nat.shiftRight_eq_div_pow, BitVec.toNat_ofNat]
    omega
  have hlow : x &&& 0xFF#32 = y &&& 0xFF#32 := by
    apply h
    have htop := congrArg (fun z : Register => z >>> 24) hxy
    simpa [BitVec.ushiftRight_xor_distrib, hshift] using htop
  rw [hlow] at hxy
  have hhigh : x >>> 8 = y >>> 8 := by
    have hadd := congrArg (fun z : Register => table (y &&& 0xFF#32) ^^^ z) hxy
    simpa [← BitVec.xor_assoc] using hadd
  -- the low octet and the rest of the register agree, hence the register does
  apply BitVec.eq_of_getLsbD_eq
  intro i hi
  by_cases h8 : i < 8
  · have hbit := congrArg (fun z : Register => z.getLsbD i) hlow
    have hmask : (0xFF#32).getLsbD i = true := by
      interval_cases i <;> decide
    simpa [BitVec.getLsbD_and, hmask] using hbit
  · have hbit := congrArg (fun z : Register => z.getLsbD (i - 8)) hhigh
    simpa [BitVec.getLsbD_ushiftRight, show 8 + (i - 8) = i by omega] using hbit

theorem run_zeros_injective (h : HighOctetsDistinct table) (n : Nat)
    {x y : Register} (hxy : run table x (zeros n) = run table y (zeros n)) :
    x = y := by
  induction n generalizing x y with
  | zero => exact hxy
  | succ n ih =>
    apply step_zero_injective h
    apply ih
    simpa [run, zeros, List.replicate] using hxy

/-- The residue is reached by the complement of the register and by no other
trailing word. -/
theorem run_eq_residue_iff (h : HighOctetsDistinct table) (crc w : Register) :
    run table crc (leBytes 4 w.toNat) = residue table ↔ w = ~~~crc := by
  constructor
  · intro hrun
    rw [run_leBytes] at hrun
    have hones : crc ^^^ w = BitVec.allOnes 32 := run_zeros_injective h 4 hrun
    calc
      w = crc ^^^ (crc ^^^ w) := by
        rw [← BitVec.xor_assoc, BitVec.xor_self, BitVec.zero_xor]
      _ = ~~~crc := by rw [hones, BitVec.xor_allOnes]
  · rintro rfl
    exact run_complement table crc

end CrcLib
