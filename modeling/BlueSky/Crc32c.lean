import BlueSky.Lib.Crc

/-!
# CRC-32C

The Castagnoli checksum of `crc32c.c`, computed from its table, and the two
facts that journal validation rests on: a record followed by its finalized
checksum always leaves the validator constant, and no other trailing four bytes
do.

Main results:

- Theorem {lit}`crc32c_validator`: the residue of the table is
  {lit}`BLUESKY_CRC32C_VALIDATOR`.
- Theorem {lit}`crc32c_trailer_iff`: the validator is reached exactly by the
  finalized checksum of the bytes before it.
-/

namespace BlueSky

open List ByteLib

/-- The lookup table of `crc32c.c` (generator 0x1edc6f41, reflected). -/
def crc32cTable : List (BitVec 32) :=
  [
    0x00000000#32, 0xF26B8303#32, 0xE13B70F7#32, 0x1350F3F4#32, 0xC79A971F#32, 0x35F1141C#32,
    0x26A1E7E8#32, 0xD4CA64EB#32, 0x8AD958CF#32, 0x78B2DBCC#32, 0x6BE22838#32, 0x9989AB3B#32,
    0x4D43CFD0#32, 0xBF284CD3#32, 0xAC78BF27#32, 0x5E133C24#32, 0x105EC76F#32, 0xE235446C#32,
    0xF165B798#32, 0x030E349B#32, 0xD7C45070#32, 0x25AFD373#32, 0x36FF2087#32, 0xC494A384#32,
    0x9A879FA0#32, 0x68EC1CA3#32, 0x7BBCEF57#32, 0x89D76C54#32, 0x5D1D08BF#32, 0xAF768BBC#32,
    0xBC267848#32, 0x4E4DFB4B#32, 0x20BD8EDE#32, 0xD2D60DDD#32, 0xC186FE29#32, 0x33ED7D2A#32,
    0xE72719C1#32, 0x154C9AC2#32, 0x061C6936#32, 0xF477EA35#32, 0xAA64D611#32, 0x580F5512#32,
    0x4B5FA6E6#32, 0xB93425E5#32, 0x6DFE410E#32, 0x9F95C20D#32, 0x8CC531F9#32, 0x7EAEB2FA#32,
    0x30E349B1#32, 0xC288CAB2#32, 0xD1D83946#32, 0x23B3BA45#32, 0xF779DEAE#32, 0x05125DAD#32,
    0x1642AE59#32, 0xE4292D5A#32, 0xBA3A117E#32, 0x4851927D#32, 0x5B016189#32, 0xA96AE28A#32,
    0x7DA08661#32, 0x8FCB0562#32, 0x9C9BF696#32, 0x6EF07595#32, 0x417B1DBC#32, 0xB3109EBF#32,
    0xA0406D4B#32, 0x522BEE48#32, 0x86E18AA3#32, 0x748A09A0#32, 0x67DAFA54#32, 0x95B17957#32,
    0xCBA24573#32, 0x39C9C670#32, 0x2A993584#32, 0xD8F2B687#32, 0x0C38D26C#32, 0xFE53516F#32,
    0xED03A29B#32, 0x1F682198#32, 0x5125DAD3#32, 0xA34E59D0#32, 0xB01EAA24#32, 0x42752927#32,
    0x96BF4DCC#32, 0x64D4CECF#32, 0x77843D3B#32, 0x85EFBE38#32, 0xDBFC821C#32, 0x2997011F#32,
    0x3AC7F2EB#32, 0xC8AC71E8#32, 0x1C661503#32, 0xEE0D9600#32, 0xFD5D65F4#32, 0x0F36E6F7#32,
    0x61C69362#32, 0x93AD1061#32, 0x80FDE395#32, 0x72966096#32, 0xA65C047D#32, 0x5437877E#32,
    0x4767748A#32, 0xB50CF789#32, 0xEB1FCBAD#32, 0x197448AE#32, 0x0A24BB5A#32, 0xF84F3859#32,
    0x2C855CB2#32, 0xDEEEDFB1#32, 0xCDBE2C45#32, 0x3FD5AF46#32, 0x7198540D#32, 0x83F3D70E#32,
    0x90A324FA#32, 0x62C8A7F9#32, 0xB602C312#32, 0x44694011#32, 0x5739B3E5#32, 0xA55230E6#32,
    0xFB410CC2#32, 0x092A8FC1#32, 0x1A7A7C35#32, 0xE811FF36#32, 0x3CDB9BDD#32, 0xCEB018DE#32,
    0xDDE0EB2A#32, 0x2F8B6829#32, 0x82F63B78#32, 0x709DB87B#32, 0x63CD4B8F#32, 0x91A6C88C#32,
    0x456CAC67#32, 0xB7072F64#32, 0xA457DC90#32, 0x563C5F93#32, 0x082F63B7#32, 0xFA44E0B4#32,
    0xE9141340#32, 0x1B7F9043#32, 0xCFB5F4A8#32, 0x3DDE77AB#32, 0x2E8E845F#32, 0xDCE5075C#32,
    0x92A8FC17#32, 0x60C37F14#32, 0x73938CE0#32, 0x81F80FE3#32, 0x55326B08#32, 0xA759E80B#32,
    0xB4091BFF#32, 0x466298FC#32, 0x1871A4D8#32, 0xEA1A27DB#32, 0xF94AD42F#32, 0x0B21572C#32,
    0xDFEB33C7#32, 0x2D80B0C4#32, 0x3ED04330#32, 0xCCBBC033#32, 0xA24BB5A6#32, 0x502036A5#32,
    0x4370C551#32, 0xB11B4652#32, 0x65D122B9#32, 0x97BAA1BA#32, 0x84EA524E#32, 0x7681D14D#32,
    0x2892ED69#32, 0xDAF96E6A#32, 0xC9A99D9E#32, 0x3BC21E9D#32, 0xEF087A76#32, 0x1D63F975#32,
    0x0E330A81#32, 0xFC588982#32, 0xB21572C9#32, 0x407EF1CA#32, 0x532E023E#32, 0xA145813D#32,
    0x758FE5D6#32, 0x87E466D5#32, 0x94B49521#32, 0x66DF1622#32, 0x38CC2A06#32, 0xCAA7A905#32,
    0xD9F75AF1#32, 0x2B9CD9F2#32, 0xFF56BD19#32, 0x0D3D3E1A#32, 0x1E6DCDEE#32, 0xEC064EED#32,
    0xC38D26C4#32, 0x31E6A5C7#32, 0x22B65633#32, 0xD0DDD530#32, 0x0417B1DB#32, 0xF67C32D8#32,
    0xE52CC12C#32, 0x1747422F#32, 0x49547E0B#32, 0xBB3FFD08#32, 0xA86F0EFC#32, 0x5A048DFF#32,
    0x8ECEE914#32, 0x7CA56A17#32, 0x6FF599E3#32, 0x9D9E1AE0#32, 0xD3D3E1AB#32, 0x21B862A8#32,
    0x32E8915C#32, 0xC083125F#32, 0x144976B4#32, 0xE622F5B7#32, 0xF5720643#32, 0x07198540#32,
    0x590AB964#32, 0xAB613A67#32, 0xB831C993#32, 0x4A5A4A90#32, 0x9E902E7B#32, 0x6CFBAD78#32,
    0x7FAB5E8C#32, 0x8DC0DD8F#32, 0xE330A81A#32, 0x115B2B19#32, 0x020BD8ED#32, 0xF0605BEE#32,
    0x24AA3F05#32, 0xD6C1BC06#32, 0xC5914FF2#32, 0x37FACCF1#32, 0x69E9F0D5#32, 0x9B8273D6#32,
    0x88D28022#32, 0x7AB90321#32, 0xAE7367CA#32, 0x5C18E4C9#32, 0x4F48173D#32, 0xBD23943E#32,
    0xF36E6F75#32, 0x0105EC76#32, 0x12551F82#32, 0xE03E9C81#32, 0x34F4F86A#32, 0xC69F7B69#32,
    0xD5CF889D#32, 0x27A40B9E#32, 0x79B737BA#32, 0x8BDCB4B9#32, 0x988C474D#32, 0x6AE7C44E#32,
    0xBE2DA0A5#32, 0x4C4623A6#32, 0x5F16D052#32, 0xAD7D5351#32]

/-- The table lookup `crc32c_table[i]`. -/
def crc32cEntry (i : BitVec 32) : BitVec 32 :=
  crc32cTable.getD i.toNat 0

/-- `BLUESKY_CRC32C_SEED`. -/
def crc32cSeed : BitVec 32 := 0xFFFFFFFF#32

/-- `BLUESKY_CRC32C_VALIDATOR`. -/
def crc32cValidator : BitVec 32 := 0xb798b438#32

/-- `crc32c`.  The length is an `unsigned int`, so a longer buffer is only
covered up to its length modulo 2^32. -/
def crc32c (crc : BitVec 32) (buf : Bytes) (length : Nat) : BitVec 32 :=
  CrcLib.run crc32cEntry crc (buf.take (length % 2 ^ 32))

/-- `crc32c_finalize`: the complement of the register (little-endian host). -/
def crc32cFinalize (crc : BitVec 32) : BitVec 32 :=
  ~~~crc

/-! ## Residue and detection -/

theorem crc32cTable_high_nodup :
    (crc32cTable.map fun w => w.toNat / 2 ^ 24).Nodup := by
  decide +kernel

theorem crc32cEntry_highOctetsDistinct : CrcLib.HighOctetsDistinct crc32cEntry := by
  intro i j h
  have hbound : ∀ z : BitVec 32, (z &&& 0xFF#32).toNat < crc32cTable.length := by
    intro z
    have hle : (z &&& 0xFF#32).toNat ≤ 255 := by
      rw [BitVec.toNat_and]
      exact Nat.and_le_right
    have hlen : crc32cTable.length = 256 := by decide +kernel
    omega
  have hi := hbound i
  have hj := hbound j
  unfold crc32cEntry at h
  rw [getD_eq_getElem _ _ hi, getD_eq_getElem _ _ hj] at h
  have hmap : ∀ z : Nat, z < crc32cTable.length →
      z < (crc32cTable.map fun w => w.toNat / 2 ^ 24).length := by
    intro z hz
    rw [length_map]
    exact hz
  apply BitVec.eq_of_toNat_eq
  refine (@List.Nodup.getElem_inj_iff _ _ crc32cTable_high_nodup _ (hmap _ hi) _ (hmap _ hj)).mp ?_
  rw [getElem_map, getElem_map]
  simpa [Nat.shiftRight_eq_div_pow] using congrArg BitVec.toNat h

theorem crc32c_validator : CrcLib.residue crc32cEntry = crc32cValidator := by
  decide +kernel

/-- After a message of any content, a trailing word leaves the validator exactly
when it is the finalized checksum of the message. -/
theorem crc32c_trailer_iff (msg : Bytes) (w : BitVec 32) :
    CrcLib.run crc32cEntry crc32cSeed (msg ++ leBytes 4 w.toNat) = crc32cValidator ↔
      w = crc32cFinalize (CrcLib.run crc32cEntry crc32cSeed msg) := by
  rw [CrcLib.run_append, ← crc32c_validator]
  exact CrcLib.run_eq_residue_iff crc32cEntry_highOctetsDistinct _ w

end BlueSky
