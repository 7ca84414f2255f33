import Xwbot.Ice.Stun
import Xwbot.Registers

/-!
# The checksum of a packet

The checksum goes over a table that is made once.  It is what a register of 32 bits leaves that
takes the block one bit at a time, so it tells two blocks apart that differ in one burst.
-/

namespace Xwbot.Ice

open Registers

/-- One pass of the inner loop of `chksum_crc32gentab`. -/
def crcBit (crc : UInt32) : UInt32 :=
  if crc &&& 1 ≠ 0 then (crc >>> 1) ^^^ 0xEDB88320 else crc >>> 1

/-- The inner loop of `chksum_crc32gentab`. -/
def crcBits : Nat → UInt32 → UInt32
  | 0, crc => crc
  | j + 1, crc => crcBits j (crcBit crc)

/-- `chksum_crc32gentab`: the table. -/
def chksumCrc32Gentab : Vector UInt32 256 :=
  Vector.ofFn fun i => crcBits 8 i.val.toUInt32

/-- `crc_tab[i]` after `chksum_crc32gentab` -/
def generatedCrcTab : CrcTab :=
  fun i => chksumCrc32Gentab.toList.getD i.toNat 0

/-! ## One bit at a time -/

/-- The taps of the register. -/
def crcTaps : BitVec 32 :=
  0xEDB88320#32

/-- The bits of a byte, the low ones first. -/
def byteBits (byte : Byte) : List Bool :=
  (List.range 8).map byte.toBitVec.getLsbD

/-- The bits of a block. -/
def blockBits (block : List Byte) : List Bool :=
  block.flatMap byteBits

/-- What a register leaves that starts with ones and takes a block one bit at a time. -/
def serialCrc32 (block : List Byte) : BitVec 32 :=
  ~~~feeds crcTaps (BitVec.allOnes 32) (blockBits block)

theorem low_bit (crc : UInt32) : crc &&& 1 ≠ 0 ↔ crc.toBitVec.getLsbD 0 = true := by
  have one : (1 : UInt32).toBitVec = 1#32 := rfl
  rw [ne_eq, ← UInt32.toBitVec_inj, UInt32.toBitVec_and, one,
    BitVec.and_one_eq_setWidth_ofBool_getLsbD]
  cases crc.toBitVec.getLsbD 0 <;> decide

theorem toBitVec_crcBit (crc : UInt32) : (crcBit crc).toBitVec = shift crcTaps crc.toBitVec := by
  unfold crcBit shift
  simp only [low_bit]
  split
  · rfl
  · rfl

theorem toBitVec_crcBits (j : Nat) (crc : UInt32) :
    (crcBits j crc).toBitVec = shifts crcTaps j crc.toBitVec := by
  induction j generalizing crc with
  | zero => rfl
  | succ j ih => rw [crcBits, ih, toBitVec_crcBit, shifts]

theorem generatedCrcTab_eq {i : UInt32} (inside : i.toNat < 256) :
    (generatedCrcTab i).toBitVec = shifts crcTaps 8 i.toBitVec := by
  have entry : generatedCrcTab i = crcBits 8 i := by
    rw [generatedCrcTab, chksumCrc32Gentab, Vector.toList_ofFn, List.getD_eq_getElem _ _
      (by rwa [List.length_ofFn]), List.getElem_ofFn, Nat.toUInt32_eq, UInt32.ofNat_toNat]
  rw [entry, toBitVec_crcBits]

theorem length_byteBits (byte : Byte) : (byteBits byte).length = 8 := by
  rw [byteBits, List.length_map, List.length_range]

theorem ofBits_byteBits (byte : Byte) :
    (ofBits (byteBits byte) : BitVec 32) = byte.toUInt32.toBitVec := by
  have length := length_byteBits byte
  apply BitVec.eq_of_getLsbD_eq
  intro i inside
  rw [getLsbD_ofBits (by omega), byteBits, List.getD_eq_getElem?_getD, List.getElem?_map]
  rcases Nat.lt_or_ge i 8 with small | large
  · simp [small, inside]
  · simp [large, inside]

/-- The high bits of a byte are clear. -/
theorem shiftRight_byte (crc : UInt32) (byte : Byte) :
    (crc >>> 8 &&& 0x00FFFFFF).toBitVec = (crc ^^^ byte.toUInt32).toBitVec >>> 8 := by
  have high : byte.toUInt32.toBitVec >>> 8 = 0#32 := by
    apply BitVec.eq_of_toNat_eq
    have small := byte.toNat_lt
    simp only [BitVec.toNat_ushiftRight, UInt32.toNat_toBitVec, UInt8.toNat_toUInt32,
      Nat.shiftRight_eq_div_pow, BitVec.toNat_ofNat]
    omega
  have mask : (crc >>> 8 &&& 0x00FFFFFF).toBitVec = crc.toBitVec >>> 8 := by
    apply BitVec.eq_of_toNat_eq
    have small := crc.toNat_lt
    have inside : crc.toNat >>> 8 % 2 ^ 24 = crc.toNat >>> 8 := by
      rw [Nat.shiftRight_eq_div_pow]
      omega
    rw [UInt32.toNat_toBitVec, UInt32.toNat_and, UInt32.toNat_shiftRight]
    exact (Nat.and_two_pow_sub_one_eq_mod _ 24).trans inside
  rw [UInt32.toBitVec_xor, BitVec.ushiftRight_xor_distrib, high, BitVec.xor_zero, mask]

/-- One byte over the table is eight bits of the register. -/
theorem crcByte_eq (crc : UInt32) (byte : Byte) :
    (((crc >>> 8) &&& 0x00FFFFFF) ^^^ generatedCrcTab ((crc ^^^ byte.toUInt32) &&& 0xFF)).toBitVec =
      feeds crcTaps crc.toBitVec (byteBits byte) := by
  have inside : ((crc ^^^ byte.toUInt32) &&& 0xFF).toNat < 256 := by
    rw [UInt32.toNat_and]
    exact Nat.lt_of_le_of_lt Nat.and_le_right (by decide)
  have low : ∀ i < 32, (0xFF#32).getLsbD i = decide (i < 8) := by decide
  have length := length_byteBits byte
  rw [feeds_eq_shifts _ (by omega), ofBits_byteBits, length, ← UInt32.toBitVec_xor,
    shifts_eq 8 _ low, UInt32.toBitVec_xor (_ &&& _), generatedCrcTab_eq inside,
    shiftRight_byte crc byte, BitVec.xor_comm, UInt32.toBitVec_and]
  rfl

/-- **The table.**  The checksum over the table is that of the register. -/
theorem chksumCrc32_eq (block : List Byte) :
    (chksumCrc32 generatedCrcTab block).toBitVec = serialCrc32 block := by
  have run : ∀ (block : List Byte) (crc : UInt32), (block.foldl
      (fun (crc : UInt32) byte => ((crc >>> 8) &&& 0x00FFFFFF) ^^^
        generatedCrcTab ((crc ^^^ byte.toUInt32) &&& 0xFF)) crc).toBitVec =
      feeds crcTaps crc.toBitVec (blockBits block) := by
    intro block
    induction block with
    | nil => exact fun crc => rfl
    | cons byte rest ih =>
        intro crc
        rw [List.foldl_cons, ih, crcByte_eq, ← feeds_append]
        rfl
  rw [chksumCrc32, UInt32.toBitVec_xor, run]
  exact BitVec.xor_allOnes

/-- **Bursts.**  Blocks that differ in up to 32 bits one behind the other have different
checksums. -/
theorem chksumCrc32_ne {block block' : List Byte} {front back burst burst' : List Bool}
    (bits : blockBits block = front ++ (burst ++ back))
    (bits' : blockBits block' = front ++ (burst' ++ back))
    (length : burst.length = burst'.length) (fits : burst.length ≤ 32) (differ : burst ≠ burst') :
    chksumCrc32 generatedCrcTab block ≠ chksumCrc32 generatedCrcTab block' := by
  intro same
  have words := congrArg UInt32.toBitVec same
  rw [chksumCrc32_eq, chksumCrc32_eq, serialCrc32, serialCrc32, bits, bits'] at words
  exact feeds_ne rfl front back length fits differ (BitVec.not_inj.mp words)

/-- Bits in two bytes are changed. -/
theorem chksumCrc32_ne_bytes : chksumCrc32 generatedCrcTab [0x12, 0x34, 0x56] ≠
    chksumCrc32 generatedCrcTab [0x12, 0xB5, 0x57] := by
  have fits : (blockBits [0x34, 0x56]).length ≤ 32 := by decide
  have differ : blockBits [0x34, 0x56] ≠ blockBits [0xB5, 0x57] := by decide
  have bits : blockBits [0x12, 0x34, 0x56] =
      blockBits [0x12] ++ (blockBits [0x34, 0x56] ++ []) :=
    rfl
  have bits' : blockBits [0x12, 0xB5, 0x57] =
      blockBits [0x12] ++ (blockBits [0xB5, 0x57] ++ []) :=
    rfl
  exact chksumCrc32_ne bits bits' rfl fits differ

end Xwbot.Ice
