import Lzip.Basic
import Mathlib.Logic.Function.Iterate

/-! The CRC-32 of lzip.h: the table the `CRC32` constructor fills, `update_byte` and
`update_buf`, against the bit-serial reflected CRC over the polynomial 0xEDB88320. -/
namespace Lzip
namespace CRC32

def polynomial : BitVec 32 := 0xEDB88320#32

/-- One round of the constructor's inner loop:
`if( c & 1 ) c = 0xEDB88320U ^ ( c >> 1 ); else c >>= 1;` -/
def tableRound (c : BitVec 32) : BitVec 32 :=
  if c &&& 1#32 ≠ 0#32 then polynomial ^^^ (c >>> 1) else c >>> 1

/-- `data[n]`: eight rounds started from `n`. -/
def data (n : Nat) : BitVec 32 := tableRound^[8] (BitVec.ofNat 32 n)

/-- `( crc ^ byte ) & 0xFF`, the table index of `update_byte` and `update_buf`. -/
def index (crc : BitVec 32) (byte : UInt8) : Nat :=
  ((crc ^^^ byte.toBitVec.setWidth 32) &&& 0xFF#32).toNat

def updateByte (crc : BitVec 32) (byte : UInt8) : BitVec 32 :=
  data (index crc byte) ^^^ (crc >>> 8)

/-- `update_buf` over `buffer[0..size)`, with the register kept in a local. -/
def updateBuf (crc : BitVec 32) (buffer : List UInt8) : BitVec 32 :=
  buffer.foldl (fun c b => data (index c b) ^^^ (c >>> 8)) crc

/-- The reflected CRC-32 one bit at a time: shift right, and xor the polynomial when the
bit shifted out (the register is odd) is set. -/
def bitStep (x : BitVec 32) : BitVec 32 :=
  (x >>> 1) ^^^ (if x.getLsbD 0 then polynomial else 0#32)

def bitSerial (crc : BitVec 32) (s : List UInt8) : BitVec 32 :=
  s.foldl (fun c b => bitStep^[8] (c ^^^ b.toBitVec.setWidth 32)) crc

theorem tableRound_eq_bitStep : tableRound = bitStep := by
  funext c
  rw [tableRound, bitStep, BitVec.and_one_eq_setWidth_ofBool_getLsbD]
  cases c.getLsbD 0
  · simp
  · simp [BitVec.xor_comm]

theorem xor_xor_cancel (a b p : BitVec 32) : (a ^^^ p) ^^^ (b ^^^ p) = a ^^^ b := by
  rw [BitVec.xor_assoc, ← BitVec.xor_assoc p, BitVec.xor_comm p b, BitVec.xor_assoc,
    BitVec.xor_self, BitVec.xor_zero]

theorem bitStep_xor (x y : BitVec 32) : bitStep (x ^^^ y) = bitStep x ^^^ bitStep y := by
  simp only [bitStep, BitVec.ushiftRight_xor_distrib, BitVec.getLsbD_xor]
  cases x.getLsbD 0 <;> cases y.getLsbD 0
  · simp
  · simp [BitVec.xor_assoc]
  · simp only [Bool.true_xor, Bool.not_false, if_true, if_false, BitVec.xor_zero]; ac_rfl
  · simp [xor_xor_cancel]

theorem bitStep_iterate_xor (n : Nat) (x y : BitVec 32) :
    bitStep^[n] (x ^^^ y) = bitStep^[n] x ^^^ bitStep^[n] y := by
  induction n generalizing x y with
  | zero => rfl
  | succ n ih => simp only [Function.iterate_succ_apply, bitStep_xor, ih]

theorem bitStep_iterate_of_low_zero (n : Nat) (x : BitVec 32)
    (h : ∀ i < n, x.getLsbD i = false) : bitStep^[n] x = x >>> n := by
  induction n generalizing x with
  | zero => simp
  | succ n ih =>
    have hstep : bitStep x = x >>> 1 := by simp [bitStep, h 0 (by omega)]
    rw [Function.iterate_succ_apply, hstep, ih, ← BitVec.shiftRight_add, Nat.add_comm]
    intro i hi
    simpa [Nat.add_comm] using h (i + 1) (by omega)

theorem getLsbD_0xFF (i : Nat) : (0xFF#32).getLsbD i = decide (i < 8) := by
  rw [BitVec.getLsbD_ofNat, show (255 : Nat) = 2^8 - 1 from rfl, Nat.testBit_two_pow_sub_one]
  by_cases hi : i < 8
  · simp [hi]; omega
  · simp [hi]

theorem data_index (crc : BitVec 32) (byte : UInt8) :
    data (index crc byte) = bitStep^[8] ((crc ^^^ byte.toBitVec.setWidth 32) &&& 0xFF#32) := by
  rw [data, index, tableRound_eq_bitStep, BitVec.ofNat_toNat, BitVec.setWidth_eq]

theorem updateByte_eq_bitStep (crc : BitVec 32) (byte : UInt8) :
    updateByte crc byte = bitStep^[8] (crc ^^^ byte.toBitVec.setWidth 32) := by
  set x := crc ^^^ byte.toBitVec.setWidth 32
  have hsplit : x = (x &&& 0xFF#32) ^^^ (x ^^^ (x &&& 0xFF#32)) := by
    rw [← BitVec.xor_assoc, BitVec.xor_comm (x &&& _), BitVec.xor_assoc, BitVec.xor_self,
      BitVec.xor_zero]
  have hhigh : ∀ i < 8, (x ^^^ (x &&& 0xFF#32)).getLsbD i = false := by
    intro i hi
    simp [getLsbD_0xFF, hi]
  have hshift : (x ^^^ (x &&& 0xFF#32)) >>> 8 = crc >>> 8 := by
    ext i
    simp [x, getLsbD_0xFF, show ¬8 + i.val < 8 by omega]
  rw [updateByte, data_index, hsplit, bitStep_iterate_xor, bitStep_iterate_of_low_zero 8 _ hhigh,
    hshift]

/-- `update_buf` is `update_byte` folded over the buffer, the bit-serial reflected CRC-32,
and it composes over concatenated chunks (as `flush_data` feeds it). -/
theorem updateBuf_eq_bitSerial (c : BitVec 32) (s : List UInt8) :
    updateBuf c s = s.foldl updateByte c ∧ updateBuf c s = bitSerial c s ∧
      ∀ t, updateBuf c (s ++ t) = updateBuf (updateBuf c s) t := by
  refine ⟨rfl, ?_, fun t => List.foldl_append _ _ _ _⟩
  simp only [updateBuf, bitSerial]
  congr 1
  funext c b
  exact updateByte_eq_bitStep c b

end CRC32
end Lzip
