import Mathlib.Data.BitVec
import Mathlib.Logic.Function.Iterate

/-
  The CRC-32 of zlib, bit by bit.

  A step of the register is injective, so that two strings
  that differ in their last byte have different checksums.

  Main declarations:
    * `Crc32.crc32`
    * `Crc32.crc32_append_singleton_injective`
-/

------------------------------------------------------------
-- The Register
------------------------------------------------------------

namespace MicaBoards

namespace Crc32

/- The reflected polynomial. -/
def polynomial : BitVec 32 := 0xEDB88320#32

/- The register after one bit. -/
def crcBit (register : BitVec 32) : BitVec 32 :=
  if register.getLsbD 0 then
    (register >>> 1) ^^^ polynomial
  else
    register >>> 1

/- The register after one byte. -/
def crcByte
    (register : BitVec 32)
    (byte : UInt8) : BitVec 32 :=
  crcBit^[8] (register ^^^ byte.toBitVec.setWidth 32)

/- `crc32(0, bytes, length of bytes)` -/
def crc32 (bytes : List UInt8) : UInt32 :=
  UInt32.ofBitVec
    (~~~ bytes.foldl crcByte (BitVec.allOnes 32))

------------------------------------------------------------
-- Injectivity
------------------------------------------------------------

/- The top bit of the new register is the bit shifted out. -/
theorem getLsbD_crcBit_top (register : BitVec 32) :
    (crcBit register).getLsbD 31 = register.getLsbD 0 := by
  have hPolynomial : polynomial.getLsbD 31 = true := by decide
  unfold crcBit
  cases hLow : register.getLsbD 0 with
  | true => simp [hPolynomial]
  | false => simp

/- The step of one bit loses nothing. -/
theorem crcBit_injective : Function.Injective crcBit := by
  intro left right hSame
  have hLow : left.getLsbD 0 = right.getLsbD 0 := by
    rw [← getLsbD_crcBit_top, hSame, getLsbD_crcBit_top]
  have hShift : left >>> 1 = right >>> 1 := by
    unfold crcBit at hSame
    rw [hLow] at hSame
    split_ifs at hSame with hBit
    · exact (BitVec.xor_left_inj _).mp hSame
    · exact hSame
  apply BitVec.eq_of_getLsbD_eq
  intro i hi
  cases i with
  | zero => exact hLow
  | succ i =>
      have hBit := congrArg (fun x => x.getLsbD i) hShift
      simpa [Nat.add_comm] using hBit

/- The step of one byte tells the bytes apart. -/
theorem crcByte_injective (register : BitVec 32) :
    Function.Injective (crcByte register) := by
  intro left right hSame
  have hXor := (crcBit_injective.iterate 8) hSame
  have hWide :
      left.toBitVec.setWidth 32 =
        right.toBitVec.setWidth 32 :=
    (BitVec.xor_right_inj _).mp hXor
  apply UInt8.toNat_inj.mp
  have hValue := congrArg BitVec.toNat hWide
  have hLeft := left.toNat_lt
  have hRight := right.toNat_lt
  simp only [BitVec.toNat_setWidth,
    UInt8.toNat_toBitVec] at hValue
  omega

/- Another last byte gives another checksum. -/
theorem crc32_append_singleton_injective
    (bytes : List UInt8) :
    Function.Injective (fun b => crc32 (bytes ++ [b])) := by
  intro left right hSame
  have hRegister :=
    BitVec.not_inj.mp (congrArg UInt32.toBitVec hSame)
  simp only [List.foldl_append, List.foldl_cons,
    List.foldl_nil] at hRegister
  exact crcByte_injective _ hRegister

end Crc32

end MicaBoards
