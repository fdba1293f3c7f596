import Mathlib.Data.List.Basic
import Mathlib.Data.Nat.Init

/-
  Numbers of four bytes with the high byte first, and numbers
  read from as many bytes as there are.

  Main declarations:
    * `be32`
    * `fromBytes`
    * `fromBytes_be32`
-/

------------------------------------------------------------
-- Big Endian Numbers
------------------------------------------------------------

namespace MicaBoards

/- The bytes of a number of 32 bits, the high one first. -/
def be32 (value : Nat) : List UInt8 :=
  [UInt8.ofNat (value / 16777216), UInt8.ofNat (value / 65536),
    UInt8.ofNat (value / 256), UInt8.ofNat value]

/- `int.from_bytes(bytes, 'big')` -/
def fromBytes (bytes : List UInt8) : Nat :=
  bytes.foldl (fun value b => value * 256 + b.toNat) 0

/- A number of 32 bits is read back. -/
theorem fromBytes_be32
    {value : Nat}
    (hValue : value < 4294967296) :
    fromBytes (be32 value) = value := by
  simp only [fromBytes, be32, List.foldl_cons, List.foldl_nil,
    UInt8.toNat_ofNat']
  omega

end MicaBoards
