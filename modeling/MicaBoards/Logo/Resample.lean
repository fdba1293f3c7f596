import MicaBoards.Foundations.Grid
import MicaBoards.Logo.Quantise

/-
  The size of the boot logo (`common/kernel/mklogo.py`):
  `resample`, an area average.

  A source of `sw * sh` pixels and a destination of `dw * dh`
  divide the same lines, so a pixel of the one is a cell of a
  grid that the other divides too.

  Key definitions include:
    * `readRow` and `readRows`
    * `resamplePixel`
    * `resample`
-/

------------------------------------------------------------
-- The Resampler
------------------------------------------------------------

namespace MicaBoards

namespace Logo

open Grid (overlap cellsOf)

/- `acc_r`, `acc_g`, `acc_b` and `area` -/
structure Acc where
  r : Nat
  g : Nat
  b : Nat
  area : Nat
deriving DecidableEq, Repr

/- One pixel more, with a weight. -/
def Acc.add (acc : Acc) (c : Colour) (a : Nat) : Acc where
  r := acc.r + c.r * a
  g := acc.g + c.g * a
  b := acc.b + c.b * a
  area := acc.area + a

section Sizes

variable (src : Image)

variable (sw sh dw dh : Nat)

/-
  The loop over `sx`. A weight that Python has below zero is
  zero here, and is not counted either.
-/
def readRow
    (srow : List Colour)
    (wy dx : Nat)
    (acc : Acc) : Option Acc :=
  (cellsOf sw dw dx).foldlM
    (fun acc sx =>
      let wx := overlap sw dw dx sx
      if wx = 0 then some acc
      else srow[sx]?.map fun c => acc.add c (wx * wy))
    acc

/- The loop over `sy`. -/
def readRows (dy dx : Nat) : Option Acc :=
  (cellsOf sh dh dy).foldlM
    (fun acc sy =>
      let wy := overlap sh dh dy sy
      if wy = 0 then some acc
      else src[sy]?.bind fun srow => readRow sw dw srow wy dx acc)
    ⟨0, 0, 0, 0⟩

/- A pixel of the result, none where it divides by zero. -/
def resamplePixel (dy dx : Nat) : Option Colour :=
  match readRows src sw sh dw dh dy dx with
  | none => none
  | some acc =>
      if acc.area = 0 then
        none
      else
        some
          { r := (acc.r + acc.area / 2) / acc.area
            g := (acc.g + acc.area / 2) / acc.area
            b := (acc.b + acc.area / 2) / acc.area }

/- `resample` -/
def resample : Option Image :=
  (List.range dh).mapM fun dy =>
    (List.range dw).mapM fun dx =>
      resamplePixel src sw sh dw dh dy dx

end Sizes

end Logo

end MicaBoards
