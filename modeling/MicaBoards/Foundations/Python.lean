import Mathlib.Data.List.DropRight
import MicaBoards.Foundations.Text

/-
  Slices, text and numbers as Python has them.

  Key definitions include:
    * `bound`, `slice`
    * `asciiText`, `strip`
    * `int`

  Main declarations:
    * `bound_of_nonneg`, `bound_le`
    * `le_of_bound_le`, `lt_of_lt_bound`
    * `getElem?_slice`
-/

------------------------------------------------------------
-- Slices
------------------------------------------------------------

namespace MicaBoards

namespace Python

/- A bound of a slice: from the end when it is negative -/
def bound (length : Nat) (i : Int) : Nat :=
  if i < 0 then (i + length).toNat else min i.toNat length

/- `data[i:j]` -/
def slice (data : Bytes) (i j : Int) : Bytes :=
  (data.take (bound data.length j)).drop (bound data.length i)

theorem bound_of_nonneg
    {length : Nat}
    {i : Int}
    (hI : 0 ≤ i) :
    bound length i = min i.toNat length := by
  rw [bound, if_neg (Int.not_lt.mpr hI)]

theorem bound_le (length : Nat) (i : Int) :
    bound length i ≤ length := by
  unfold bound
  split
  · omega
  · exact Nat.min_le_right _ _

/- A place between bounds of which the lower is not negative -/
theorem le_of_bound_le
    {length k : Nat}
    {i j : Int}
    (hI : 0 ≤ i)
    (hLow : bound length i ≤ k)
    (hHigh : k < bound length j) :
    i ≤ k := by
  have hLength := bound_le length j
  rw [bound_of_nonneg hI] at hLow
  omega

theorem lt_of_lt_bound
    {length k : Nat}
    {j : Int}
    (hJ : 0 ≤ j)
    (hHigh : k < bound length j) :
    k < j := by
  rw [bound_of_nonneg hJ] at hHigh
  omega

/- The bytes of a slice are those between its bounds. -/
theorem getElem?_slice
    (data : Bytes)
    (i j : Int)
    (k : Nat) :
    (slice data i j)[k]? =
      if bound data.length i + k < bound data.length j then
        data[bound data.length i + k]?
      else none := by
  rw [slice, List.getElem?_drop, List.getElem?_take]

------------------------------------------------------------
-- Text
------------------------------------------------------------

/- `str.isspace`, of what is ASCII -/
def isSpace (c : Char) : Bool :=
  (9 ≤ c.toNat ∧ c.toNat ≤ 13) ∨
    (28 ≤ c.toNat ∧ c.toNat ≤ 32)

def strip (text : List Char) : List Char :=
  (text.dropWhile isSpace).rdropWhile isSpace

/- `bytes.decode('ascii')` -/
def asciiText (bytes : Bytes) : Option (List Char) :=
  if bytes.all (· < 0x80) then
    some (bytes.map fun b => Char.ofNat b.toNat)
  else none

/- `bytes.decode('ascii', 'replace')` -/
def replacedText (bytes : Bytes) : List Char :=
  bytes.map fun b =>
    if b < 0x80 then Char.ofNat b.toNat
    else Char.ofNat 0xfffd

------------------------------------------------------------
-- Numbers
------------------------------------------------------------

/- Digits, in groups with an underscore between -/
def digits (text : List Char) : Option Nat :=
  let groups := text.splitOn '_'
  if groups.all (fun group =>
      group ≠ [] ∧ group.all Char.isDigit) then
    some (groups.flatten.foldl
      (fun value c => 10 * value + (c.toNat - 48)) 0)
  else none

/- `int(text)`, of text without spaces around it -/
def int (text : List Char) : Option Int :=
  match text with
  | [] => none
  | c :: rest =>
      if c = '-' then (digits rest).map fun n => -(n : Int)
      else if c = '+' then (digits rest).map fun n => (n : Int)
      else (digits (c :: rest)).map fun n => (n : Int)

end Python

end MicaBoards
