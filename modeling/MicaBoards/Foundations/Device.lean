import Mathlib.Data.List.Basic
import Mathlib.Order.Basic
import Mathlib.Order.Interval.Set.Basic
import Mathlib.Tactic.SplitIfs

/-
  Addressed devices with range reads and writes, and torn
  writes of which only some blocks reach the device.

  Key definitions include:
    * `Device.read`
    * `Device.write`
    * `Device.tear`

  Key theorems include:
    * `Device.read_write_self`
    * `Device.write_append`
    * `Device.tear_all`
    * `Device.read_tear_eq_of_blocks`
-/

------------------------------------------------------------
-- Reads And Writes
------------------------------------------------------------

namespace MicaBoards

/- The contents of every address of a device. -/
def Device (α : Type) := Nat → α

namespace Device

variable {α : Type}

/- The device that holds one value everywhere. -/
def filled (x : α) : Device α := fun _ => x

/- The contents of `count` addresses from `start` on. -/
def read
    (device : Device α)
    (start count : Nat) : List α :=
  (List.range count).map (fun i => device (start + i))

/- Write `data` to the addresses from `start` on. -/
def write
    (device : Device α)
    (start : Nat)
    (data : List α) : Device α :=
  fun a =>
    if start ≤ a then (data[a - start]?).getD (device a)
    else device a

/-
  Write the blocks of `data` for which `landed` holds. The
  blocks are counted from `start`.
-/
def tear
    (device : Device α)
    (blockSize : Nat)
    (landed : Nat → Bool)
    (start : Nat)
    (data : List α) : Device α :=
  fun a =>
    if landed ((a - start) / blockSize) then
      device.write start data a
    else
      device a

@[simp] theorem length_read
    (device : Device α)
    (start count : Nat) :
    (device.read start count).length = count := by
  simp [read]

@[simp] theorem getElem?_read
    (device : Device α)
    (start count i : Nat) :
    (device.read start count)[i]? =
      if i < count then some (device (start + i)) else none := by
  split_ifs with hLt
  · simp [read, hLt]
  · simp [read, not_lt.mp hLt]

@[simp] theorem read_filled
    (x : α)
    (start count : Nat) :
    (filled x).read start count = List.replicate count x := by
  simp [read, filled, List.map_const']

/- Reads agree when the addresses read agree. -/
theorem read_congr
    {left right : Device α}
    {start count : Nat}
    (hSame : ∀ i < count, left (start + i) = right (start + i)) :
    left.read start count = right.read start count := by
  apply List.map_congr_left
  intro i hi
  exact hSame i (List.mem_range.mp hi)

/- Outside the written addresses nothing changes. -/
theorem write_apply_of_outside
    (device : Device α)
    {start a : Nat}
    {data : List α}
    (hOutside : a < start ∨ start + data.length ≤ a) :
    device.write start data a = device a := by
  unfold write
  split_ifs with hStart
  · have hLong : data.length ≤ a - start := by omega
    simp [hLong]
  · rfl

/- Inside the written addresses the data is found. -/
theorem write_apply_of_inside
    (device : Device α)
    {start i : Nat}
    {data : List α}
    (hInside : i < data.length) :
    device.write start data (start + i) = data[i] := by
  simp [write, hInside]

/- A write reads back. -/
theorem read_write_self
    (device : Device α)
    (start : Nat)
    (data : List α) :
    (device.write start data).read start data.length =
      data := by
  apply List.ext_getElem
  · simp
  · intro i hRead hData
    simp [read, write_apply_of_inside device hData]

/- Writing nothing changes nothing. -/
@[simp] theorem write_nil
    (device : Device α)
    (start : Nat) :
    device.write start [] = device := by
  funext a
  simp [write]

/- A long write is two writes in a row. -/
theorem write_append
    (device : Device α)
    (start : Nat)
    (front back : List α) :
    device.write start (front ++ back) =
      (device.write start front).write
        (start + front.length) back := by
  funext a
  unfold write
  by_cases hStart : start ≤ a
  · by_cases hFront : a - start < front.length
    · have hBack : ¬ start + front.length ≤ a := by omega
      simp [hStart, hBack, List.getElem?_append_left hFront]
    · have hBack : start + front.length ≤ a := by omega
      have hIndex :
          a - start - front.length =
            a - (start + front.length) := by omega
      simp [hStart, hBack, hIndex,
        List.getElem?_append_right (not_lt.mp hFront),
        List.getElem?_eq_none (not_lt.mp hFront)]
  · have hBack : ¬ start + front.length ≤ a := by omega
    simp [hStart, hBack]

------------------------------------------------------------
-- Torn Writes
------------------------------------------------------------

/- With every block written the write is complete. -/
theorem tear_all
    (device : Device α)
    (blockSize : Nat)
    {landed : Nat → Bool}
    (start : Nat)
    {data : List α}
    (hAll : ∀ block, block * blockSize < data.length →
      landed block = true) :
    device.tear blockSize landed start data =
      device.write start data := by
  funext a
  unfold tear
  split_ifs with hLanded
  · rfl
  · symm
    apply write_apply_of_outside
    by_contra hInside
    rcases not_or.mp hInside with ⟨hLow, hHigh⟩
    apply hLanded
    apply hAll
    have hBlock := Nat.div_mul_le_self (a - start) blockSize
    omega

/- A torn write leaves disjoint addresses as they were. -/
theorem read_tear_disjoint
    (device : Device α)
    (blockSize : Nat)
    (landed : Nat → Bool)
    {start other count : Nat}
    {data : List α}
    (hDisjoint :
      other + count ≤ start ∨
        start + data.length ≤ other) :
    (device.tear blockSize landed start data).read
        other count =
      device.read other count := by
  apply read_congr
  intro i hi
  unfold tear
  split_ifs
  · apply write_apply_of_outside
    omega
  · rfl

/-
  A torn write reads as `expected` when each address of the
  data does: the new element where the block has landed, the
  old one where it has not.
-/
theorem read_tear_eq
    (device : Device α)
    (blockSize : Nat)
    (landed : Nat → Bool)
    (start : Nat)
    {data expected : List α}
    (hLength : expected.length = data.length)
    (hBlocks : ∀ i (hi : i < data.length),
      expected[i]? =
        some (if landed (i / blockSize) then data[i]
          else device (start + i))) :
    (device.tear blockSize landed start data).read start
        data.length =
      expected := by
  apply List.ext_getElem?
  intro i
  rw [getElem?_read]
  split_ifs with hi
  · rw [hBlocks i hi]
    simp [tear, write_apply_of_inside device hi]
  · rw [List.getElem?_eq_none (by omega)]

end Device

end MicaBoards
