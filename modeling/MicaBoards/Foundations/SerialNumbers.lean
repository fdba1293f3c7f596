import Mathlib.Data.Nat.Basic
import Mathlib.Data.Nat.ModEq

/-
  Numbers that are sent modulo some m, and compared as if
  there were no end to them: one is less than another when it
  is more than half of m ahead. Numbers that are less than
  half of m apart are then compared as they are.

  Main declarations:
    * `SerialNumbers.sub`, `SerialNumbers.less`
    * `less_iff_of_near`
    * `eq_of_mod_eq`
-/

------------------------------------------------------------
-- Distances
------------------------------------------------------------

namespace MicaBoards

namespace SerialNumbers

/- How far the first number is ahead of the second. -/
def sub (m a b : Nat) : Nat := (a + (m - b % m)) % m

def less (m a b : Nat) : Bool := decide (m / 2 < sub m a b)

variable {m a b : Nat}

@[simp] theorem sub_mod_left : sub m (a % m) b = sub m a b := by
  unfold sub
  rw [Nat.mod_add_mod]

@[simp] theorem sub_mod_right : sub m a (b % m) = sub m a b := by
  unfold sub
  rw [Nat.mod_mod]

theorem sub_lt (hPos : 0 < m) : sub m a b < m :=
  Nat.mod_lt _ hPos

/- The second number and its distance give the first. -/
theorem add_sub_mod
    {m : Nat}
    (hPos : 0 < m)
    (a b : Nat) :
    (b + sub m a b) % m = a % m := by
  have hMod := Nat.mod_lt b hPos
  have hDiv := Nat.div_add_mod b m
  have hSum : b + (a + (m - b % m)) = a + m * (b / m + 1) := by
    rw [Nat.mul_add, Nat.mul_one]
    omega
  unfold sub
  rw [Nat.add_mod_mod, hSum, Nat.add_mul_mod_self_left]

/- The distance of a number that is ahead. -/
theorem sub_mod_of_le
    {m a b : Nat}
    (hPos : 0 < m)
    (hLe : b ≤ a) :
    sub m a b = (a - b) % m := by
  have hMod := Nat.mod_lt b hPos
  have hDiv := Nat.div_add_mod b m
  have hSum : a + (m - b % m) = (a - b) + m * (b / m + 1) := by
    rw [Nat.mul_add, Nat.mul_one]
    omega
  unfold sub
  rw [hSum, Nat.add_mul_mod_self_left]

/- A number ahead by less than m. -/
theorem sub_of_le
    (hLe : b ≤ a)
    (hNear : a - b < m) :
    sub m a b = a - b := by
  have hPos : 0 < m := Nat.lt_of_le_of_lt (Nat.zero_le _) hNear
  rw [sub_mod_of_le hPos hLe, Nat.mod_eq_of_lt hNear]

/- A number behind by less than m. -/
theorem sub_of_lt
    (hLt : a < b)
    (hNear : b - a < m) :
    sub m a b = m - (b - a) := by
  have hPos : 0 < m := Nat.lt_of_le_of_lt (Nat.zero_le _) hNear
  have hSame : sub m a b = sub m (a + m) b := by
    unfold sub
    rw [Nat.add_right_comm, Nat.add_mod_right]
  rw [hSame, sub_of_le (by omega) (by omega)]
  omega

/- Near numbers are compared as they are. -/
theorem less_iff_of_near
    (hBehind : b - a < m / 2)
    (hAhead : a - b ≤ m / 2)
    (hEven : m / 2 + m / 2 = m) :
    less m a b = true ↔ a < b := by
  unfold less
  rw [decide_eq_true_eq]
  by_cases hLt : a < b
  · rw [sub_of_lt hLt (by omega)]
    omega
  · rw [sub_of_le (by omega) (by omega)]
    omega

theorem less_mod
    {m a b : Nat} :
    less m (a % m) (b % m) = less m a b := by
  unfold less
  rw [sub_mod_left, sub_mod_right]

@[simp] theorem less_mod_left : less m (a % m) b = less m a b := by
  unfold less
  rw [sub_mod_left]

@[simp] theorem less_mod_right : less m a (b % m) = less m a b := by
  unfold less
  rw [sub_mod_right]

/- Numbers that are sent alike are the same when they are near. -/
theorem eq_of_mod_eq
    (hSame : a % m = b % m)
    (hAhead : a < b + m)
    (hBehind : b < a + m) :
    a = b := by
  rcases Nat.le_total a b with hLe | hLe
  · have hDvd := (Nat.modEq_iff_dvd' hLe).mp hSame
    have hZero := Nat.eq_zero_of_dvd_of_lt hDvd (by omega)
    omega
  · have hDvd := (Nat.modEq_iff_dvd' hLe).mp hSame.symm
    have hZero := Nat.eq_zero_of_dvd_of_lt hDvd (by omega)
    omega

end SerialNumbers

end MicaBoards
