import Mathlib.Algebra.BigOperators.Group.List.Basic
import Mathlib.Algebra.Order.Ring.Nat

/-
  Weighted sums of natural numbers, and the means that an
  integer division makes of them.

  Main declarations:
    * `WeightedMean.total`, `WeightedMean.weight`
    * `WeightedMean.bounds`
    * `WeightedMean.rounded_bounds`
    * `WeightedMean.rounded_nearest`
-/

------------------------------------------------------------
-- Weighted Sums
------------------------------------------------------------

namespace MicaBoards

namespace WeightedMean

variable {α : Type}

variable (value weight : α → Nat)

/- The sum of the values, each times its weight. -/
def total (xs : List α) : Nat :=
  (xs.map fun x => value x * weight x).sum

/- The sum of the weights. -/
def weightOf (xs : List α) : Nat :=
  (xs.map weight).sum

variable {value weight}

/- A sum is between those of the least and greatest value. -/
theorem total_bounds
    {lo hi : Nat}
    {xs : List α}
    (hBounds : ∀ x ∈ xs, lo ≤ value x ∧ value x ≤ hi) :
    lo * weightOf weight xs ≤ total value weight xs ∧
      total value weight xs ≤ hi * weightOf weight xs := by
  induction xs with
  | nil => exact ⟨Nat.le_refl 0, Nat.zero_le _⟩
  | cons x xs ih =>
      rcases List.forall_mem_cons.mp hBounds with ⟨hX, hXs⟩
      have hRest := ih hXs
      have hLow := Nat.mul_le_mul_right (weight x) hX.1
      have hHigh := Nat.mul_le_mul_right (weight x) hX.2
      unfold total weightOf at hRest ⊢
      rw [List.map_cons, List.sum_cons, List.map_cons,
        List.sum_cons, Nat.mul_add, Nat.mul_add]
      omega

/- A mean is between the least and the greatest value. -/
theorem bounds
    {lo hi : Nat}
    {xs : List α}
    (hBounds : ∀ x ∈ xs, lo ≤ value x ∧ value x ≤ hi)
    (hPos : 0 < weightOf weight xs) :
    lo ≤ total value weight xs / weightOf weight xs ∧
      total value weight xs / weightOf weight xs ≤ hi := by
  have hTotal := @total_bounds _ _ weight _ _ _ hBounds
  constructor
  · exact (Nat.le_div_iff_mul_le hPos).mpr hTotal.1
  · exact Nat.div_le_of_le_mul
      (hTotal.2.trans_eq (Nat.mul_comm _ _))

/- So is one that is rounded to the nearest number. -/
theorem rounded_bounds
    {lo hi : Nat}
    {xs : List α}
    (hBounds : ∀ x ∈ xs, lo ≤ value x ∧ value x ≤ hi)
    (hPos : 0 < weightOf weight xs) :
    lo ≤ (total value weight xs + weightOf weight xs / 2) /
        weightOf weight xs ∧
      (total value weight xs + weightOf weight xs / 2) /
        weightOf weight xs ≤ hi := by
  have hTotal := @total_bounds _ _ weight _ _ _ hBounds
  generalize weightOf weight xs = area at *
  generalize total value weight xs = sum at *
  constructor
  · apply (Nat.le_div_iff_mul_le hPos).mpr
    omega
  · apply Nat.le_of_lt_succ
    apply (Nat.div_lt_iff_lt_mul hPos).mpr
    rw [Nat.succ_mul]
    omega

/-
  The rounded mean is the nearest number, and half is rounded
  up: twice the mean is in the interval of two around it.
-/
theorem rounded_nearest
    {sum area : Nat}
    (hPos : 0 < area) :
    2 * sum < (2 * ((sum + area / 2) / area) + 1) * area ∧
      2 * ((sum + area / 2) / area) * area ≤ 2 * sum + area := by
  have hDivide := Nat.div_add_mod (sum + area / 2) area
  have hRest := Nat.mod_lt (sum + area / 2) hPos
  generalize (sum + area / 2) / area = mean at *
  generalize (sum + area / 2) % area = rest at *
  have hProduct : 2 * mean * area = 2 * (area * mean) := by
    rw [Nat.mul_assoc, Nat.mul_comm mean area]
  rw [Nat.add_mul, hProduct]
  omega

end WeightedMean

end MicaBoards
