import Mathlib.Algebra.BigOperators.Group.List.Basic
import Mathlib.Algebra.Order.Ring.Nat
import Mathlib.Data.List.Range

/-
  Two divisions of one line into cells of equal length, and
  how much a cell of the one has in common with a cell of the
  other. A line of `s * d` units has `d` cells of length `s`,
  and `s` cells of length `d`.

  Main declarations:
    * `Grid.overlap`
    * `Grid.sum_overlap`
    * `Grid.sum_overlap_cells`
-/

------------------------------------------------------------
-- Intervals
------------------------------------------------------------

namespace MicaBoards

namespace Grid

/- The units of a cell of length `d` in an interval. -/
def inCell (a b d j : Nat) : Nat :=
  min b ((j + 1) * d) - max a (j * d)

/- The cells in a row take the interval between them. -/
theorem sum_inCell
    {a b : Nat}
    (hInterval : a ≤ b)
    (d m count : Nat) :
    ((List.range' m count).map (inCell a b d)).sum =
      min b ((m + count) * d) - max a (m * d) := by
  induction count with
  | zero =>
      simp only [List.range'_zero, List.map_nil, List.sum_nil,
        Nat.add_zero]
      omega
  | succ count ih =>
      have hLow : m * d ≤ (m + count) * d :=
        Nat.mul_le_mul_right d (Nat.le_add_right m count)
      have hHigh :
          (m + (count + 1)) * d = (m + count) * d + d := by
        rw [← Nat.add_assoc, Nat.succ_mul]
      rw [List.range'_1_concat, List.map_append,
        List.sum_append, ih]
      simp only [List.map_cons, List.map_nil, List.sum_cons,
        List.sum_nil, Nat.add_zero, inCell, Nat.succ_mul]
      rw [hHigh]
      omega

/- Cells that cover an interval take all of it. -/
theorem sum_inCell_cover
    {a b d m count : Nat}
    (hInterval : a ≤ b)
    (hFront : m * d ≤ a)
    (hBack : b ≤ (m + count) * d) :
    ((List.range' m count).map (inCell a b d)).sum = b - a := by
  rw [sum_inCell hInterval, Nat.min_eq_left hBack,
    Nat.max_eq_left hFront]

------------------------------------------------------------
-- Two Grids
------------------------------------------------------------

/-
  What cell `i` of length `s` and cell `j` of length `d` have
  in common.
-/
def overlap (s d i j : Nat) : Nat :=
  min ((i + 1) * s) ((j + 1) * d) - max (i * s) (j * d)

theorem overlap_comm (s d i j : Nat) :
    overlap s d i j = overlap d s j i := by
  unfold overlap
  rw [Nat.min_comm, Nat.max_comm]

theorem overlap_eq_inCell (s d i j : Nat) :
    overlap s d i j = inCell (i * s) ((i + 1) * s) d j :=
  rfl

/- The cells that a cell of the other grid meets. -/
def cellsOf (s d i : Nat) : List Nat :=
  List.range' (i * s / d)
    (((i + 1) * s + d - 1) / d - i * s / d)

/- They take all of it. -/
theorem sum_overlap
    (s : Nat)
    {d : Nat}
    (hPos : 0 < d)
    (i : Nat) :
    ((cellsOf s d i).map (overlap s d i)).sum = s := by
  have hLength : (i + 1) * s = i * s + s := Nat.succ_mul i s
  have hFront : i * s / d * d ≤ i * s :=
    Nat.div_mul_le_self (i * s) d
  have hBack : (i + 1) * s ≤ ((i + 1) * s + d - 1) / d * d := by
    have hDivide := Nat.div_add_mod ((i + 1) * s + d - 1) d
    have hRest := Nat.mod_lt ((i + 1) * s + d - 1) hPos
    rw [Nat.mul_comm] at hDivide
    omega
  have hOrder : i * s / d ≤ ((i + 1) * s + d - 1) / d := by
    apply Nat.div_le_div_right
    omega
  have hSum :=
    @sum_inCell_cover (i * s) ((i + 1) * s) d (i * s / d)
      (((i + 1) * s + d - 1) / d - i * s / d)
      (by omega) hFront
      (by rw [Nat.add_sub_cancel' hOrder]; exact hBack)
  have hSame :
      overlap s d i = inCell (i * s) ((i + 1) * s) d := rfl
  unfold cellsOf
  rw [hSame, hSum]
  omega

/- Cells that have something in common are on one line. -/
theorem lt_of_overlap
    {s d i j : Nat}
    (hCell : i < d)
    (hOverlap : overlap s d i j ≠ 0) :
    j < s := by
  by_contra hOutside
  apply hOverlap
  have hEnd : (i + 1) * s ≤ d * s :=
    Nat.mul_le_mul_right s hCell
  have hBegin : s * d ≤ j * d :=
    Nat.mul_le_mul_right d (Nat.le_of_not_lt hOutside)
  rw [Nat.mul_comm d s] at hEnd
  unfold overlap
  omega

/- A cell that is not among those that are met is not met. -/
theorem overlap_eq_zero
    {s d i j : Nat}
    (hPos : 0 < d)
    (hOutside : j ∉ cellsOf s d i) :
    overlap s d i j = 0 := by
  unfold cellsOf at hOutside
  rw [List.mem_range'_1, not_and_or, Nat.not_le, Nat.not_lt]
    at hOutside
  unfold overlap
  rcases hOutside with hBefore | hBehind
  · have hEnd : (j + 1) * d ≤ i * s / d * d :=
      Nat.mul_le_mul_right d hBefore
    have hFront := Nat.div_mul_le_self (i * s) d
    omega
  · have hDivide := Nat.div_add_mod ((i + 1) * s + d - 1) d
    have hRest := Nat.mod_lt ((i + 1) * s + d - 1) hPos
    have hBegin : ((i + 1) * s + d - 1) / d * d ≤ j * d := by
      apply Nat.mul_le_mul_right d
      omega
    rw [Nat.mul_comm] at hDivide
    omega

/- One cell among others counts what it has in common. -/
theorem sum_overlap_at
    (s : Nat)
    {d : Nat}
    (hPos : 0 < d)
    (i j : Nat) :
    ((cellsOf s d i).map fun k =>
      (if k = j then 1 else 0) * overlap s d i k).sum =
      overlap s d i j := by
  have hNodup : (cellsOf s d i).Nodup := List.nodup_range'
  have hZero := @overlap_eq_zero s d i j hPos
  generalize cellsOf s d i = cells at hNodup hZero
  induction cells with
  | nil => exact (hZero List.not_mem_nil).symm
  | cons k cells ih =>
      rcases List.nodup_cons.mp hNodup with ⟨hFirst, hRest⟩
      rw [List.map_cons, List.sum_cons]
      by_cases hSame : k = j
      · subst hSame
        have hOthers :
            (cells.map fun other =>
              (if other = k then 1 else 0) *
                overlap s d i other).sum = 0 := by
          apply List.sum_eq_zero
          intro value hValue
          rcases List.mem_map.mp hValue with ⟨other, hMem, rfl⟩
          have hOther : other ≠ k := by
            rintro rfl
            exact hFirst hMem
          rw [if_neg hOther, Nat.zero_mul]
        rw [if_pos rfl, hOthers, Nat.one_mul, Nat.add_zero]
      · rw [if_neg hSame, Nat.zero_mul, Nat.zero_add]
        apply ih hRest
        intro hOutside
        apply hZero
        rw [List.mem_cons, not_or]
        exact ⟨fun hEq => hSame hEq.symm, hOutside⟩

/- All cells of a line take a cell of the other grid. -/
theorem sum_overlap_cells
    {s d j : Nat}
    (hCell : j < s) :
    ((List.range d).map fun i => overlap s d i j).sum = d := by
  have hEnd : (j + 1) * d ≤ d * s := by
    rw [Nat.mul_comm d s]
    exact Nat.mul_le_mul_right d hCell
  have hLength : (j + 1) * d = j * d + d := Nat.succ_mul j d
  have hSum :=
    @sum_inCell_cover (j * d) ((j + 1) * d) s 0 d (by omega)
      (by omega) (by rw [Nat.zero_add]; exact hEnd)
  rw [List.range_eq_range']
  simp only [overlap_comm s d, overlap_eq_inCell]
  rw [hSum]
  omega

/- In two equal grids a cell meets itself and no other. -/
theorem eq_of_overlap_self
    {s i j : Nat}
    (hOverlap : overlap s s i j ≠ 0) :
    i = j := by
  unfold overlap at hOverlap
  have hFront : i * s < (j + 1) * s := by omega
  have hBack : j * s < (i + 1) * s := by omega
  have hLow := Nat.lt_of_mul_lt_mul_right hFront
  have hHigh := Nat.lt_of_mul_lt_mul_right hBack
  omega

end Grid

end MicaBoards
