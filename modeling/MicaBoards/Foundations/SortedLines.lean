import Mathlib.Data.List.Dedup
import Mathlib.Data.List.Sort
import MicaBoards.Foundations.Text

/-
  Lines in the order of `sort` under `LC_ALL=C`.

  Main declarations:
    * `sortedLines`
    * `sortedLines_eq_self`
    * `sortedLines_eq_iff`
    * `sortedOnce`, `mem_sortedOnce`
-/

------------------------------------------------------------
-- Sorted Lines
------------------------------------------------------------

namespace MicaBoards

namespace Text

/- `sort` -/
def sortedLines (lines : List Bytes) : List Bytes :=
  lines.insertionSort (· ≤ ·)

instance lines_total : Std.Total fun x y : Bytes => x ≤ y where
  total := List.le_total

instance lines_trans : IsTrans Bytes fun x y => x ≤ y where
  trans _ _ _ := List.le_trans

theorem perm_sortedLines (lines : List Bytes) :
    (sortedLines lines).Perm lines :=
  List.perm_insertionSort _ lines

theorem pairwise_sortedLines (lines : List Bytes) :
    (sortedLines lines).Pairwise (· ≤ ·) :=
  List.pairwise_insertionSort (fun x y : Bytes => x ≤ y) lines

/- Lines in order are sorted. -/
theorem sortedLines_eq_self
    {lines : List Bytes}
    (hSorted : lines.Pairwise (· ≤ ·)) :
    sortedLines lines = lines := by
  have hLines : lines.Pairwise fun x y => x ≤ y := hSorted
  rw [sortedLines, List.Pairwise.insertionSort_eq hLines]

/- Sorted lines are the same when the lines are, in any order. -/
theorem sortedLines_eq_iff {lines others : List Bytes} :
    sortedLines lines = sortedLines others ↔
      lines.Perm others := by
  constructor
  · intro hEq
    have hPerm := perm_sortedLines lines
    rw [hEq] at hPerm
    exact hPerm.symm.trans (perm_sortedLines others)
  · intro hPerm
    refine List.Perm.eq_of_pairwise ?_
      (pairwise_sortedLines lines) (pairwise_sortedLines others) ?_
    · exact fun _ _ _ _ => List.le_antisymm
    · exact (perm_sortedLines lines).trans
        (hPerm.trans (perm_sortedLines others).symm)

------------------------------------------------------------
-- Sorted Lines, Once Each
------------------------------------------------------------

/- `sort -u` -/
def sortedOnce (lines : List Bytes) : List Bytes :=
  (sortedLines lines).dedup

theorem mem_sortedOnce
    {lines : List Bytes}
    {line : Bytes} :
    line ∈ sortedOnce lines ↔ line ∈ lines := by
  rw [sortedOnce, List.mem_dedup, (perm_sortedLines lines).mem_iff]

end Text

end MicaBoards
