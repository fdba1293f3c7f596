import Mathlib.Data.List.Basic

/-
  A text that is made of blocks of one length, each from an
  element of a list.

  Main declarations:
    * `Blocks.drop_flatMap`
    * `Blocks.getElem?_flatMap`
    * `Blocks.take_drop_flatMap`
    * `Blocks.map_eq_of_flatMap_eq`
-/

------------------------------------------------------------
-- Blocks
------------------------------------------------------------

namespace MicaBoards

namespace Blocks

variable {α β : Type}
variable {f : α → List β} {n : Nat}

theorem length_flatMap
    {xs : List α}
    (hLength : ∀ x ∈ xs, (f x).length = n) :
    (xs.flatMap f).length = xs.length * n := by
  induction xs with
  | nil => exact (Nat.zero_mul n).symm
  | cons x xs ih =>
      rcases List.forall_mem_cons.mp hLength with ⟨hX, hXs⟩
      rw [List.flatMap_cons, List.length_append, hX, ih hXs,
        List.length_cons, Nat.succ_mul, Nat.add_comm]

/- Whole blocks off the front. -/
theorem drop_flatMap
    {xs : List α}
    (hLength : ∀ x ∈ xs, (f x).length = n)
    (i : Nat) :
    (xs.flatMap f).drop (i * n) = (xs.drop i).flatMap f := by
  induction i generalizing xs with
  | zero => rw [Nat.zero_mul, List.drop_zero, List.drop_zero]
  | succ i ih =>
      cases xs with
      | nil => simp
      | cons x xs =>
          rcases List.forall_mem_cons.mp hLength with ⟨hX, hXs⟩
          rw [Nat.succ_mul, Nat.add_comm, List.flatMap_cons,
            ← List.drop_drop, List.drop_left' hX, ih hXs,
            List.drop_succ_cons]

/- What is in a block. -/
theorem getElem?_flatMap
    {xs : List α}
    (hLength : ∀ x ∈ xs, (f x).length = n)
    {i k : Nat}
    {x : α}
    (hX : xs[i]? = some x)
    (hK : k < n) :
    (xs.flatMap f)[i * n + k]? = (f x)[k]? := by
  rcases List.getElem?_eq_some_iff.mp hX with ⟨hIndex, hGet⟩
  have hBlock : k < (f x).length := by
    rw [hLength x (List.mem_of_getElem? hX)]
    exact hK
  rw [← List.getElem?_drop, drop_flatMap hLength,
    List.drop_eq_getElem_cons hIndex, hGet, List.flatMap_cons,
    List.getElem?_append_left hBlock]

/- A block, and a piece at its front. -/
theorem take_drop_flatMap
    {xs : List α}
    (hLength : ∀ x ∈ xs, (f x).length = n)
    {i : Nat}
    {x : α}
    (hX : xs[i]? = some x) :
    ((xs.flatMap f).drop (i * n)).take n = f x := by
  rcases List.getElem?_eq_some_iff.mp hX with ⟨hIndex, hGet⟩
  rw [drop_flatMap hLength, List.drop_eq_getElem_cons hIndex,
    hGet, List.flatMap_cons]
  exact List.take_left' (hLength x (List.mem_of_getElem? hX))

/- Texts of as many blocks that are the same have the same. -/
theorem map_eq_of_flatMap_eq
    {xs ys : List α}
    (hXs : ∀ x ∈ xs, (f x).length = n)
    (hYs : ∀ y ∈ ys, (f y).length = n)
    (hCount : xs.length = ys.length)
    (hSame : xs.flatMap f = ys.flatMap f) :
    xs.map f = ys.map f := by
  induction xs generalizing ys with
  | nil => rw [List.length_eq_zero_iff.mp hCount.symm]
  | cons x xs ih =>
      cases ys with
      | nil => cases hCount
      | cons y ys =>
          rcases List.forall_mem_cons.mp hXs with ⟨hX, hXs⟩
          rcases List.forall_mem_cons.mp hYs with ⟨hY, hYs⟩
          rcases List.append_inj hSame (hX.trans hY.symm) with
            ⟨hBlock, hRest⟩
          rw [List.map_cons, List.map_cons, hBlock,
            ih hXs hYs (Nat.succ.inj hCount) hRest]

end Blocks

end MicaBoards
