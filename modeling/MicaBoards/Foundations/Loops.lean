import Mathlib.Data.List.Basic

/-
  Loops over a list whose body may stop with an error.

  Main declarations:
    * `mapM_eq_some`
    * `exists_of_mapM`, `mem_of_mapM`
    * `foldlM_eq_some`
-/

------------------------------------------------------------
-- Loops Without Errors
------------------------------------------------------------

namespace MicaBoards

namespace Loops

variable {α β : Type}

/- A loop that makes a list, and never stops, is a map. -/
theorem mapM_eq_some
    {f : α → Option β}
    {g : α → β}
    {xs : List α}
    (hBody : ∀ x ∈ xs, f x = some (g x)) :
    xs.mapM f = some (xs.map g) := by
  induction xs with
  | nil => rfl
  | cons x xs ih =>
      rcases List.forall_mem_cons.mp hBody with ⟨hX, hXs⟩
      rw [List.mapM_cons, hX, ih hXs]
      rfl

/- A loop that did not stop went through every turn. -/
theorem exists_of_mapM
    {f : α → Option β}
    {xs : List α}
    {ys : List β}
    (hLoop : xs.mapM f = some ys)
    {x : α}
    (hX : x ∈ xs) :
    ∃ y, f x = some y := by
  induction xs generalizing ys with
  | nil => cases hX
  | cons head xs ih =>
      rw [List.mapM_cons] at hLoop
      rcases Option.bind_eq_some_iff.mp hLoop with
        ⟨y, hHead, hLoop⟩
      rcases Option.bind_eq_some_iff.mp hLoop with
        ⟨zs, hXs, _⟩
      rcases List.mem_cons.mp hX with rfl | hX
      · exact ⟨y, hHead⟩
      · exact ih hXs hX

/- What a loop that did not stop has made -/
theorem mem_of_mapM
    {f : α → Option β}
    {xs : List α}
    {ys : List β}
    (hLoop : xs.mapM f = some ys)
    (y : β) :
    y ∈ ys ↔ ∃ x ∈ xs, f x = some y := by
  induction xs generalizing ys with
  | nil =>
      obtain rfl := Option.some.inj hLoop
      simp
  | cons x xs ih =>
      rw [List.mapM_cons] at hLoop
      rcases Option.bind_eq_some_iff.mp hLoop with
        ⟨z, hX, hLoop⟩
      rcases Option.bind_eq_some_iff.mp hLoop with
        ⟨zs, hXs, hLoop⟩
      obtain rfl := Option.some.inj hLoop
      rw [List.mem_cons, ih hXs, List.exists_mem_cons_iff,
        hX, Option.some_inj, eq_comm]

/- A loop with an accumulator that never stops is a fold. -/
theorem foldlM_eq_some
    {f : β → α → Option β}
    {g : β → α → β}
    {xs : List α}
    (hBody : ∀ x ∈ xs, ∀ acc, f acc x = some (g acc x))
    (acc : β) :
    xs.foldlM f acc = some (xs.foldl g acc) := by
  induction xs generalizing acc with
  | nil => rfl
  | cons x xs ih =>
      rcases List.forall_mem_cons.mp hBody with ⟨hX, hXs⟩
      rw [List.foldlM_cons, hX, List.foldl_cons]
      exact ih hXs _

end Loops

end MicaBoards
