import Mathlib.Data.List.Basic

/-
  Lists of fields in lexicographic order, and the same fields
  joined by a separator: where the separator is less than all
  that the fields hold, both orders are the same.

  Main declarations:
    * `append_separator_lt_iff`
    * `intercalate_lt_iff`
    * `lt_of_append_le`
-/

------------------------------------------------------------
-- Joined Fields
------------------------------------------------------------

namespace MicaBoards

variable {α : Type}
variable [LT α] [LE α] [Std.IsLinearOrder α]
variable [Std.LawfulOrderLT α]

/- The separator ends a field. -/
theorem append_separator_lt_iff
    {separator : α}
    {x y : List α}
    (hX : ∀ a ∈ x, separator < a)
    (hY : ∀ a ∈ y, separator < a)
    (s t : List α) :
    x ++ separator :: s < y ++ separator :: t ↔
      x < y ∨ (x = y ∧ s < t) := by
  induction x generalizing y with
  | nil =>
      cases y with
      | nil =>
          simp [Std.lt_irrefl]
      | cons b y =>
          have hFirst : separator < b := hY b (by simp)
          simp [List.cons_lt_cons_iff, hFirst]
  | cons a x ih =>
      have hHead : separator < a := hX a (by simp)
      cases y with
      | nil =>
          have hNotLt : ¬ a < separator := Std.not_lt.mpr (Std.le_of_lt hHead)
          have hNe : a ≠ separator := by
            rintro rfl
            exact Std.lt_irrefl hHead
          simp [List.cons_lt_cons_iff, hNotLt, hNe]
      | cons b y =>
          have hRest :=
            @ih y (fun c hc => hX c (by simp [hc]))
              (fun c hc => hY c (by simp [hc]))
          rw [List.cons_append, List.cons_append,
            List.cons_lt_cons_iff, List.cons_lt_cons_iff, hRest,
            List.cons.injEq]
          constructor
          · rintro (hLt | ⟨rfl, hLt | ⟨rfl, hLt⟩⟩)
            · exact Or.inl (Or.inl hLt)
            · exact Or.inl (Or.inr ⟨rfl, hLt⟩)
            · exact Or.inr ⟨⟨rfl, rfl⟩, hLt⟩
          · rintro ((hLt | ⟨rfl, hLt⟩) | ⟨⟨hA, hX⟩, hLt⟩)
            · exact Or.inl hLt
            · exact Or.inr ⟨rfl, Or.inl hLt⟩
            · exact Or.inr ⟨hA, Or.inr ⟨hX, hLt⟩⟩

/- Joined fields are in the order of the fields. -/
theorem intercalate_lt_iff
    {separator : α}
    {xs ys : List (List α)}
    (hLength : xs.length = ys.length)
    (hXs : ∀ x ∈ xs, ∀ a ∈ x, separator < a)
    (hYs : ∀ y ∈ ys, ∀ a ∈ y, separator < a) :
    [separator].intercalate xs < [separator].intercalate ys ↔
      xs < ys := by
  induction xs generalizing ys with
  | nil =>
      rw [List.length_nil] at hLength
      rw [List.length_eq_zero_iff.mp hLength.symm]
      simp [List.lt_irrefl]
  | cons x xs ih =>
      cases ys with
      | nil => exact absurd hLength (by simp)
      | cons y ys =>
          have hRest :=
            @ih ys (by simpa using hLength)
              (fun z hz => hXs z (by simp [hz]))
              (fun z hz => hYs z (by simp [hz]))
          cases xs with
          | nil =>
              have hNil : ys = [] := by simpa using hLength.symm
              rw [hNil]
              simp [List.cons_lt_cons_iff, List.lt_irrefl]
          | cons x' xs =>
              cases ys with
              | nil => exact absurd hLength (by simp)
              | cons y' ys =>
                  have hJoin :=
                    append_separator_lt_iff
                      (hXs x (by simp)) (hYs y (by simp))
                      ([separator].intercalate (x' :: xs))
                      ([separator].intercalate (y' :: ys))
                  rw [List.intercalate_cons_cons,
                    List.intercalate_cons_cons,
                    List.append_assoc, List.append_assoc,
                    List.singleton_append,
                    List.singleton_append, hJoin, hRest,
                    ← List.cons_lt_cons_iff]

/- Different lists of one length are told before what follows. -/
theorem lt_of_append_le
    {xs ys s t : List α}
    (hLength : xs.length = ys.length)
    (hNe : xs ≠ ys)
    (hLe : xs ++ s ≤ ys ++ t) :
    xs < ys := by
  induction xs generalizing ys with
  | nil =>
      rw [List.length_nil] at hLength
      exact absurd (List.length_eq_zero_iff.mp hLength.symm).symm
        hNe
  | cons x xs ih =>
      cases ys with
      | nil => exact absurd hLength (by simp)
      | cons y ys =>
          rw [List.cons_append, List.cons_append,
            List.cons_le_cons_iff] at hLe
          rw [List.cons_lt_cons_iff]
          rcases hLe with hLt | ⟨rfl, hLe⟩
          · exact Or.inl hLt
          · refine Or.inr ⟨rfl, ih (by simpa using hLength) ?_ hLe⟩
            rintro rfl
            exact hNe rfl

end MicaBoards
