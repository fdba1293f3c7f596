import Mathlib.Data.Nat.Init

/-
  Sequences of states with a measure that every step lowers
  until one stops.

  Main declarations:
    * `exists_stop_of_rank`
    * `not_forall_continue_of_rank`
-/

------------------------------------------------------------
-- Descent
------------------------------------------------------------

namespace MicaBoards

namespace Descent

variable {Ranked : Nat → Nat → Prop}

variable {Stops Continues : Nat → Prop}

/-
  When a ranked index stops, or continues with a lower rank
  at the next index, one within the first rank stops.
-/
theorem exists_stop_of_rank
    (hStep : ∀ k n,
      Ranked k n →
      Stops k ∨
        Continues k ∧ ∃ m < n, Ranked (k + 1) m)
    {start rank : Nat}
    (hStart : Ranked start rank) :
    ∃ k ≤ rank,
      Stops (start + k) ∧
        ∀ j < k, Continues (start + j) := by
  induction rank using Nat.strong_induction_on
    generalizing start with
  | _ rank ih =>
      rcases hStep start rank hStart with
        hStop | ⟨hContinue, lower, hLower, hNext⟩
      · exact ⟨0, by omega, hStop, by omega⟩
      · rcases ih lower hLower hNext with
          ⟨k, hk, hStop, hEarlier⟩
        refine ⟨k + 1, by omega, ?_, ?_⟩
        · rwa [Nat.add_assoc, Nat.add_comm 1 k] at hStop
        · intro j hj
          cases j with
          | zero => exact hContinue
          | succ j =>
              have hBefore := hEarlier j (by omega)
              rwa [Nat.add_assoc, Nat.add_comm 1 j]
                at hBefore

/- No ranked index is followed by continuing ones only. -/
theorem not_forall_continue_of_rank
    (hStep : ∀ k n,
      Ranked k n → Continues k →
      ∃ m < n, Ranked (k + 1) m)
    {start rank : Nat}
    (hStart : Ranked start rank) :
    ¬ ∀ k, start ≤ k → Continues k := by
  intro hAll
  have hEither :
      ∀ k n,
        Ranked k n →
        ¬ Continues k ∨
          Continues k ∧ ∃ m < n, Ranked (k + 1) m := by
    intro k n hRanked
    by_cases hContinue : Continues k
    · exact Or.inr ⟨hContinue, hStep k n hRanked hContinue⟩
    · exact Or.inl hContinue
  rcases exists_stop_of_rank hEither hStart with
    ⟨k, _, hStop, _⟩
  exact hStop (hAll (start + k) (Nat.le_add_right start k))

end Descent

end MicaBoards
