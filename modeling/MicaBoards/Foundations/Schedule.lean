import Mathlib.Data.List.Basic

/-
  Systems that take one action after another. A schedule says
  which; for several processes it says who acts, so a
  statement about every schedule is one about every
  interleaving.

  Main declarations:
    * `Schedule.run`
    * `Schedule.Along`
    * `Schedule.Along.invariant`
    * `Schedule.Along.leads`
    * `Schedule.finishes`
-/

------------------------------------------------------------
-- Schedules
------------------------------------------------------------

namespace MicaBoards

namespace Schedule

variable {σ α : Type}

variable (step : σ → α → σ)

/- The state after the actions of a schedule. -/
def run (state : σ) (schedule : List α) : σ :=
  schedule.foldl step state

/-
  Every action of the schedule meets a condition in the state
  in which it is taken.
-/
def Along (P : σ → α → Prop) : σ → List α → Prop
| _, [] => True
| state, action :: rest =>
    P state action ∧ Along P (step state action) rest

variable {step}
variable {P : σ → α → Prop}

@[simp] theorem run_nil (state : σ) :
    run step state [] = state := rfl

@[simp] theorem run_cons
    (state : σ)
    (action : α)
    (rest : List α) :
    run step state (action :: rest) =
      run step (step state action) rest := rfl

/- A schedule is its first part and then the rest. -/
theorem run_append
    (state : σ)
    (front back : List α) :
    run step state (front ++ back) =
      run step (run step state front) back :=
  List.foldl_append

theorem along_append
    {state : σ}
    {front back : List α} :
    Along step P state (front ++ back) ↔
      Along step P state front ∧
        Along step P (run step state front) back := by
  induction front generalizing state with
  | nil => simp [Along]
  | cons action front ih => simp [Along, ih, and_assoc]

/- What every action keeps, the schedule keeps. -/
theorem Along.invariant
    {I : σ → Prop}
    (hStep : ∀ state action,
      I state → P state action → I (step state action))
    {state : σ}
    {schedule : List α}
    (hAlong : Along step P state schedule)
    (hState : I state) :
    I (run step state schedule) := by
  induction schedule generalizing state with
  | nil => exact hState
  | cons action rest ih =>
      exact
        ih hAlong.2 (hStep state action hState hAlong.1)

/-
  A relation of the states before and after an action is one
  of the states before and after the schedule.
-/
theorem Along.leads
    {I : σ → Prop}
    {R : σ → σ → Prop}
    (hRefl : ∀ state, R state state)
    (hTrans : ∀ first second third,
      R first second → R second third → R first third)
    (hStep : ∀ state action,
      I state → P state action →
      I (step state action) ∧ R state (step state action))
    {state : σ}
    {schedule : List α}
    (hAlong : Along step P state schedule)
    (hState : I state) :
    R state (run step state schedule) := by
  induction schedule generalizing state with
  | nil => exact hRefl state
  | cons action rest ih =>
      rcases hStep state action hState hAlong.1 with
        ⟨hNext, hFirst⟩
      exact hTrans _ _ _ hFirst (ih hAlong.2 hNext)

/- A condition of the actions alone holds along a schedule. -/
theorem along_of_mem
    {schedule : List α}
    (hAlways : ∀ action ∈ schedule, ∀ state, P state action)
    (state : σ) :
    Along step P state schedule := by
  induction schedule generalizing state with
  | nil => trivial
  | cons action rest ih =>
      exact
        ⟨hAlways action (.head _) state,
          ih (fun next hNext => hAlways next (.tail _ hNext)) _⟩

/- A condition that always holds does along a schedule. -/
theorem along_of_forall
    (hAlways : ∀ state action, P state action)
    (state : σ)
    (schedule : List α) :
    Along step P state schedule :=
  along_of_mem (fun action _ state => hAlways state action) state

/- Without a condition every schedule will do. -/
theorem along_true
    (state : σ)
    (schedule : List α) :
    Along step (fun _ _ => True) state schedule := by
  induction schedule generalizing state with
  | nil => trivial
  | cons action rest ih => exact ⟨trivial, ih _⟩

------------------------------------------------------------
-- Progress
------------------------------------------------------------

/-
  Where no action raises a rank until one process is done, and
  those of that process lower it, the process is done when it
  has taken more actions than the rank.
-/
theorem finishes
    {I Done : σ → Prop}
    {rank : σ → Nat}
    {mine : α → Bool}
    (hStep : ∀ state action,
      I state →
      I (step state action) ∧
        (Done state ∨ rank (step state action) ≤ rank state))
    (hMine : ∀ state action,
      I state → mine action = true →
      Done state ∨ rank (step state action) < rank state)
    (hDone : ∀ state action,
      I state → Done state → Done (step state action))
    {state : σ}
    {schedule : List α}
    (hState : I state)
    (hEnough : rank state < schedule.countP mine) :
    I (run step state schedule) ∧ Done (run step state schedule) := by
  have hKeeps :
      ∀ (schedule : List α) (state : σ),
        I state → Done state →
        I (run step state schedule) ∧
          Done (run step state schedule) := by
    intro schedule
    induction schedule with
    | nil => exact fun _ hState hDone => ⟨hState, hDone⟩
    | cons action rest ih =>
        intro state hState hNow
        exact
          ih _ (hStep state action hState).1
            (hDone state action hState hNow)
  induction schedule generalizing state with
  | nil => simp at hEnough
  | cons action rest ih =>
      rcases hStep state action hState with ⟨hNext, hNow | hLess⟩
      · exact
          hKeeps rest _ hNext (hDone state action hState hNow)
      rw [List.countP_cons] at hEnough
      cases hTurn : mine action with
      | false =>
          rw [hTurn] at hEnough
          simp only [Bool.false_eq_true, if_false, Nat.add_zero]
            at hEnough
          exact ih hNext (Nat.lt_of_le_of_lt hLess hEnough)
      | true =>
          rw [hTurn, if_pos rfl] at hEnough
          rcases hMine state action hState hTurn with
            hNow | hLower
          · exact
              hKeeps rest _ hNext
                (hDone state action hState hNow)
          · exact ih hNext (by omega)

end Schedule

end MicaBoards
