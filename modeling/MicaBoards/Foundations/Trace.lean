import Mathlib.Data.List.Basic

/-
  Finite traces, and properties of each step of a trace that
  may speak of the steps before it.

  Main declarations:
    * `Trace.Holds`
    * `Trace.holds_append`
    * `Trace.holds_of_invariant`
    * `Trace.Holds.take`
    * `Trace.holds_iff`
-/

------------------------------------------------------------
-- Properties Of The Steps
------------------------------------------------------------

namespace MicaBoards

namespace Trace

variable {α : Type}

variable {P Q : List α → α → Prop}

/- Every step has `P` of the steps before it. -/
def Holds
    (P : List α → α → Prop) :
    List α → List α → Prop
| _, [] => True
| past, step :: rest =>
    P past step ∧ Holds P (past ++ [step]) rest

@[simp] theorem holds_nil (past : List α) :
    Holds P past [] := trivial

@[simp] theorem holds_cons
    {past rest : List α}
    {step : α} :
    Holds P past (step :: rest) ↔
      P past step ∧ Holds P (past ++ [step]) rest := Iff.rfl

/- A property of a trace is one of its two parts. -/
theorem holds_append
    {past front back : List α} :
    Holds P past (front ++ back) ↔
      Holds P past front ∧
        Holds P (past ++ front) back := by
  induction front generalizing past with
  | nil => simp
  | cons step front ih =>
      simp [ih, and_assoc]

/- The property is that of each step of the trace. -/
theorem holds_iff
    {past trace : List α} :
    Holds P past trace ↔
      ∀ before step after,
        trace = before ++ step :: after →
        P (past ++ before) step := by
  induction trace generalizing past with
  | nil => simp
  | cons first rest ih =>
      rw [holds_cons, ih]
      constructor
      · rintro ⟨hFirst, hRest⟩ before step after hTrace
        cases before with
        | nil =>
            cases hTrace
            simpa using hFirst
        | cons head before =>
            cases hTrace
            simpa using hRest before step after rfl
      · intro hAll
        constructor
        · simpa using hAll [] first rest rfl
        · intro before step after hRest
          have hStep :=
            hAll (first :: before) step after (by simp [hRest])
          simpa using hStep

/-
  An invariant of the past that every step of the trace keeps
  and from which it has the property.
-/
theorem holds_of_invariant
    {I : List α → Prop}
    {past trace : List α}
    (hStep : ∀ past step,
      I past → step ∈ trace →
        P past step ∧ I (past ++ [step]))
    (hPast : I past) :
    Holds P past trace ∧ I (past ++ trace) := by
  induction trace generalizing past with
  | nil => simpa using hPast
  | cons step rest ih =>
      rcases hStep past step hPast (by simp) with
        ⟨hFirst, hNext⟩
      have hRest :=
        ih (fun past step' hPast hMem =>
          hStep past step' hPast (by simp [hMem])) hNext
      rw [List.append_assoc, List.singleton_append] at hRest
      exact ⟨⟨hFirst, hRest.1⟩, hRest.2⟩

/- A trace that is cut keeps the property. -/
theorem Holds.take
    {past trace : List α}
    (hHolds : Holds P past trace)
    (n : Nat) :
    Holds P past (trace.take n) := by
  rw [← List.take_append_drop n trace, holds_append] at hHolds
  exact hHolds.1

/- A property of all steps is kept by an implication. -/
theorem Holds.mono
    (hImp : ∀ past step, P past step → Q past step)
    {past trace : List α}
    (hHolds : Holds P past trace) :
    Holds Q past trace := by
  rw [holds_iff] at hHolds ⊢
  intro before step after hTrace
  exact hImp _ _ (hHolds before step after hTrace)

end Trace

end MicaBoards
