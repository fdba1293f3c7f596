import Mathlib.Data.List.Basic

/-
  Exact reads from a channel whose data arrives in fragments.

  A channel is what happens while it is read: fragments
  arrive, a wait is interrupted, or a read fails. Where the
  list ends nothing else happens before the deadline. What has
  arrived is the data before the first failure, and an exact
  read takes it off the front, however it is fragmented.

  Main declarations:
    * `Arrival`, `arrived`
    * `readExact`, `readExactPart`
    * `readExact_eq_some_iff`
-/

------------------------------------------------------------
-- Arrivals
------------------------------------------------------------

namespace MicaBoards

/- What happens to a reader that waits for data. -/
inductive Arrival (α : Type) where
| data (fragment : List α)
/- a wait without data, and whether the reader goes on -/
| interrupted (running : Bool)
/- an error, the end of the data, or the deadline -/
| failed
deriving DecidableEq, Repr

namespace Arrival

variable {α : Type}

/- The data that a reader can have. -/
def arrived : List (Arrival α) → List α
| [] => []
| .data fragment :: coming => fragment ++ arrived coming
| .interrupted running :: coming =>
    if running then arrived coming else []
| .failed :: _ => []

/-
  Read until so many elements are there: the elements, and
  the channel after them. A fragment that is longer than what
  is wanted stays in the channel behind that.
-/
def readExact
    (len : Nat)
    (coming : List (Arrival α)) :
    Option (List α × List (Arrival α)) :=
  if len = 0 then
    some ([], coming)
  else
    match coming with
    | [] => none
    | .data fragment :: coming =>
        if fragment.length ≤ len then
          (readExact (len - fragment.length) coming).map
            fun (done, coming) => (fragment ++ done, coming)
        else
          some (fragment.take len,
            .data (fragment.drop len) :: coming)
    | .interrupted running :: coming =>
        if running then readExact len coming else none
    | .failed :: _ => none

/-
  What such a read has taken when it returns, whether it has
  succeeded or not, and the channel after it.
-/
def readExactPart
    (len : Nat)
    (coming : List (Arrival α)) :
    List α × List (Arrival α) :=
  if len = 0 then
    ([], coming)
  else
    match coming with
    | [] => ([], [])
    | .data fragment :: coming =>
        if fragment.length ≤ len then
          let (done, coming) :=
            readExactPart (len - fragment.length) coming
          (fragment ++ done, coming)
        else
          (fragment.take len,
            .data (fragment.drop len) :: coming)
    | .interrupted running :: coming =>
        if running then readExactPart len coming
        else ([], coming)
    | .failed :: coming => ([], coming)

------------------------------------------------------------
-- Reads
------------------------------------------------------------

theorem readExact_zero (coming : List (Arrival α)) :
    readExact 0 coming = some ([], coming) := by
  unfold readExact
  exact if_pos rfl

/- A read takes what is wanted off the front. -/
theorem readExact_of_eq_append
    {len : Nat}
    {coming : List (Arrival α)}
    {done rest : List α}
    (hLength : done.length = len)
    (hArrived : arrived coming = done ++ rest) :
    ∃ left, readExact len coming = some (done, left) ∧
      arrived left = rest := by
  induction coming generalizing len done with
  | nil =>
      have hEmpty : done = [] ∧ rest = [] :=
        List.append_eq_nil_iff.mp hArrived.symm
      rw [hEmpty.1] at hLength ⊢
      rw [← hLength, hEmpty.2]
      exact ⟨[], readExact_zero [], rfl⟩
  | cons arrival coming ih =>
      by_cases hZero : len = 0
      · subst hZero
        have hDone := List.eq_nil_of_length_eq_zero hLength
        subst hDone
        exact ⟨_, readExact_zero _, hArrived⟩
      unfold readExact
      rw [if_neg hZero]
      cases arrival with
      | data fragment =>
          change fragment ++ arrived coming = _ at hArrived
          by_cases hShort : fragment.length ≤ len
          · have hFront : fragment <+: done := by
              apply List.prefix_of_prefix_length_le
                (List.prefix_append fragment (arrived coming))
              · rw [hArrived]
                exact List.prefix_append done rest
              · rw [hLength]
                exact hShort
            rcases hFront with ⟨more, hMore⟩
            rw [← hMore, List.append_assoc] at hArrived
            rw [← hMore, List.length_append] at hLength
            rcases ih (Nat.eq_sub_of_add_eq' hLength)
              (List.append_cancel_left hArrived) with
              ⟨left, hRead, hLeft⟩
            refine ⟨left, ?_, hLeft⟩
            simp [hShort, hRead, ← hMore]
          · have hFront : done <+: fragment := by
              apply List.prefix_of_prefix_length_le
                (List.prefix_append done rest)
              · rw [← hArrived]
                exact List.prefix_append fragment _
              · rw [hLength]
                exact (Nat.le_of_not_ge hShort)
            rcases hFront with ⟨more, rfl⟩
            rw [List.append_assoc] at hArrived
            refine ⟨.data more :: coming, ?_,
              List.append_cancel_left hArrived⟩
            subst hLength
            simp only [if_neg hShort, List.take_left,
              List.drop_left]
      | interrupted running =>
          cases running with
          | true => exact ih hLength hArrived
          | false =>
              have hEmpty : done = [] ∧ rest = [] :=
                List.append_eq_nil_iff.mp hArrived.symm
              rw [hEmpty.1] at hLength
              exact absurd hLength.symm hZero
      | failed =>
          have hEmpty : done = [] ∧ rest = [] :=
            List.append_eq_nil_iff.mp hArrived.symm
          rw [hEmpty.1] at hLength
          exact absurd hLength.symm hZero

/- What is read had arrived, and no more is gone. -/
theorem arrived_of_readExact
    {len : Nat}
    {coming left : List (Arrival α)}
    {done : List α}
    (hRead : readExact len coming = some (done, left)) :
    done.length = len ∧
      arrived coming = done ++ arrived left := by
  induction coming generalizing len done with
  | nil =>
      unfold readExact at hRead
      split_ifs at hRead with hZero
      cases hRead
      exact ⟨hZero.symm, rfl⟩
  | cons arrival coming ih =>
      unfold readExact at hRead
      split_ifs at hRead with hZero
      · cases hRead
        exact ⟨hZero.symm, rfl⟩
      cases arrival with
      | data fragment =>
          simp only at hRead
          split_ifs at hRead with hShort
          · rcases Option.map_eq_some_iff.mp hRead with
              ⟨⟨more, left'⟩, hMore, hDone⟩
            cases hDone
            rcases ih hMore with ⟨hLength, hArrived⟩
            refine ⟨?_, ?_⟩
            · rw [List.length_append, hLength]
              exact Nat.add_sub_cancel' hShort
            · rw [arrived, hArrived, List.append_assoc]
          · cases hRead
            refine ⟨?_, ?_⟩
            · exact List.length_take_of_le
                (Nat.le_of_not_ge hShort)
            · rw [arrived, arrived, ← List.append_assoc,
                List.take_append_drop]
      | interrupted running =>
          cases running with
          | true => exact ih hRead
          | false => cases hRead
      | failed => cases hRead

/- A read that succeeds has taken what it returns. -/
theorem readExactPart_of_readExact
    {len : Nat}
    {coming left : List (Arrival α)}
    {done : List α}
    (hRead : readExact len coming = some (done, left)) :
    readExactPart len coming = (done, left) := by
  induction coming generalizing len done with
  | nil =>
      unfold readExact at hRead
      unfold readExactPart
      split_ifs at hRead ⊢ with hZero
      exact Option.some.inj hRead
  | cons arrival coming ih =>
      unfold readExact at hRead
      unfold readExactPart
      split_ifs at hRead ⊢ with hZero
      · exact Option.some.inj hRead
      cases arrival with
      | data fragment =>
          simp only at hRead ⊢
          split_ifs at hRead ⊢ with hShort
          · rcases Option.map_eq_some_iff.mp hRead with
              ⟨⟨more, left'⟩, hMore, hDone⟩
            cases hDone
            rw [ih hMore]
          · exact Option.some.inj hRead
      | interrupted running =>
          cases running with
          | true => exact ih hRead
          | false => cases hRead
      | failed => cases hRead

/-
  A read succeeds if and only if so much has arrived, and
  what is left arrives to the next one.
-/
theorem readExact_eq_some_iff
    (len : Nat)
    (coming : List (Arrival α))
    (done rest : List α) :
    (∃ left, readExact len coming = some (done, left) ∧
      arrived left = rest) ↔
      done.length = len ∧ arrived coming = done ++ rest := by
  constructor
  · rintro ⟨left, hRead, rfl⟩
    exact arrived_of_readExact hRead
  · rintro ⟨hLength, hArrived⟩
    exact readExact_of_eq_append hLength hArrived

end Arrival

end MicaBoards
