import Mathlib.Data.List.Basic

/-
  Programs that read memory through a pointer. The memory is
  given as far as it may be read: a program that reads on is
  `outside`. A cursor is such a pointer with the distance to
  the end of the text it points into.

  A program agrees with a function on the text itself if it
  never gets outside and comes to the same result, and then
  the two may be exchanged.

  Main declarations:
    * `Reading`
    * `Cursor`
    * `Reading.Agrees`
    * `Reading.Agrees.bind`
-/

------------------------------------------------------------
-- Reading
------------------------------------------------------------

namespace MicaBoards

/- How a program that reads memory ends. -/
inductive Reading (α : Type) where
/- it has read where it may not -/
| outside
/- it refuses what it has read -/
| refused
| done (value : α)
deriving DecidableEq, Repr

namespace Reading

variable {α β : Type}

/- One program after another. -/
def bind
    (program : Reading α)
    (next : α → Reading β) : Reading β :=
  match program with
  | .outside => .outside
  | .refused => .refused
  | .done value => next value

instance : Monad Reading where
  pure := .done
  bind := Reading.bind

@[simp] theorem done_bind
    (value : α)
    (next : α → Reading β) :
    (Reading.done value >>= next) = next value := rfl

@[simp] theorem refused_bind
    (next : α → Reading β) :
    ((Reading.refused : Reading α) >>= next) = .refused := rfl

@[simp] theorem pure_eq (value : α) :
    (pure value : Reading α) = .done value := rfl

/- The element at an index. -/
def peek
    (memory : List α)
    (index : Nat) : Reading α :=
  match memory[index]? with
  | none => .outside
  | some value => .done value

theorem peek_of_lt
    {memory : List α}
    {index : Nat}
    (hIndex : index < memory.length) :
    peek memory index = .done memory[index] := by
  simp [peek, hIndex]

/- A result that may be missing, of a program that refuses. -/
def ofOption : Option α → Reading α
| none => .refused
| some value => .done value

end Reading

------------------------------------------------------------
-- Cursors
------------------------------------------------------------

/- The memory from a pointer on, and how far the text goes. -/
structure Cursor (α : Type) where
  memory : List α
  left : Nat
deriving DecidableEq, Repr

namespace Cursor

variable {α : Type}

/- The text that is left. -/
def text (cursor : Cursor α) : List α :=
  cursor.memory.take cursor.left

/- The text may be read. -/
def Within (cursor : Cursor α) : Prop :=
  cursor.left ≤ cursor.memory.length

/- `p += count` -/
def advance (cursor : Cursor α) (count : Nat) : Cursor α :=
  ⟨cursor.memory.drop count, cursor.left - count⟩

theorem length_text
    {cursor : Cursor α}
    (hWithin : cursor.Within) :
    cursor.text.length = cursor.left := by
  rw [text, List.length_take, Nat.min_eq_left hWithin]

theorem text_advance
    (cursor : Cursor α)
    (count : Nat) :
    (cursor.advance count).text = cursor.text.drop count := by
  rw [text, text, advance, List.drop_take]

theorem Within.advance
    {cursor : Cursor α}
    (hWithin : cursor.Within)
    (count : Nat) :
    (cursor.advance count).Within := by
  have hLeft : cursor.left ≤ cursor.memory.length := hWithin
  simp only [Within, Cursor.advance, List.length_drop]
  omega

/- What is read within the text is of the text. -/
theorem peek_of_lt
    {cursor : Cursor α}
    {index : Nat}
    {value : α}
    (hValue : cursor.text[index]? = some value) :
    Reading.peek cursor.memory index = .done value := by
  have hMemory : cursor.memory[index]? = some value := by
    rw [text, List.getElem?_take] at hValue
    split_ifs at hValue
    exact hValue
  simp [Reading.peek, hMemory]

end Cursor

------------------------------------------------------------
-- Agreement
------------------------------------------------------------

namespace Reading

variable {α β γ : Type}

/-
  A program that advances a cursor comes to the result of a
  function that returns the text behind what it took.
-/
def Agrees
    (program : Reading (α × Cursor γ))
    (result : Option (α × List γ)) : Prop :=
  match result with
  | none => program = .refused
  | some (value, rest) =>
      ∃ cursor, program = .done (value, cursor) ∧
        cursor.text = rest ∧ cursor.Within

theorem agrees_refused :
    Agrees (.refused : Reading (α × Cursor γ)) none := rfl

theorem agrees_done
    {value : α}
    {cursor : Cursor γ}
    {rest : List γ}
    (hText : cursor.text = rest)
    (hWithin : cursor.Within) :
    Agrees (.done (value, cursor)) (some (value, rest)) :=
  ⟨cursor, rfl, hText, hWithin⟩

/- Programs that agree step by step agree. -/
theorem Agrees.bind
    {program : Reading (α × Cursor γ)}
    {result : Option (α × List γ)}
    {next : α × Cursor γ → Reading (β × Cursor γ)}
    {rest : α × List γ → Option (β × List γ)}
    (hProgram : Agrees program result)
    (hNext : ∀ value cursor, cursor.Within →
      Agrees (next (value, cursor)) (rest (value, cursor.text))) :
    Agrees (program >>= next) (result.bind rest) := by
  cases result with
  | none =>
      rw [Agrees] at hProgram
      rw [hProgram]
      exact agrees_refused
  | some pair =>
      rcases pair with ⟨value, text⟩
      rcases hProgram with ⟨cursor, hDone, hText, hWithin⟩
      rw [hDone, ← hText]
      exact hNext value cursor hWithin

end Reading

end MicaBoards
