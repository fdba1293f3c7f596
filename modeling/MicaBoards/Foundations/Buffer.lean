import Mathlib.Data.List.Basic
import Mathlib.Order.Basic

/-
  Byte buffers as lists, with C's copy into the middle of a
  buffer.

  Main declarations:
    * `copyAt`
    * `length_copyAt`
    * `take_copyAt`
    * `copyAt_append`
-/

------------------------------------------------------------
-- Copies
------------------------------------------------------------

namespace MicaBoards

namespace Buffer

variable {α : Type}

/- `memcpy(buffer + offset, source, length of source)` -/
def copyAt
    (buffer : List α)
    (offset : Nat)
    (source : List α) : List α :=
  buffer.take offset ++ source ++
    buffer.drop (offset + source.length)

/- A copy within the buffer keeps its length. -/
theorem length_copyAt
    {buffer : List α}
    {offset : Nat}
    {source : List α}
    (hRoom : offset + source.length ≤ buffer.length) :
    (copyAt buffer offset source).length =
      buffer.length := by
  simp only [copyAt, List.length_append, List.length_take,
    List.length_drop]
  omega

/- Up to the end of the copy: the old front and the source. -/
theorem take_copyAt
    {buffer : List α}
    {offset : Nat}
    (source : List α)
    (hOffset : offset ≤ buffer.length) :
    (copyAt buffer offset source).take
        (offset + source.length) =
      buffer.take offset ++ source := by
  apply List.take_left'
  simp only [List.length_append, List.length_take]
  omega

/- A copy right after the front replaces what follows it. -/
theorem copyAt_append
    (front source rest : List α) :
    copyAt (front ++ rest) front.length source =
      front ++ source ++ rest.drop source.length := by
  simp [copyAt, ← List.drop_drop]

/- A copy into a run of one byte shortens the run. -/
theorem copyAt_append_replicate
    (front source : List α)
    (n : Nat)
    (x : α) :
    copyAt (front ++ List.replicate n x) front.length source =
      front ++ source ++
        List.replicate (n - source.length) x := by
  simp [copyAt_append]

end Buffer

end MicaBoards
