import MicaBoards.Locks.CheckLock

/-
  What the forms of fields allow: their bytes, and which form
  is one of another.

  Main declarations:
    * `isName_of_isRepository`
    * `isRepository_of_isArch`
    * `isRepository_of_isStamp`
-/

------------------------------------------------------------
-- Classes of Bytes
------------------------------------------------------------

namespace MicaBoards

namespace Locks

open Text

theorem mem_of_plus
    {p : UInt8 → Bool}
    {s : Bytes}
    (hPlus : plus p s = true) :
    ∀ b ∈ s, p b = true := by
  unfold plus at hPlus
  rw [Bool.and_eq_true, List.all_eq_true] at hPlus
  exact hPlus.2

theorem mem_of_headTail
    {p q : UInt8 → Bool}
    {s : Bytes}
    (hHead : ∀ b, p b = true → q b = true)
    (hForm : headTail p q s = true) :
    ∀ b ∈ s, q b = true := by
  cases s with
  | nil => simp
  | cons b s =>
      unfold headTail at hForm
      rw [Bool.and_eq_true, List.all_eq_true] at hForm
      rw [List.forall_mem_cons]
      exact ⟨hHead b hForm.1, hForm.2⟩

theorem isNameByte_of_isLowerDigit
    (b : UInt8)
    (hByte : isLowerDigit b = true) :
    isNameByte b = true := by
  unfold isNameByte isRepositoryByte
  simp [hByte]

theorem isPathByte_of_isLowerDigit
    (b : UInt8)
    (hByte : isLowerDigit b = true) :
    isPathByte b = true := by
  unfold isPathByte isRepositoryByte
  simp [hByte]

theorem isNameByte_of_isRepositoryByte
    (b : UInt8)
    (hByte : isRepositoryByte b = true) :
    isNameByte b = true := by
  unfold isNameByte
  simp [hByte]

------------------------------------------------------------
-- Repositories
------------------------------------------------------------

/- The bytes of a repository are neither dots nor line ends. -/
theorem ne_of_isRepositoryByte
    (b : UInt8) :
    isRepositoryByte b = true → b ≠ dot ∧ b ≠ lf ∧ b ≠ slash := by
  revert b
  exact forall_byte (by decide +kernel)

theorem isRepositoryByte_of_isLowerDigit
    (b : UInt8)
    (hByte : isLowerDigit b = true) :
    isRepositoryByte b = true := by
  unfold isRepositoryByte
  rw [hByte, Bool.true_or]

theorem mem_of_isRepository
    {s : Bytes}
    (hForm : isRepository s = true) :
    ∀ b ∈ s, isRepositoryByte b = true :=
  mem_of_headTail isRepositoryByte_of_isLowerDigit hForm

theorem bytes_of_isRepository
    {s : Bytes}
    (hForm : isRepository s = true) :
    ∀ b ∈ s, b ≠ dot ∧ b ≠ lf ∧ b ≠ slash :=
  fun b hb =>
    ne_of_isRepositoryByte b (mem_of_isRepository hForm b hb)

theorem ne_nil_of_isRepository
    {s : Bytes}
    (hForm : isRepository s = true) :
    s ≠ [] := by
  rintro rfl
  exact Bool.false_ne_true hForm

/- A repository is a name. -/
theorem isName_of_isRepository
    {s : Bytes}
    (hForm : isRepository s = true) :
    isName s = true := by
  unfold isRepository headTail at hForm
  unfold isName headTail
  cases s with
  | nil => exact absurd hForm (by simp)
  | cons b s =>
      simp only [Bool.and_eq_true, List.all_eq_true]
        at hForm ⊢
      exact ⟨hForm.1, fun c hc =>
        isNameByte_of_isRepositoryByte c (hForm.2 c hc)⟩

theorem isRepository_of_isArch
    {s : Bytes}
    (hArch : isArch s = true) :
    isRepository s = true := by
  unfold isArch at hArch
  rw [decide_eq_true_eq, List.mem_cons, List.mem_singleton]
    at hArch
  rcases hArch with rfl | rfl
  · decide
  · decide

theorem isName_of_isArch
    {s : Bytes}
    (hArch : isArch s = true) :
    isName s = true :=
  isName_of_isRepository (isRepository_of_isArch hArch)

/- A stamp is digits, a dash and digits. -/
theorem isRepository_of_isStamp
    {stamp : Bytes}
    (hStamp : isStamp stamp = true) :
    isRepository stamp = true := by
  unfold isStamp exactly at hStamp
  simp only [Bool.and_eq_true, decide_eq_true_eq,
    List.all_eq_true] at hStamp
  rcases hStamp with ⟨⟨⟨hLength, hDay⟩, hDash⟩, _, hTime⟩
  have hDigit :
      ∀ b, isDigit b = true → isLowerDigit b = true := by
    intro b hb
    unfold isLowerDigit
    rw [hb, Bool.or_true]
  have hBytes :
      ∀ b ∈ stamp, isRepositoryByte b = true := by
    intro b hb
    rw [← List.take_append_drop 8 stamp, List.mem_append] at hb
    rcases hb with hb | hb
    · exact isRepositoryByte_of_isLowerDigit b
        (hDigit b (hDay b hb))
    · cases hDrop : stamp.drop 8 with
      | nil =>
          rw [hDrop] at hDash
          exact absurd hDash (by simp)
      | cons c rest =>
          have hRest : rest = stamp.drop 9 := by
            have hTail := congrArg List.tail hDrop
            rw [List.tail_drop] at hTail
            exact hTail.symm
          rw [hDrop, List.head?_cons] at hDash
          rw [hDrop, Option.some.inj hDash, hRest,
            List.mem_cons] at hb
          rcases hb with rfl | hb
          · decide
          · exact isRepositoryByte_of_isLowerDigit b
              (hDigit b (hTime b hb))
  cases stamp with
  | nil => exact absurd hLength (by simp)
  | cons b rest =>
      unfold isRepository headTail
      rw [Bool.and_eq_true, List.all_eq_true]
      rw [List.forall_mem_cons] at hBytes
      exact ⟨hDigit b (hDay b (by simp)), hBytes.2⟩

end Locks

end MicaBoards
