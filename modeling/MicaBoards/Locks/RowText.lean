import MicaBoards.Locks.Accepted
import MicaBoards.Locks.ReleaseLock

/-
  Rows of printable fields, put out with a header, are read
  back as these rows.

  Main declarations:
    * `PlainRow`
    * `readRows_of_plainRows`
-/

------------------------------------------------------------
-- Printable Fields
------------------------------------------------------------

namespace MicaBoards

namespace Locks

open Text

variable {iconv : Iconv}

/- Printable bytes other than the space. -/
def isPlainByte (b : UInt8) : Bool :=
  0x20 < b && b < 0x7f

/- A field of one or more of them. -/
def isPlain : Bytes → Bool :=
  plus isPlainByte

/- A row of such fields that is no comment. -/
structure PlainRow (row : Row) : Prop where
  nonempty : row ≠ []
  fields : ∀ field ∈ row, isPlain field = true
  noComment : (row.field 0).head? ≠ some 0x23

theorem isPlain_iff
    {field : Bytes} :
    isPlain field = true ↔
      field ≠ [] ∧ ∀ b ∈ field, isPlainByte b = true := by
  unfold isPlain plus
  rw [Bool.and_eq_true, decide_eq_true_eq, List.all_eq_true]

theorem ne_of_isPlainByte
    (b : UInt8) :
    isPlainByte b = true →
      b ≠ 0 ∧ b ≠ lf ∧ b ≠ cr ∧ b ≠ tab ∧ b ≠ space ∧
        b < 0x80 := by
  revert b
  exact forall_byte (by decide +kernel)

/- The bytes of a printable field are none of these. -/
theorem plain_field
    {field : Bytes}
    (hPlain : isPlain field = true) :
    field ≠ [] ∧ ∀ b ∈ field,
      b ≠ 0 ∧ b ≠ lf ∧ b ≠ cr ∧ b ≠ tab ∧ b ≠ space ∧
        b < 0x80 := by
  rw [isPlain_iff] at hPlain
  exact ⟨hPlain.1,
    fun b hb => ne_of_isPlainByte b (hPlain.2 b hb)⟩

theorem isPlain_append
    {front behind : Bytes}
    (hFront : isPlain front = true)
    (hBehind : isPlain behind = true) :
    isPlain (front ++ behind) = true := by
  rw [isPlain_iff] at *
  refine ⟨List.append_ne_nil_of_left_ne_nil hFront.1 _, ?_⟩
  rw [List.forall_mem_append]
  exact ⟨hFront.2, hBehind.2⟩

theorem isPlain_cons
    {b : UInt8}
    {field : Bytes}
    (hByte : isPlainByte b = true)
    (hField : isPlain field = true) :
    isPlain (b :: field) = true := by
  rw [isPlain_iff] at *
  exact ⟨List.cons_ne_nil _ _,
    List.forall_mem_cons.mpr ⟨hByte, hField.2⟩⟩

/- Classes of bytes that are printable make printable fields. -/
theorem isPlain_of_plus
    {p : UInt8 → Bool}
    {field : Bytes}
    (hByte : ∀ b, p b = true → isPlainByte b = true)
    (hField : plus p field = true) :
    isPlain field = true := by
  unfold isPlain
  unfold plus at hField ⊢
  rw [Bool.and_eq_true, List.all_eq_true] at *
  exact ⟨hField.1, fun b hb => hByte b (hField.2 b hb)⟩

------------------------------------------------------------
-- Lines of Rows
------------------------------------------------------------

namespace PlainRow

variable {row : Row}

theorem mem_joinRow
    (hRow : PlainRow row)
    {b : UInt8}
    (hMem : b ∈ joinRow row) :
    b = tab ∨ isPlainByte b = true := by
  rcases mem_intercalate hMem with hTab | ⟨field, hField, hIn⟩
  · exact Or.inl hTab
  · right
    exact (isPlain_iff.mp (hRow.fields field hField)).2 b hIn

/- Bytes of a line: neither line ends nor NUL bytes. -/
theorem line
    (hRow : PlainRow row) :
    ∀ b ∈ joinRow row, b ≠ 0 ∧ b ≠ lf ∧ b ≠ cr ∧ b < 0x80 := by
  intro b hb
  rcases hRow.mem_joinRow hb with rfl | hByte
  · decide
  · have hNe := ne_of_isPlainByte b hByte
    exact ⟨hNe.1, hNe.2.1, hNe.2.2.1, hNe.2.2.2.2.2⟩

/- A line begins as the first field of its row. -/
theorem head?_joinRow
    (hRow : PlainRow row) :
    ∃ b, (joinRow row).head? = some b ∧
      isPlainByte b = true ∧ b ≠ 0x23 := by
  have hNonempty := hRow.nonempty
  have hFields := hRow.fields
  have hComment := hRow.noComment
  unfold joinRow
  cases row with
  | nil => exact absurd rfl hNonempty
  | cons field row =>
      have hField := isPlain_iff.mp
        (hFields field List.mem_cons_self)
      cases field with
      | nil => exact absurd rfl hField.1
      | cons b field =>
          rw [List.intercalate_cons_cons_left, List.head?_cons]
          refine ⟨b, rfl, hField.2 b List.mem_cons_self, ?_⟩
          rintro rfl
          exact hComment rfl

/- A line ends as the last field of its row. -/
theorem getLast?_joinRow
    (hRow : PlainRow row) :
    ∃ b, (joinRow row).getLast? = some b ∧
      isPlainByte b = true := by
  have hNonempty := hRow.nonempty
  have hFields := hRow.fields
  clear hRow
  unfold joinRow
  induction row with
  | nil => exact absurd rfl hNonempty
  | cons field row ih =>
      by_cases hNil : row = []
      · rw [hNil, List.intercalate_singleton]
        have hField := isPlain_iff.mp
          (hFields field List.mem_cons_self)
        rw [List.getLast?_eq_getLast_of_ne_nil hField.1]
        exact ⟨_, rfl, hField.2 _ (List.getLast_mem _)⟩
      · rcases ih hNil (fun other hOther =>
          hFields other (List.mem_cons_of_mem _ hOther)) with
          ⟨b, hLast, hByte⟩
        refine ⟨b, ?_, hByte⟩
        rw [List.intercalate_cons_of_ne_nil hNil,
          List.getLast?_append, hLast]
        rfl

/- A line is split into its row. -/
theorem split_joinRow
    (hRow : PlainRow row) :
    split (joinRow row) = row := by
  apply List.splitOn_intercalate
  · intro field hField hMem
    have hBytes := (plain_field (hRow.fields field hField)).2
    exact (hBytes tab hMem).2.2.2.1 rfl
  · exact hRow.nonempty

end PlainRow

/- Lines of rows are taken as they are. -/
theorem takeRows_joinRow
    {rows : List Row}
    (hRows : ∀ row ∈ rows, PlainRow row) :
    takeRows (rows.map joinRow) = .ok (rows.map joinRow) := by
  induction rows with
  | nil => rfl
  | cons row rows ih =>
      rw [List.forall_mem_cons] at hRows
      rcases hRows.1.head?_joinRow with
        ⟨b, hHead, hByte, hComment⟩
      rcases hRows.1.getLast?_joinRow with ⟨c, hLast, hEnd⟩
      have hLine : joinRow row ≠ [] := by
        intro hNil
        rw [hNil] at hHead
        exact absurd hHead (by simp)
      have hSpace := (ne_of_isPlainByte b hByte).2.2.2.2.1
      have hTab := (ne_of_isPlainByte c hEnd).2.2.2.1
      rw [List.map_cons, takeRows, ih hRows.2]
      simp [require, hLine, hHead, hLast, hSpace, hTab,
        hComment, bind, Except.bind, pure, Except.pure]

/- Rows that are put out are read back. -/
theorem readRows_of_plainRows
    {rows : List Row}
    (hRows : ∀ row ∈ rows, PlainRow row) :
    readRows iconv (unlines
        (ascii "# mica-lock v1" :: rows.map joinRow)) =
      .ok rows := by
  have hHeader :
      ∀ b ∈ ascii "# mica-lock v1",
        b ≠ 0 ∧ b ≠ lf ∧ b ≠ cr ∧ b < 0x80 :=
    forall_mem_of_all (by decide)
  have hLines :
      ∀ line ∈ ascii "# mica-lock v1" :: rows.map joinRow,
        ∀ b ∈ line, b ≠ 0 ∧ b ≠ lf ∧ b ≠ cr ∧ b < 0x80 := by
    rw [List.forall_mem_cons]
    refine ⟨hHeader, fun line hLine => ?_⟩
    rcases List.mem_map.mp hLine with ⟨row, hRow, rfl⟩
    exact (hRows row hRow).line
  have hText :
      ∀ b ∈ unlines
          (ascii "# mica-lock v1" :: rows.map joinRow),
        b ≠ cr ∧ b < 0x80 := by
    intro b hb
    rcases List.mem_flatMap.mp hb with ⟨line, hLine, hIn⟩
    rcases List.mem_append.mp hIn with hIn | hIn
    · exact (hLines line hLine b hIn).2.2
    · rw [List.mem_singleton] at hIn
      rw [hIn]
      decide
  have hCheck :=
    @checkText_of_ascii iconv _ (fun b hb => (hText b hb).2)
      (getLast?_unlines (List.cons_ne_nil _ _))
      (fun hMem => (hText cr hMem).1 rfl)
  have hRead :
      mapfile (unlines
          (ascii "# mica-lock v1" :: rows.map joinRow)) =
        ascii "# mica-lock v1" :: rows.map joinRow :=
    mapfile_lines
      (fun line hLine hMem => (hLines line hLine lf hMem).2.1 rfl)
      (fun line hLine hMem => (hLines line hLine 0 hMem).1 rfl)
  have hSplit : (rows.map joinRow).map split = rows := by
    rw [List.map_map]
    calc
      _ = rows.map id := by
        apply List.map_congr_left
        exact fun row hRow => (hRows row hRow).split_joinRow
      _ = rows := List.map_id rows
  unfold readRows
  rw [unit_bind_eq_ok_iff]
  refine ⟨hCheck, ?_⟩
  rw [hRead, require_bind_eq_ok_iff, bind_eq_ok_iff]
  refine ⟨by simp, rows.map joinRow, ?_, ?_⟩
  · exact takeRows_joinRow hRows
  · rw [hSplit]
    rfl

end Locks

end MicaBoards
