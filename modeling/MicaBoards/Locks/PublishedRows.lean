import MicaBoards.Locks.Roots
import MicaBoards.Locks.RowText

/-
  The rows that the publishers leave, and what the writer's own
  checks say of them: they are the rows of the board's pool, of
  its packages and of its components, each once.

  Main declarations:
    * `Published`
    * `BoardRows`
    * `boardRows_of_checks`
-/

------------------------------------------------------------
-- Published Rows
------------------------------------------------------------

namespace MicaBoards

namespace Locks

open Text

/- A row of `pool.tsv`, as `tools/deb/publish.sh` leaves it. -/
structure PoolRow.Published
    (board : Board)
    (stamp : Bytes)
    (row : PoolRow) : Prop where
  arch : isArch row.arch = true
  tag : row.tag = poolTag board.name row.arch stamp
  digest : isDigest row.digest = true

/- A row of `package.tsv`. -/
structure PackageRow.Published (row : PackageRow) : Prop where
  name : isName row.name = true
  arch : isArch row.arch = true
  version : isVersion row.version = true
  sha256 : isSha row.sha256 = true

/- A row of `board.tsv`, as `tools/publish-components.sh` does. -/
structure BoardRow.Published
    (stamp : Bytes)
    (row : BoardRow) : Prop where
  board : isName row.board = true
  component : isName row.component = true
  arch : isArch row.arch = true
  tag : row.tag = ociTag [row.component, row.board, stamp]
  digest : isDigest row.digest = true

/- All rows of a release. -/
structure Published
    (board : Board)
    (stamp : Bytes)
    (rows : LockRows) : Prop where
  pool : ∀ row ∈ rows.pool, row.Published board stamp
  package : ∀ row ∈ rows.package, row.Published
  board : ∀ row ∈ rows.board, row.Published stamp

/- Rows that are those of the board. -/
structure BoardRows
    (board : Board)
    (rows : LockRows) : Prop where
  pool : rows.pool.map (·.arch) = [board.arch]
  package : (rows.package.map (·.name)).Nodup
  packageArch : ∀ row ∈ rows.package, row.arch = board.arch
  boardName : ∀ row ∈ rows.board, row.board = board.name
  boardArch : ∀ row ∈ rows.board, row.arch = board.arch
  component :
    (rows.board.map (·.component)).Perm board.components

------------------------------------------------------------
-- Printable Forms
------------------------------------------------------------

theorem isPlainByte_of_form
    (b : UInt8) :
    (isNameByte b = true ∨ isVersionByte b = true ∨
      isTagByte b = true ∨ isHex b = true) →
      isPlainByte b = true := by
  revert b
  exact forall_byte (by decide +kernel)

theorem isPlain_of_isName
    {s : Bytes}
    (hName : isName s = true) :
    isPlain s = true := by
  rw [isPlain_iff]
  constructor
  · rintro rfl
    exact absurd hName (by decide)
  · intro b hb
    exact isPlainByte_of_form b
      (Or.inl
        (mem_of_headTail isNameByte_of_isLowerDigit hName b hb))

/- A name does not begin as a comment does. -/
theorem head?_of_isName
    {s : Bytes}
    (hName : isName s = true) :
    s.head? ≠ some 0x23 := by
  cases s with
  | nil => simp
  | cons b s =>
      rw [List.head?_cons]
      unfold isName headTail at hName
      rw [Bool.and_eq_true] at hName
      intro hHead
      rw [Option.some.inj hHead] at hName
      exact absurd hName.1 (by decide)

theorem isPlain_of_isVersion
    {s : Bytes}
    (hVersion : isVersion s = true) :
    isPlain s = true :=
  isPlain_of_plus
    (fun b hb => isPlainByte_of_form b (Or.inr (Or.inl hb)))
    hVersion

theorem isPlain_of_isTag
    {s : Bytes}
    (hTag : plus isTagByte s = true) :
    isPlain s = true :=
  isPlain_of_plus
    (fun b hb =>
      isPlainByte_of_form b (Or.inr (Or.inr (Or.inl hb))))
    hTag

theorem isPlain_of_exactly
    {n : Nat}
    {s : Bytes}
    (hSome : 0 < n)
    (hHex : exactly n isHex s = true) :
    isPlain s = true := by
  unfold exactly at hHex
  rw [Bool.and_eq_true, decide_eq_true_eq, List.all_eq_true]
    at hHex
  rw [isPlain_iff]
  constructor
  · apply List.ne_nil_of_length_pos
    rw [hHex.1]
    exact hSome
  · intro b hb
    exact isPlainByte_of_form b
      (Or.inr (Or.inr (Or.inr (hHex.2 b hb))))

/- A printable field is a line. -/
theorem line_of_isPlain
    {s : Bytes}
    (hPlain : isPlain s = true) :
    s ≠ [] ∧ 0 ∉ s ∧ lf ∉ s := by
  have hField := plain_field hPlain
  refine ⟨hField.1, ?_, ?_⟩
  · intro hMem
    exact (hField.2 0 hMem).1 rfl
  · intro hMem
    exact (hField.2 lf hMem).2.1 rfl

theorem PlainRow.line_joinRow
    {row : Row}
    (hRow : PlainRow row) :
    joinRow row ≠ [] ∧ 0 ∉ joinRow row ∧ lf ∉ joinRow row := by
  refine ⟨?_, ?_, ?_⟩
  · rcases hRow.head?_joinRow with ⟨b, hHead, _⟩
    intro hNil
    rw [hNil] at hHead
    exact absurd hHead (by simp)
  · intro hMem
    exact (hRow.line 0 hMem).1 rfl
  · intro hMem
    exact (hRow.line lf hMem).2.1 rfl

/- Names make a row. -/
theorem plainRow_of_names
    {name : Bytes}
    {names : Row}
    (hNames : ∀ field ∈ name :: names, isName field = true) :
    PlainRow (name :: names) where
  nonempty := List.cons_ne_nil _ _
  fields field hField := isPlain_of_isName (hNames field hField)
  noComment := head?_of_isName (hNames name List.mem_cons_self)

------------------------------------------------------------
-- Boards
------------------------------------------------------------

namespace Board

variable (board : Board)

theorem isName_name : isName board.name = true :=
  isName_of_isRepository board.nameForm

theorem isName_arch : isName board.arch = true :=
  isName_of_isArch board.archForm

theorem nodup_packages : board.packages.Nodup := by
  unfold packages
  apply List.Nodup.filterMap _ board.outputsOnce
  intro row row' name hRow hRow'
  cases row with
  | file _ _ => exact absurd hRow (by simp [OutputRow.package?])
  | package name' =>
      cases row' with
      | file _ _ =>
          exact absurd hRow' (by simp [OutputRow.package?])
      | package name'' =>
          have hName : name' = name := by
            simpa [OutputRow.package?] using hRow
          have hName' : name'' = name := by
            simpa [OutputRow.package?] using hRow'
          rw [hName, hName']

theorem line_packages :
    ∀ name ∈ board.packages,
      name ≠ [] ∧ 0 ∉ name ∧ lf ∉ name := by
  intro name hName
  unfold packages at hName
  rcases List.mem_filterMap.mp hName with ⟨row, hRow, hIs⟩
  cases row with
  | file _ _ => exact absurd hIs (by simp [OutputRow.package?])
  | package name' =>
      have hSame : name' = name := by
        simpa [OutputRow.package?] using hIs
      rw [hSame] at hRow
      exact board.outputsText name hRow

/- The components are some of four, each once. -/
theorem components_sublist :
    board.components.Sublist
      [ascii "board", ascii "kernel", ascii "uboot",
        ascii "firmware"] := by
  unfold components
  split_ifs <;> decide

theorem nodup_components : board.components.Nodup :=
  board.components_sublist.nodup (by decide)

theorem isName_component :
    ∀ component ∈ board.components, isName component = true := by
  intro component hMem
  have hForms :
      ∀ component ∈
        [ascii "board", ascii "kernel", ascii "uboot",
          ascii "firmware"],
        isName component = true := by
    decide
  exact hForms component
    (board.components_sublist.subset hMem)

theorem board_mem_components :
    ascii "board" ∈ board.components := by
  unfold components
  simp

theorem kernel_mem_components :
    ascii "kernel" ∈ board.components := by
  unfold components
  simp

end Board

------------------------------------------------------------
-- Checks of the Writer
------------------------------------------------------------

theorem perm_sortLines (lines : List Bytes) :
    (sortLines lines).Perm lines :=
  List.perm_insertionSort _ lines

/- One line that is captured is captured whole. -/
theorem captured_unlines_singleton
    {line : Bytes}
    (hLine : line ≠ [] ∧ 0 ∉ line ∧ lf ∉ line) :
    captured (unlines [line]) = line := by
  have hAppend :=
    captured_unlines_append
      (List.forall_mem_singleton.mpr hLine)
      (List.cons_ne_nil line [])
  have hText : unlines [line] = line ++ [lf] := by
    simp [unlines]
  exact List.append_cancel_right (hAppend.trans hText)

section Checks

variable {board : Board}
variable {stamp : Bytes}
variable {rows : LockRows}

theorem pool_of_poolCheck
    (hPublished : Published board stamp rows)
    (hCheck : poolCheck board rows = true) :
    rows.pool.map (·.arch) = [board.arch] := by
  have hArch := line_of_isPlain (isPlain_of_isName board.isName_arch)
  unfold poolCheck at hCheck
  rw [decide_eq_true_eq] at hCheck
  apply captured_unlines_inj
  · intro line hLine
    rcases List.mem_map.mp hLine with ⟨row, hRow, rfl⟩
    exact line_of_isPlain (isPlain_of_isName
      (isName_of_isArch (hPublished.pool row hRow).arch))
  · exact List.forall_mem_singleton.mpr hArch
  · rw [hCheck, captured_unlines_singleton hArch]

/- The rows are those of the components, in some order. -/
theorem perm_of_boardCheck
    (hPublished : Published board stamp rows)
    (hCheck : boardCheck board rows = true) :
    (rows.board.map fun row =>
        [row.board, row.component, row.arch]).Perm
      (board.components.map fun component =>
        [board.name, component, board.arch]) := by
  have hRows :
      ∀ row ∈ rows.board.map fun row =>
          [row.board, row.component, row.arch],
        PlainRow row := by
    intro row hRow
    rcases List.mem_map.mp hRow with ⟨source, hSource, rfl⟩
    have hForm := hPublished.board source hSource
    apply plainRow_of_names
    simp [hForm.board, hForm.component,
      isName_of_isArch hForm.arch]
  have hComponents :
      ∀ row ∈ board.components.map fun component =>
          [board.name, component, board.arch],
        PlainRow row := by
    intro row hRow
    rcases List.mem_map.mp hRow with ⟨component, hMem, rfl⟩
    apply plainRow_of_names
    simp [board.isName_name, board.isName_component _ hMem,
      board.isName_arch]
  have hLines :
      ∀ texts : List Row, (∀ row ∈ texts, PlainRow row) →
        ∀ line ∈ texts.map joinRow,
          line ≠ [] ∧ 0 ∉ line ∧ lf ∉ line := by
    intro texts hTexts line hLine
    rcases List.mem_map.mp hLine with ⟨row, hRow, rfl⟩
    exact (hTexts row hRow).line_joinRow
  have hSplit :
      ∀ texts : List Row, (∀ row ∈ texts, PlainRow row) →
        (texts.map joinRow).map split = texts := by
    intro texts hTexts
    rw [List.map_map]
    calc
      _ = texts.map id := by
        apply List.map_congr_left
        exact fun row hRow => (hTexts row hRow).split_joinRow
      _ = texts := List.map_id texts
  unfold boardCheck at hCheck
  rw [decide_eq_true_eq] at hCheck
  have hSame :
      sortLines (rows.board.map fun row =>
          joinRow [row.board, row.component, row.arch]) =
        (sortLines board.components).map fun component =>
          joinRow [board.name, component, board.arch] := by
    apply captured_unlines_inj _ _ hCheck
    · intro line hLine
      rw [(perm_sortLines _).mem_iff] at hLine
      apply hLines _ hRows
      rw [List.map_map]
      exact hLine
    · intro line hLine
      rw [((perm_sortLines _).map _).mem_iff] at hLine
      apply hLines _ hComponents
      rw [List.map_map]
      exact hLine
  have hPerm :
      ((rows.board.map fun row =>
          [row.board, row.component, row.arch]).map
            joinRow).Perm
        ((board.components.map fun component =>
          [board.name, component, board.arch]).map
            joinRow) := by
    rw [List.map_map, List.map_map]
    refine (perm_sortLines _).symm.trans ?_
    refine (List.Perm.of_eq hSame).trans ?_
    exact (perm_sortLines _).map _
  rw [← hSplit _ hRows, ← hSplit _ hComponents]
  exact hPerm.map split

/- Each package is there once, for the board's architecture. -/
theorem packages_of_packageCheck
    (hPublished : Published board stamp rows)
    (hCheck : packageCheck board rows = true) :
    (rows.package.map (·.name)).Nodup ∧
      ∀ row ∈ rows.package, row.arch = board.arch := by
  have hArch := line_of_isPlain (isPlain_of_isName board.isName_arch)
  unfold packageCheck at hCheck
  rw [Bool.and_eq_true, decide_eq_true_eq, decide_eq_true_eq]
    at hCheck
  have hArches :
      sortUnique (rows.package.map (·.arch)) = [board.arch] := by
    apply captured_unlines_inj
    · intro line hLine
      rw [mem_sortUnique] at hLine
      rcases List.mem_map.mp hLine with ⟨row, hRow, rfl⟩
      exact line_of_isPlain (isPlain_of_isName
        (isName_of_isArch (hPublished.package row hRow).arch))
    · exact List.forall_mem_singleton.mpr hArch
    · rw [hCheck.2, captured_unlines_singleton hArch]
  have hAll : ∀ row ∈ rows.package, row.arch = board.arch := by
    intro row hRow
    rw [← List.mem_singleton, ← hArches, mem_sortUnique]
    exact List.mem_map_of_mem hRow
  have hFilter :
      rows.package.filter (·.arch = board.arch) =
        rows.package := by
    rw [List.filter_eq_self]
    exact fun row hRow => decide_eq_true (hAll row hRow)
  have hNames :
      sortLines (rows.package.map (·.name)) =
        sortLines board.packages := by
    rw [hFilter] at hCheck
    apply captured_unlines_inj _ _ hCheck.1
    · intro line hLine
      rw [(perm_sortLines _).mem_iff] at hLine
      rcases List.mem_map.mp hLine with ⟨row, hRow, rfl⟩
      exact line_of_isPlain
        (isPlain_of_isName (hPublished.package row hRow).name)
    · intro line hLine
      rw [(perm_sortLines _).mem_iff] at hLine
      exact board.line_packages line hLine
  have hPerm :
      (rows.package.map (·.name)).Perm board.packages := by
    refine (perm_sortLines _).symm.trans ?_
    rw [hNames]
    exact perm_sortLines _
  exact ⟨hPerm.nodup_iff.mpr board.nodup_packages, hAll⟩

/- Rows that the writer accepts are those of the board. -/
theorem boardRows_of_checks
    (hPublished : Published board stamp rows)
    (hPool : poolCheck board rows = true)
    (hBoard : boardCheck board rows = true)
    (hPackage : packageCheck board rows = true) :
    BoardRows board rows := by
  have hPerm := perm_of_boardCheck hPublished hBoard
  have hRow :
      ∀ row ∈ rows.board,
        row.board = board.name ∧ row.arch = board.arch := by
    intro row hRow
    have hMem :=
      hPerm.subset (List.mem_map_of_mem hRow)
    rcases List.mem_map.mp hMem with ⟨component, _, hSame⟩
    simp only [List.cons.injEq] at hSame
    exact ⟨hSame.1.symm, hSame.2.2.1.symm⟩
  have hPackages := packages_of_packageCheck hPublished hPackage
  refine {
    pool := pool_of_poolCheck hPublished hPool
    package := hPackages.1
    packageArch := hPackages.2
    boardName := fun row h => (hRow row h).1
    boardArch := fun row h => (hRow row h).2
    component := ?_ }
  have hComponents := hPerm.map fun row : Row => row.field 1
  rw [List.map_map, List.map_map] at hComponents
  simpa [Function.comp_def, Row.field] using hComponents

end Checks

end Locks

end MicaBoards
