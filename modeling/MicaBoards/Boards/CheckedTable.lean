import MicaBoards.Boards.Outputs

/-
  What a table has that passes the check of `tools/boards.sh`:
  the files of a component are listed in order, and the paths
  of the bundle are those of its components, each once.

  Main declarations:
    * `pairwise_files`
    * `bundleFiles_eq_allPaths`
    * `perm_files`
-/

------------------------------------------------------------
-- Fields of Rows
------------------------------------------------------------

namespace MicaBoards

namespace Boards

open Text

/- A row of three fields -/
theorem row_eq_of_fieldCount
    {row : Bytes}
    (hCount : fieldCount row = 3) :
    row = field row 1 ++ tab :: (field row 2 ++
      tab :: field row 3) := by
  have hJoin : ([tab] : Bytes).intercalate (row.splitOn tab) =
      row :=
    List.intercalate_splitOn tab
  unfold field
  unfold fieldCount at hCount
  rcases List.length_eq_three.mp hCount with ⟨a, b, c, hSplit⟩
  rw [hSplit] at hJoin ⊢
  rw [← hJoin]
  simp

theorem tab_notMem_field (row : Bytes) (n : Nat) :
    tab ∉ field row n := by
  unfold field
  rw [List.getD_eq_getElem?_getD]
  cases hField : (row.splitOn tab)[n - 1]? with
  | none => exact List.not_mem_nil
  | some piece =>
      exact notMem_of_mem_splitOn (List.mem_of_getElem? hField)

section Table

variable {b : Board}
variable {table : Bytes}

structure CheckedTable (b : Board) (table : Bytes) : Prop where
  rows : ∀ row ∈ outputs table, checkRow row = true
  inOrder :
    ((outputs table).map rowKey).IsChain
      fun key next => key.le next = true
  once : (allPaths table).Nodup
  components :
    sortedLines (components table) =
      sortedLines (componentList b)

theorem checkedTable_of_check
    (hCheck : checkOutputs b table = true) :
    CheckedTable b table := by
  rw [checkOutputs, decide_eq_true_iff] at hCheck
  rcases hCheck with
    ⟨-, hRows, hOrder, hOnce, -, hComponents, -⟩
  rw [checkOrder, decide_eq_true_iff] at hOrder
  rw [checkComponents, decide_eq_true_iff] at hComponents
  exact ⟨List.all_eq_true.mp hRows, hOrder.1, hOnce, hComponents⟩

/- A file row has a component and a path. -/
theorem fieldCount_of_isFile
    {row : Bytes}
    (hRow : checkRow row = true)
    (hFile : isFile row = true) :
    fieldCount row = 3 := by
  rw [checkRow, decide_eq_true_iff] at hRow
  rcases hRow with ⟨hPackage, -⟩ | ⟨-, hCount, -⟩
  · have hKind : ascii "package" = ascii "file" :=
      (of_decide_eq_true hPackage).symm.trans
        (of_decide_eq_true hFile)
    exact absurd hKind (by decide)
  · exact hCount

theorem isPackage_of_not_isFile
    {row : Bytes}
    (hRow : checkRow row = true)
    (hFile : ¬ isFile row = true) :
    isPackage row = true := by
  rw [checkRow, decide_eq_true_iff] at hRow
  rcases hRow with ⟨hPackage, -⟩ | ⟨hIsFile, -⟩
  · exact hPackage
  · exact absurd hIsFile hFile

------------------------------------------------------------
-- Files in Order
------------------------------------------------------------

theorem Key.le_trans
    {key next last : Key}
    (hFirst : key.le next = true)
    (hSecond : next.le last = true) :
    key.le last = true := by
  rw [Key.le, decide_eq_true_iff] at *
  rcases hFirst with hKind | ⟨hKind, hValue⟩
  · rcases hSecond with hKind' | ⟨hKind', -⟩
    · exact .inl (Nat.lt_trans hKind hKind')
    · exact .inl (hKind' ▸ hKind)
  rcases hSecond with hKind' | ⟨hKind', hValue'⟩
  · exact .inl (hKind ▸ hKind')
  refine .inr ⟨hKind.trans hKind', ?_⟩
  rcases hValue with hLt | ⟨hEq, hPath⟩
  · rcases hValue' with hLt' | ⟨hEq', -⟩
    · exact .inl (List.lt_trans hLt hLt')
    · exact .inl (hEq' ▸ hLt)
  rcases hValue' with hLt' | ⟨hEq', hPath'⟩
  · exact .inl (hEq ▸ hLt')
  · exact .inr ⟨hEq.trans hEq', List.le_trans hPath hPath'⟩

/- Keys of one kind and value are ordered by their paths. -/
theorem Key.path_le
    {key next : Key}
    (hLe : key.le next = true)
    (hKind : key.kind = next.kind)
    (hValue : key.value = next.value) :
    key.path ≤ next.path := by
  rw [Key.le, decide_eq_true_iff] at hLe
  rcases hLe with hLt | ⟨-, hLt | ⟨-, hPath⟩⟩
  · exact absurd (hKind ▸ hLt) (Nat.lt_irrefl _)
  · exact absurd (hValue ▸ hLt) (List.lt_irrefl _)
  · exact hPath

theorem isPackage_of_isFile
    {row : Bytes}
    (hFile : isFile row = true) :
    isPackage row = false := by
  have hKind : field row 1 = ascii "file" :=
    of_decide_eq_true hFile
  unfold isPackage
  rw [hKind]
  decide

/- The files of a component stand in the order of `sort`. -/
theorem pairwise_files
    (hTable : CheckedTable b table)
    (component : Bytes) :
    (files table component).Pairwise (· ≤ ·) := by
  have : IsTrans Key fun key next => key.le next = true :=
    ⟨fun _ _ _ => Key.le_trans⟩
  have hKeys := hTable.inOrder.pairwise
  rw [List.pairwise_map] at hKeys
  rw [files, List.pairwise_map]
  refine (hKeys.sublist List.filter_sublist).imp_of_mem ?_
  intro row next hRow hNext hLe
  have hIs := of_decide_eq_true (List.mem_filter.mp hRow).2
  have hIs' := of_decide_eq_true (List.mem_filter.mp hNext).2
  refine Key.path_le hLe ?_ (hIs.2.trans hIs'.2.symm)
  rw [rowKey, rowKey, isPackage_of_isFile hIs.1,
    isPackage_of_isFile hIs'.1]

theorem sortedLines_files
    (hTable : CheckedTable b table)
    (component : Bytes) :
    sortedLines (files table component) =
      files table component :=
  sortedLines_eq_self (pairwise_files hTable component)

------------------------------------------------------------
-- Files of the Bundle
------------------------------------------------------------

/- `sed` takes the path out of a file row, and no other. -/
theorem bundlePath_eq
    {row : Bytes}
    (hRow : checkRow row = true) :
    bundlePath row =
      if isFile row then some (field row 3) else none := by
  by_cases hFile : isFile row = true
  · have hSplit :=
      row_eq_of_fieldCount (fieldCount_of_isFile hRow hFile)
    have hKind : field row 1 = ascii "file" :=
      of_decide_eq_true hFile
    have hTab : ascii "file\t" = ascii "file" ++ [tab] := by
      decide
    have hFront :
        row = ascii "file\t" ++
          (field row 2 ++ tab :: field row 3) := by
      rw [hTab, List.append_assoc, ← hKind]
      exact hSplit
    have hDrop :
        row.drop (ascii "file\t").length =
          field row 2 ++ tab :: field row 3 := by
      rw [hFront, List.drop_left]
      simp [← hFront]
    have hPrefix : ascii "file\t" <+: row :=
      ⟨_, hFront.symm⟩
    rw [if_pos hFile, bundlePath, hDrop,
      if_pos ⟨hPrefix, by simp⟩,
      afterFirst_append (tab_notMem_field row 2)]
  · have hKind : field row 1 = ascii "package" :=
      of_decide_eq_true (isPackage_of_not_isFile hRow hFile)
    have hNot : ¬ ascii "file\t" <+: row := by
      intro hPrefix
      have hFirst : row.head? = some 0x66 := by
        rcases hPrefix with ⟨rest, rfl⟩
        rfl
      have hJoin :
          ([tab] : Bytes).intercalate (row.splitOn tab) = row :=
        List.intercalate_splitOn tab
      unfold field at hKind
      cases hSplit : row.splitOn tab with
      | nil => exact absurd hSplit (List.splitOn_ne_nil _ _)
      | cons first rest =>
          rw [hSplit] at hKind hJoin
          obtain rfl : first = ascii "package" := hKind
          rw [← hJoin] at hFirst
          cases rest with
          | nil =>
              simp only [List.intercalate_singleton] at hFirst
              exact absurd hFirst (by decide)
          | cons second rest =>
              rw [List.intercalate_cons_cons] at hFirst
              have hHead :
                  (ascii "package").head? = some 0x70 := by
                decide
              simp [List.head?_append, hHead] at hFirst
    rw [if_neg hFile, bundlePath, if_neg fun hBoth => hNot hBoth.1]

/- The bundle has the paths of all file rows. -/
theorem bundleFiles_eq_allPaths
    (hTable : CheckedTable b table) :
    bundleFiles table = allPaths table := by
  have hRows := hTable.rows
  unfold bundleFiles allPaths
  revert hRows
  induction outputs table with
  | nil => exact fun _ => rfl
  | cons row rows ih =>
      intro hRows
      rcases List.forall_mem_cons.mp hRows with ⟨hRow, hRest⟩
      have hPath := bundlePath_eq hRow
      by_cases hFile : isFile row = true
      · rw [if_pos hFile] at hPath
        rw [List.filterMap_cons_some hPath,
          List.filter_cons_of_pos hFile, List.map_cons, ih hRest]
      · rw [if_neg hFile] at hPath
        rw [List.filterMap_cons_none hPath,
          List.filter_cons_of_neg hFile, ih hRest]

------------------------------------------------------------
-- Files by Component
------------------------------------------------------------

/- A list, one group after the other -/
theorem perm_flatMap_filter
    {α κ : Type}
    [DecidableEq κ]
    (key : α → κ)
    {keys : List κ}
    (hKeys : keys.Nodup)
    {list : List α}
    (hIn : ∀ a ∈ list, key a ∈ keys) :
    list.Perm
      (keys.flatMap fun k => list.filter fun a => key a = k) := by
  induction keys generalizing list with
  | nil =>
      cases list with
      | nil => exact .refl _
      | cons a list => cases hIn a List.mem_cons_self
  | cons k keys ih =>
      rcases List.nodup_cons.mp hKeys with ⟨hNew, hRest⟩
      have hOthersIn :
          ∀ a ∈ list.filter fun a => ¬ key a = k,
            key a ∈ keys := by
        intro a hA
        rcases List.mem_filter.mp hA with ⟨hA, hNot⟩
        exact (List.mem_cons.mp (hIn a hA)).resolve_left
          (of_decide_eq_true hNot)
      have hOthers := ih hRest hOthersIn
      have hSame :
          (keys.flatMap fun k' =>
              (list.filter fun a => ¬ key a = k).filter
                fun a => key a = k') =
            keys.flatMap fun k' =>
              list.filter fun a => key a = k' := by
        apply List.flatMap_congr
        intro k' hK'
        rw [List.filter_filter]
        apply List.filter_congr
        intro a _
        by_cases hKey : key a = k'
        · have hNot : ¬ key a = k := by
            rintro rfl
            exact hNew (hKey ▸ hK')
          simp [hKey, hKey ▸ hNot]
        · simp [hKey]
      rw [List.flatMap_cons, ← hSame]
      refine .trans ?_ (.append_left _ hOthers)
      have hSplit :=
        List.filter_append_perm (fun a => decide (key a = k)) list
      simpa using hSplit.symm

theorem mem_destutter
    {component : Bytes}
    {list : List Bytes}
    (hMem : component ∈ list) :
    component ∈ list.destutter (· ≠ ·) := by
  have hTail (first : Bytes) (rest : List Bytes) :
      component ∈ first :: rest →
        component ∈ rest.destutter' (· ≠ ·) first := by
    induction rest generalizing first with
    | nil => exact fun hMem => hMem
    | cons next rest ih =>
        intro hMem
        by_cases hEq : first ≠ next
        · rw [List.destutter'_cons_pos _ hEq]
          rcases List.mem_cons.mp hMem with rfl | hMem
          · exact List.mem_cons_self
          · exact List.mem_cons_of_mem _ (ih next hMem)
        · rw [List.destutter'_cons_neg _ hEq]
          rw [ne_eq, not_not] at hEq
          refine ih first ?_
          rcases List.mem_cons.mp hMem with rfl | hMem
          · exact List.mem_cons_self
          · rwa [← hEq] at hMem
  cases list with
  | nil => cases hMem
  | cons first rest => exact hTail first rest hMem

/- Every file is of a component of the board. -/
theorem mem_componentList
    (hTable : CheckedTable b table)
    {row : Bytes}
    (hRow : row ∈ outputs table)
    (hFile : isFile row = true) :
    field row 2 ∈ componentList b := by
  have hPerm :=
    sortedLines_eq_iff.mp hTable.components
  rw [← hPerm.mem_iff]
  exact mem_destutter (List.mem_map.mpr
    ⟨row, List.mem_filter.mpr ⟨hRow, hFile⟩, rfl⟩)

theorem nodup_componentList (b : Board) :
    (componentList b).Nodup := by
  unfold componentList
  cases b.firmwareFiles <;>
    by_cases hBoot : b.boot = ascii "uboot-fit" <;>
    simp only [hBoot, if_true, if_false, Bool.false_eq_true] <;>
    decide

/-
  The files of the components, one component after the other,
  are all files.
-/
theorem perm_files (hTable : CheckedTable b table) :
    (allPaths table).Perm
      ((componentList b).flatMap (files table)) := by
  have hIn :
      ∀ row ∈ (outputs table).filter isFile,
        field row 2 ∈ componentList b := by
    intro row hRow
    rcases List.mem_filter.mp hRow with ⟨hRow, hFile⟩
    exact mem_componentList hTable hRow hFile
  have hFiles (component : Bytes) :
      files table component =
        (((outputs table).filter isFile).filter fun row =>
          field row 2 = component).map (field · 3) := by
    rw [files, List.filter_filter]
    congr 1
    apply List.filter_congr
    intro row _
    simp [and_comm]
  have hPerm :=
    (perm_flatMap_filter (field · 2)
      (nodup_componentList b) hIn).map (field · 3)
  rw [List.map_flatMap] at hPerm
  rwa [allPaths, funext hFiles]

end Table

end Boards

end MicaBoards
