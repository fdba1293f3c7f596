import MicaBoards.Locks.CheckLock

/-
  What the checker accepts in lock mode, without its order of
  checks.

  Main declarations:
    * `LockAccepted`
    * `checkLockRows_eq_ok_iff`
    * `checkRows_eq_ok_iff`
-/

------------------------------------------------------------
-- Checks
------------------------------------------------------------

namespace MicaBoards

namespace Locks

open Text

variable {iconv : Iconv}

@[simp] theorem require_eq_ok_iff
    {condition : Bool}
    {rule : Rule} :
    require condition rule = .ok () ↔ condition = true := by
  cases condition <;> simp [require]

@[simp] theorem require_bind_eq_ok_iff
    {α : Type}
    {condition : Bool}
    {rule : Rule}
    {next : Unit → Check α}
    {result : α} :
    (require condition rule >>= next) = .ok result ↔
      condition = true ∧ next () = .ok result := by
  cases condition <;> simp [require, bind, Except.bind]

/- A check that passes is followed by the next. -/
theorem bind_eq_ok_iff
    {ε α β : Type}
    {check : Except ε α}
    {next : α → Except ε β}
    {result : β} :
    (check >>= next) = .ok result ↔
      ∃ value, check = .ok value ∧ next value = .ok result := by
  cases check with
  | error failure => simp [bind, Except.bind]
  | ok value => simp [bind, Except.bind]

theorem unit_bind_eq_ok_iff
    {ε α : Type}
    {check : Except ε Unit}
    {next : Unit → Except ε α}
    {result : α} :
    (check >>= next) = .ok result ↔
      check = .ok () ∧ next () = .ok result := by
  rw [bind_eq_ok_iff]
  constructor
  · rintro ⟨⟨⟩, hCheck, hNext⟩
    exact ⟨hCheck, hNext⟩
  · rintro ⟨hCheck, hNext⟩
    exact ⟨(), hCheck, hNext⟩

/- A check of all rows is a check of each. -/
theorem forM_eq_ok_iff
    {ε α : Type}
    {check : α → Except ε Unit}
    {items : List α} :
    items.forM check = .ok () ↔
      ∀ item ∈ items, check item = .ok () := by
  induction items with
  | nil => simp [pure, Except.pure]
  | cons item items ih =>
      change
        (check item >>= fun _ => items.forM check) = .ok () ↔ _
      rw [unit_bind_eq_ok_iff, ih, List.forall_mem_cons]

/- ASCII text passes the check of the encoding. -/
theorem checkText_of_ascii
    {file : Bytes}
    (hAscii : ∀ b ∈ file, b < 0x80)
    (hLast : file.getLast? = some lf)
    (hReturn : cr ∉ file) :
    checkText iconv file = .ok () := by
  unfold checkText
  rw [require_bind_eq_ok_iff, require_bind_eq_ok_iff,
    require_eq_ok_iff, decide_eq_true_eq, decide_eq_true_eq]
  exact ⟨iconv.utf8 _ (isUtf8_of_ascii hAscii), hLast, hReturn⟩

/- So does a text that was looked through byte by byte. -/
theorem checkText_of_all
    {file : Bytes}
    (hPlain :
      file.all (fun b => b < 0x80 ∧ b ≠ cr) = true ∧
        file.getLast? = some lf) :
    checkText iconv file = .ok () := by
  have hBytes := forall_mem_of_all hPlain.1
  exact checkText_of_ascii (fun b hb => (hBytes b hb).1)
    hPlain.2 fun hMem => (hBytes cr hMem).2 rfl

------------------------------------------------------------
-- Gathering
------------------------------------------------------------

/- The entry of a row in the table of keys. -/
def rowTableKey (row : Row) : Bytes :=
  tableKey (row.field 0) (joinFields (keyFields row))

def rowSortKey (row : Row) : Bytes :=
  sortKey ((kindOf row).elim 0 Kind.index)
    (joinFields (keyFields row))

/- The fields that a row of one kind is gathered by. -/
def fieldOf (kind : Kind) (i : Nat) (row : Row) : List Bytes :=
  if kindOf row = some kind then [row.field i] else []

namespace Gathered

variable (gathered : Gathered) (row : Row)

@[simp] theorem keys_add :
    (gathered.add row).keys =
      gathered.keys ++ [rowTableKey row] := by
  unfold add rowTableKey
  cases kindOf row with
  | none => rfl
  | some kind => cases kind <;> rfl

@[simp] theorem sortKeys_add :
    (gathered.add row).sortKeys =
      gathered.sortKeys ++ [rowSortKey row] := by
  unfold add rowSortKey
  cases kindOf row with
  | none => rfl
  | some kind => cases kind <;> rfl

@[simp] theorem pools_add :
    (gathered.add row).pools =
      gathered.pools ++ fieldOf .pool 1 row := by
  unfold add fieldOf
  cases kindOf row with
  | none => simp
  | some kind => cases kind <;> simp

@[simp] theorem dataFiles_add :
    (gathered.add row).dataFiles =
      gathered.dataFiles ++ fieldOf .data 2 row := by
  unfold add fieldOf
  cases kindOf row with
  | none => simp
  | some kind => cases kind <;> simp

@[simp] theorem packageArches_add :
    (gathered.add row).packageArches =
      gathered.packageArches ++ fieldOf .package 2 row := by
  unfold add fieldOf
  cases kindOf row with
  | none => simp
  | some kind => cases kind <;> simp

@[simp] theorem boardComponents_add :
    (gathered.add row).boardComponents =
      gathered.boardComponents ++ fieldOf .board 2 row := by
  unfold add fieldOf
  cases kindOf row with
  | none => simp
  | some kind => cases kind <;> simp

@[simp] theorem baseOnly_add :
    (gathered.add row).baseOnly =
      (gathered.baseOnly || kindOf row = some .upstream ||
        kindOf row = some .apt) := by
  unfold add
  cases kindOf row with
  | none => simp
  | some kind => cases kind <;> simp

end Gathered

/- All rows gathered. -/
def gather (rows : List Row) : Gathered :=
  rows.foldl Gathered.add Gathered.empty

section Gather

variable (rows : List Row)

theorem sortKeys_foldl_add (gathered : Gathered) :
    (rows.foldl Gathered.add gathered).sortKeys =
      gathered.sortKeys ++ rows.map rowSortKey := by
  induction rows generalizing gathered with
  | nil => simp
  | cons row rows ih => simp [ih]

theorem pools_foldl_add (gathered : Gathered) :
    (rows.foldl Gathered.add gathered).pools =
      gathered.pools ++ rows.flatMap (fieldOf .pool 1) := by
  induction rows generalizing gathered with
  | nil => simp
  | cons row rows ih => simp [ih]

theorem packageArches_foldl_add (gathered : Gathered) :
    (rows.foldl Gathered.add gathered).packageArches =
      gathered.packageArches ++
        rows.flatMap (fieldOf .package 2) := by
  induction rows generalizing gathered with
  | nil => simp
  | cons row rows ih => simp [ih]

theorem boardComponents_foldl_add (gathered : Gathered) :
    (rows.foldl Gathered.add gathered).boardComponents =
      gathered.boardComponents ++
        rows.flatMap (fieldOf .board 2) := by
  induction rows generalizing gathered with
  | nil => simp
  | cons row rows ih => simp [ih]

theorem baseOnly_foldl_add (gathered : Gathered) :
    (rows.foldl Gathered.add gathered).baseOnly =
      (gathered.baseOnly ||
        rows.any fun row =>
          kindOf row = some .upstream ||
            kindOf row = some .apt) := by
  induction rows generalizing gathered with
  | nil => simp
  | cons row rows ih => simp [ih, Bool.or_assoc]

end Gather

/- One row, and what was gathered before it. -/
theorem checkRow_eq_ok_iff
    {rootsOk : Bytes → Bool}
    {release : Release}
    {gathered after : Gathered}
    {row : Row} :
    checkRow rootsOk release gathered row = .ok after ↔
      checkFields rootsOk release row = .ok () ∧
        (∀ file ∈ fieldOf .data 2 row,
          file ∉ gathered.dataFiles) ∧
        rowTableKey row ∉ gathered.keys ∧
        gathered.add row = after := by
  unfold checkRow
  rw [unit_bind_eq_ok_iff, require_bind_eq_ok_iff,
    require_bind_eq_ok_iff]
  have hFiles :
      (decide (kindOf row ≠ some .data) ||
          decide (row.field 2 ∉ gathered.dataFiles)) = true ↔
        ∀ file ∈ fieldOf .data 2 row,
          file ∉ gathered.dataFiles := by
    unfold fieldOf
    by_cases hData : kindOf row = some .data
    · simp [hData]
    · simp [hData]
  rw [hFiles, decide_eq_true_eq]
  simp only [rowTableKey, pure, Except.pure, Except.ok.injEq]

/- All rows, and what was gathered before them. -/
theorem checkRows_eq_ok_iff
    {rootsOk : Bytes → Bool}
    {release : Release}
    {gathered after : Gathered}
    {rows : List Row}
    (hKeys : gathered.keys.Nodup)
    (hFiles : gathered.dataFiles.Nodup) :
    checkRows rootsOk release gathered rows = .ok after ↔
      (∀ row ∈ rows,
        checkFields rootsOk release row = .ok ()) ∧
        (gathered.dataFiles ++
          rows.flatMap (fieldOf .data 2)).Nodup ∧
        (gathered.keys ++ rows.map rowTableKey).Nodup ∧
        rows.foldl Gathered.add gathered = after := by
  induction rows generalizing gathered with
  | nil =>
      simp [checkRows, hKeys, hFiles]
  | cons row rows ih =>
      have hFile : (fieldOf .data 2 row).Nodup := by
        unfold fieldOf
        split_ifs <;> simp
      have hMoreKeys :
          rowTableKey row ∉ gathered.keys ↔
            (gathered.add row).keys.Nodup := by
        rw [Gathered.keys_add, ← List.concat_eq_append,
          List.nodup_concat]
        simp [hKeys]
      have hMoreFiles :
          (∀ file ∈ fieldOf .data 2 row,
              file ∉ gathered.dataFiles) ↔
            (gathered.add row).dataFiles.Nodup := by
        rw [Gathered.dataFiles_add, List.nodup_append]
        constructor
        · intro hNot
          refine ⟨hFiles, hFile, ?_⟩
          rintro file hMem other hOther rfl
          exact hNot file hOther hMem
        · rintro ⟨_, _, hDisjoint⟩ file hMem hOther
          exact hDisjoint file hOther file hMem rfl
      rw [checkRows, bind_eq_ok_iff]
      constructor
      · rintro ⟨next, hRow, hRest⟩
        rw [checkRow_eq_ok_iff] at hRow
        rcases hRow with ⟨hFields, hNewFile, hNewKey, rfl⟩
        rw [ih (hMoreKeys.mp hNewKey)
          (hMoreFiles.mp hNewFile)] at hRest
        rcases hRest with ⟨hRows, hData, hTable, hAfter⟩
        rw [Gathered.dataFiles_add, List.append_assoc] at hData
        rw [Gathered.keys_add, List.append_assoc] at hTable
        exact ⟨List.forall_mem_cons.mpr ⟨hFields, hRows⟩,
          hData, hTable, hAfter⟩
      · rintro ⟨hRows, hData, hTable, hAfter⟩
        rw [List.forall_mem_cons] at hRows
        rw [List.flatMap_cons, ← List.append_assoc,
          ← Gathered.dataFiles_add] at hData
        have hTable' :
            ((gathered.add row).keys ++
              rows.map rowTableKey).Nodup := by
          rw [Gathered.keys_add, List.append_assoc]
          exact hTable
        have hNewFiles := (List.nodup_append.mp hData).1
        have hNewKeys := (List.nodup_append.mp hTable').1
        refine ⟨gathered.add row, ?_, ?_⟩
        · rw [checkRow_eq_ok_iff]
          exact ⟨hRows.1, hMoreFiles.mpr hNewFiles,
            hMoreKeys.mpr hNewKeys, rfl⟩
        · rw [ih hNewKeys hNewFiles]
          exact ⟨hRows.2, hData, hTable', hAfter⟩

------------------------------------------------------------
-- Lock Mode
------------------------------------------------------------

/- What is accepted: a release row, and the rows behind it. -/
structure LockAccepted
    (rootsOk : Bytes → Bool)
    (first : Row)
    (rest : List Row) : Prop where
  columns : ∀ row ∈ first :: rest, checkColumns row = .ok ()
  isRelease : isKind .release first = true
  others : ∀ row ∈ rest, ¬ isKind .release row = true
  release : checkRelease first = .ok ()
  fields : ∀ row ∈ rest,
    checkFields rootsOk (Release.ofRow first) row = .ok ()
  files : (rest.flatMap (fieldOf .data 2)).Nodup
  keys : (rest.map rowTableKey).Nodup
  gathered :
    checkGathered (Release.ofRow first) (gather rest) = .ok ()

theorem checkLockRows_eq_ok_iff
    {rootsOk : Bytes → Bool}
    {rows : List Row} :
    checkLockRows rootsOk rows = .ok () ↔
      ∃ (first : Row) (rest : List Row),
        rows = first :: rest ∧
          LockAccepted rootsOk first rest := by
  unfold checkLockRows
  rw [unit_bind_eq_ok_iff, forM_eq_ok_iff,
    require_bind_eq_ok_iff]
  cases rows with
  | nil => simp
  | cons first rest =>
      have hOnly :
          isKind .release first = true →
            (((first :: rest).filter
                (isKind .release)).length = 1 ↔
              ∀ row ∈ rest, ¬ isKind .release row = true) := by
        intro hFirst
        rw [List.filter_cons_of_pos hFirst, List.length_cons,
          Nat.add_eq_right, List.length_eq_zero_iff,
          List.filter_eq_nil_iff]
      simp only [List.head?_cons, Option.elim, Bool.and_eq_true,
        decide_eq_true_eq, List.headD_cons, List.tail_cons]
      rw [unit_bind_eq_ok_iff, bind_eq_ok_iff]
      have hStart : Gathered.empty.keys.Nodup := List.nodup_nil
      have hStart' : Gathered.empty.dataFiles.Nodup :=
        List.nodup_nil
      constructor
      · rintro ⟨hColumns, ⟨hFirst, hCount⟩, hRelease, gathered,
          hRows, hGathered⟩
        rw [checkRows_eq_ok_iff hStart hStart'] at hRows
        rcases hRows with ⟨hFields, hFiles, hKeys, rfl⟩
        exact ⟨first, rest, rfl, hColumns, hFirst,
          (hOnly hFirst).mp hCount, hRelease, hFields, hFiles,
          hKeys, hGathered⟩
      · rintro ⟨first', rest', hEq, hAccepted⟩
        injection hEq with hFirst hRest
        subst hFirst hRest
        refine ⟨hAccepted.columns,
          ⟨hAccepted.isRelease,
            (hOnly hAccepted.isRelease).mpr hAccepted.others⟩,
          hAccepted.release, gather rest, ?_,
          hAccepted.gathered⟩
        rw [checkRows_eq_ok_iff hStart hStart']
        exact ⟨hAccepted.fields, hAccepted.files,
          hAccepted.keys, rfl⟩

/- An accepted file is read as accepted rows. -/
theorem checkLockWith_eq_ok_iff
    {rootsOk : Bytes → Bool}
    {file : Bytes} :
    checkLockWith iconv rootsOk file = .ok () ↔
      ∃ (first : Row) (rest : List Row),
        readRows iconv file = .ok (first :: rest) ∧
          LockAccepted rootsOk first rest := by
  unfold checkLockWith
  rw [bind_eq_ok_iff]
  constructor
  · rintro ⟨rows, hRead, hRows⟩
    rcases checkLockRows_eq_ok_iff.mp hRows with
      ⟨first, rest, rfl, hAccepted⟩
    exact ⟨first, rest, hRead, hAccepted⟩
  · rintro ⟨first, rest, hRead, hAccepted⟩
    exact ⟨first :: rest, hRead,
      checkLockRows_eq_ok_iff.mpr
        ⟨first, rest, rfl, hAccepted⟩⟩

/- The kind of a row is the one of its name. -/
theorem kindOf_of_name
    {row : Row}
    {kind : Kind}
    (hName : row.field 0 = kind.name) :
    kindOf row = some kind := by
  unfold kindOf
  rw [hName]
  cases kind <;> decide

theorem field_of_kindOf
    {row : Row}
    {kind : Kind}
    (hKind : kindOf row = some kind) :
    row.field 0 = kind.name := by
  have hFound := List.find?_some hKind
  rw [decide_eq_true_eq] at hFound
  exact hFound.symm

/- The kind of a row whose columns were counted. -/
theorem exists_kind_of_checkColumns
    {row : Row}
    (hColumns : checkColumns row = .ok ()) :
    ∃ kind : Kind, kindOf row = some kind ∧
      row.field 0 = kind.name ∧ row.length = kind.columns := by
  unfold checkColumns at hColumns
  rw [unit_bind_eq_ok_iff, require_eq_ok_iff] at hColumns
  rcases hColumns with ⟨_, hCount⟩
  cases hKind : kindOf row with
  | none => simp [hKind] at hCount
  | some kind =>
      simp only [hKind, Option.elim, decide_eq_true_eq]
        at hCount
      exact ⟨kind, rfl, field_of_kindOf hKind, hCount⟩

end Locks

end MicaBoards
