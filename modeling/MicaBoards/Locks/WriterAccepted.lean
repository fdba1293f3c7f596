import MicaBoards.Locks.LockedRows

/-
  The lock that the writer puts out is accepted by the checker:
  its rows are in the order of kinds and of key fields, and all
  of them are rows of one board.

  Main declarations:
    * `pairwise_lockedRows`
    * `lockAccepted_lockedRows`
    * `write_accepted`
-/

------------------------------------------------------------
-- Order of the Lock
------------------------------------------------------------

namespace MicaBoards

namespace Locks

open Text

variable {iconv : Iconv}

/- The rows behind the release row. -/
def lockedRows (rows : LockRows) : List Row :=
  sortRows [1] (rows.pool.map PoolRow.lockRow) ++
    sortRows [1, 2] (rows.package.map PackageRow.lockRow) ++
    sortRows [1, 2] (rows.board.map BoardRow.lockRow)

theorem mem_lockedRows
    {rows : LockRows}
    {row : Row} :
    row ∈ lockedRows rows ↔
      (row ∈ rows.pool.map PoolRow.lockRow ∨
        row ∈ rows.package.map PackageRow.lockRow) ∨
        row ∈ rows.board.map BoardRow.lockRow := by
  unfold lockedRows
  rw [List.mem_append, List.mem_append, mem_sortRows,
    mem_sortRows, mem_sortRows]

section Whole

variable {board : Board}
variable {stamp commit : Bytes}
variable {rows : LockRows}

/- The rows of a lock are in the order of the checker. -/
theorem pairwise_lockedRows
    (hRows : BoardRows board rows) :
    (lockedRows rows).Pairwise fun row next =>
      (lockOrder row).Before (lockOrder next) := by
  have hPoolKind :
      ∀ row ∈ rows.pool.map PoolRow.lockRow,
        kindOf row = some .pool := by
    intro row hRow
    rcases List.mem_map.mp hRow with ⟨source, _, rfl⟩
    exact source.kindOf_lockRow
  have hPackageKind :
      ∀ row ∈ rows.package.map PackageRow.lockRow,
        kindOf row = some .package := by
    intro row hRow
    rcases List.mem_map.mp hRow with ⟨source, _, rfl⟩
    exact source.kindOf_lockRow
  have hBoardKind :
      ∀ row ∈ rows.board.map BoardRow.lockRow,
        kindOf row = some .board := by
    intro row hRow
    rcases List.mem_map.mp hRow with ⟨source, _, rfl⟩
    exact source.kindOf_lockRow
  have hPool :
      (sortRows [1] (rows.pool.map PoolRow.lockRow)).Pairwise
        fun row next =>
          (lockOrder row).Before (lockOrder next) := by
    apply before_sortRows hPoolKind
    · intro row hRow
      rcases List.mem_map.mp hRow with ⟨source, _, rfl⟩
      rw [source.keyFields_lockRow]
      rfl
    · have hOnce : (rows.pool.map (·.arch)).Nodup := by
        rw [hRows.pool]
        exact List.nodup_singleton _
      apply List.Nodup.of_map fun key : List Bytes => key.getD 0 []
      simpa [Function.comp_def, PoolRow.keyFields_lockRow]
        using hOnce
  have hPackage :
      (sortRows [1, 2]
          (rows.package.map PackageRow.lockRow)).Pairwise
        fun row next =>
          (lockOrder row).Before (lockOrder next) := by
    apply before_sortRows hPackageKind
    · intro row hRow
      rcases List.mem_map.mp hRow with ⟨source, _, rfl⟩
      rw [source.keyFields_lockRow]
      rfl
    · apply List.Nodup.of_map fun key : List Bytes => key.getD 0 []
      simpa [Function.comp_def, PackageRow.keyFields_lockRow]
        using hRows.package
  have hBoard :
      (sortRows [1, 2]
          (rows.board.map BoardRow.lockRow)).Pairwise
        fun row next =>
          (lockOrder row).Before (lockOrder next) := by
    apply before_sortRows hBoardKind
    · intro row hRow
      rcases List.mem_map.mp hRow with ⟨source, _, rfl⟩
      rw [source.keyFields_lockRow]
      rfl
    · have hOnce : (rows.board.map (·.component)).Nodup :=
        hRows.component.nodup_iff.mpr board.nodup_components
      apply List.Nodup.of_map fun key : List Bytes => key.getD 1 []
      simpa [Function.comp_def, BoardRow.keyFields_lockRow]
        using hOnce
  unfold lockedRows
  rw [List.pairwise_append, List.pairwise_append]
  refine ⟨⟨hPool, hPackage, ?_⟩, hBoard, ?_⟩
  · intro row hRow next hNext
    rw [mem_sortRows] at hRow hNext
    exact before_of_kinds (hPoolKind row hRow)
      (hPackageKind next hNext) (by decide)
  · intro row hRow next hNext
    rw [List.mem_append, mem_sortRows, mem_sortRows] at hRow
    rw [mem_sortRows] at hNext
    rcases hRow with hRow | hRow
    · exact before_of_kinds (hPoolKind row hRow)
        (hBoardKind next hNext) (by decide)
    · exact before_of_kinds (hPackageKind row hRow)
        (hBoardKind next hNext) (by decide)

theorem lockedRow_of_mem
    (hPublished : Published board stamp rows)
    (hRows : BoardRows board rows) :
    ∀ row ∈ lockedRows rows, LockedRow board stamp row := by
  intro row hMem
  rcases mem_lockedRows.mp hMem with (hMem | hMem) | hMem
  · rcases List.mem_map.mp hMem with ⟨source, hSource, rfl⟩
    exact .pool source (hPublished.pool source hSource)
  · rcases List.mem_map.mp hMem with ⟨source, hSource, rfl⟩
    exact .package source (hPublished.package source hSource)
  · rcases List.mem_map.mp hMem with ⟨source, hSource, rfl⟩
    refine .board source (hPublished.board source hSource)
      (hRows.boardName source hSource) ?_
    exact hRows.component.subset (List.mem_map_of_mem hSource)

------------------------------------------------------------
-- Acceptance
------------------------------------------------------------

/- The release row of a board's lock. -/
def releaseRow (board : Board) (stamp commit : Bytes) : Row :=
  [ascii "release", repoName, releaseTag board stamp, commit]

theorem lockRows_eq :
    lockRows board stamp commit rows =
      releaseRow board stamp commit :: lockedRows rows :=
  rfl

theorem ofRow_releaseRow
    (hStamp : isStamp stamp = true) :
    Release.ofRow (releaseRow board stamp commit) =
      boardRelease board stamp := by
  have hDot : dot ∉ stamp := by
    intro hMem
    have hForm := isRepository_of_isStamp hStamp
    exact (bytes_of_isRepository hForm dot hMem).1 rfl
  have hSplit :
      splitRelease (releaseTag board stamp) =
        (board.name, stamp) := by
    have hMem : dot ∈ releaseTag board stamp := by
      unfold releaseTag
      simp
    unfold splitRelease
    rw [if_pos hMem]
    unfold releaseTag
    rw [beforeLast_append hDot, afterLast_append hDot]
  have hField :
      (releaseRow board stamp commit).field 2 =
        releaseTag board stamp := rfl
  unfold Release.ofRow
  rw [hField, hSplit]
  rfl

theorem checkRelease_releaseRow
    (hStamp : isStamp stamp = true)
    (hCommit : isCommit commit = true) :
    checkRelease (releaseRow board stamp commit) = .ok () := by
  have hName : board.name ≠ [] :=
    ne_nil_of_isRepository board.nameForm
  have hForms :
      (isRepository repoName &&
          (isStamp stamp || decide (stamp = offline)) &&
          isCommit commit &&
          (decide (board.name = []) ||
            isRepository board.name)) = true := by
    have hRepository : isRepository repoName = true := by
      decide
    rw [hRepository, hStamp, hCommit, board.nameForm]
    simp
  have hScoped :
      isScoped repoName = decide (board.name ≠ []) := by
    rw [decide_eq_true hName]
    decide
  unfold checkRelease
  rw [ofRow_releaseRow hStamp, require_bind_eq_ok_iff,
    require_eq_ok_iff]
  exact ⟨hForms, decide_eq_true hScoped⟩

/- The release row is printable. -/
theorem plain_releaseRow
    (hStamp : isStamp stamp = true)
    (hCommit : isCommit commit = true) :
    PlainRow (releaseRow board stamp commit) := by
  have hPlain :
      ∀ {s : Bytes}, isRepository s = true → isPlain s = true :=
    fun h => isPlain_of_isName (isName_of_isRepository h)
  have hTag : isPlain (releaseTag board stamp) = true := by
    unfold releaseTag
    apply isPlain_append (hPlain board.nameForm)
    apply isPlain_cons (by decide)
    exact hPlain (isRepository_of_isStamp hStamp)
  refine ⟨List.cons_ne_nil _ _, ?_, ?_⟩
  · unfold releaseRow
    simp only [List.forall_mem_cons]
    exact ⟨by decide, by decide, hTag,
      isPlain_of_exactly (by omega) hCommit, by simp⟩
  · change (ascii "release").head? ≠ some 0x23
    decide

theorem mem_flatMap_fieldOf
    {texts : List Row}
    {kind : Kind}
    {i : Nat}
    {value : Bytes} :
    value ∈ texts.flatMap (fieldOf kind i) ↔
      ∃ row ∈ texts, kindOf row = some kind ∧
        row.field i = value := by
  rw [List.mem_flatMap]
  unfold fieldOf
  constructor
  · rintro ⟨row, hRow, hMem⟩
    split_ifs at hMem with hKind
    · exact ⟨row, hRow, hKind,
        (List.mem_singleton.mp hMem).symm⟩
    · exact absurd hMem List.not_mem_nil
  · rintro ⟨row, hRow, hKind, rfl⟩
    refine ⟨row, hRow, ?_⟩
    rw [if_pos hKind]
    exact List.mem_singleton_self _

/- What is checked of the rows together. -/
theorem checkGathered_lockedRows
    (hPublished : Published board stamp rows)
    (hRows : BoardRows board rows) :
    checkGathered (boardRelease board stamp)
      (gather (lockedRows rows)) = .ok () := by
  have hLocked := lockedRow_of_mem hPublished hRows
  have hOrder :=
    inOrder_of_before
      (fun row hRow => by
        rcases (hLocked row hRow).keyed with ⟨kind, hKeyed, _⟩
        exact ⟨kind, hKeyed⟩)
      (pairwise_lockedRows hRows)
  have hBase : (gather (lockedRows rows)).baseOnly = false := by
    unfold gather
    rw [baseOnly_foldl_add, Bool.or_eq_false_iff,
      List.any_eq_false]
    refine ⟨rfl, fun row hRow => ?_⟩
    have hUpstream :=
      @LockedRow.kind_ne _ _ _ (hLocked row hRow) .upstream
        (by decide)
    have hApt :=
      @LockedRow.kind_ne _ _ _ (hLocked row hRow) .apt
        (by decide)
    simp [hUpstream, hApt]
  have hPools :
      ∀ arch ∈ (gather (lockedRows rows)).packageArches,
        arch ∈ (gather (lockedRows rows)).pools := by
    intro arch hArch
    unfold gather at hArch ⊢
    rw [packageArches_foldl_add] at hArch
    rw [pools_foldl_add]
    rcases mem_flatMap_fieldOf.mp hArch with
      ⟨row, hRow, hKind, hField⟩
    have hPool : board.arch ∈ rows.pool.map (·.arch) := by
      rw [hRows.pool]
      exact List.mem_singleton_self _
    rcases List.mem_map.mp hPool with ⟨pool, hPool, hSame⟩
    apply mem_flatMap_fieldOf.mpr
    refine ⟨pool.lockRow, ?_, pool.kindOf_lockRow, ?_⟩
    · exact mem_lockedRows.mpr
        (Or.inl (Or.inl (List.mem_map_of_mem hPool)))
    · change pool.arch = arch
      rw [hSame, ← hField]
      rcases mem_lockedRows.mp hRow with (hRow | hRow) | hRow
      · rcases List.mem_map.mp hRow with ⟨source, _, rfl⟩
        rw [source.kindOf_lockRow] at hKind
        exact absurd hKind (by decide)
      · rcases List.mem_map.mp hRow with
          ⟨source, hSource, rfl⟩
        exact (hRows.packageArch source hSource).symm
      · rcases List.mem_map.mp hRow with ⟨source, _, rfl⟩
        rw [source.kindOf_lockRow] at hKind
        exact absurd hKind (by decide)
  have hComponents :
      ∀ component ∈ board.components,
        component ∈
          (gather (lockedRows rows)).boardComponents := by
    intro component hMem
    rw [← hRows.component.mem_iff] at hMem
    rcases List.mem_map.mp hMem with ⟨source, hSource, rfl⟩
    unfold gather
    rw [boardComponents_foldl_add]
    apply mem_flatMap_fieldOf.mpr
    refine ⟨source.lockRow, ?_, source.kindOf_lockRow, rfl⟩
    exact mem_lockedRows.mpr
      (Or.inr (List.mem_map_of_mem hSource))
  have hSorted :
      inOrder (gather (lockedRows rows)).sortKeys = true := by
    unfold gather
    rw [sortKeys_foldl_add]
    exact hOrder.1
  unfold checkGathered
  rw [require_bind_eq_ok_iff, require_bind_eq_ok_iff,
    require_bind_eq_ok_iff, require_eq_ok_iff, hBase,
    List.all_eq_true]
  refine ⟨by simp, ?_, ?_, hSorted⟩
  · exact fun arch hArch => decide_eq_true (hPools arch hArch)
  · rw [Bool.or_eq_true, Bool.and_eq_true]
    right
    exact ⟨decide_eq_true
        (hComponents _ board.board_mem_components),
      decide_eq_true
        (hComponents _ board.kernel_mem_components)⟩

/- The checker accepts the rows, whatever it says of roots. -/
theorem lockAccepted_lockedRows
    {rootsOk : Bytes → Bool}
    (hStamp : isStamp stamp = true)
    (hCommit : isCommit commit = true)
    (hPublished : Published board stamp rows)
    (hRows : BoardRows board rows) :
    LockAccepted rootsOk (releaseRow board stamp commit)
      (lockedRows rows) := by
  have hLocked := lockedRow_of_mem hPublished hRows
  have hOrder :=
    inOrder_of_before
      (fun row hRow => by
        rcases (hLocked row hRow).keyed with ⟨kind, hKeyed, _⟩
        exact ⟨kind, hKeyed⟩)
      (pairwise_lockedRows hRows)
  have hRelease :
      kindOf (releaseRow board stamp commit) =
        some .release :=
    kindOf_of_name rfl
  refine {
    columns := ?_
    isRelease := isKind_of_kindOf hRelease
    others := ?_
    release := checkRelease_releaseRow hStamp hCommit
    fields := ?_
    files := ?_
    keys := hOrder.2
    gathered := ?_ }
  · intro row hRow
    rcases List.mem_cons.mp hRow with rfl | hRow
    · exact checkColumns_of_kind hRelease rfl
    · rcases (hLocked row hRow).kind with
        ⟨kind, hKind, hLength, _⟩
      exact checkColumns_of_kind hKind hLength
  · intro row hRow hIs
    refine @LockedRow.kind_ne _ _ _ (hLocked row hRow) .release
      (by decide) ?_
    exact kindOf_of_name (of_decide_eq_true hIs)
  · intro row hRow
    rw [ofRow_releaseRow hStamp]
    exact (hLocked row hRow).fields hStamp
  · have hNone :
        (lockedRows rows).flatMap (fieldOf .data 2) = [] := by
      rw [List.eq_nil_iff_forall_not_mem]
      intro value hMem
      rcases mem_flatMap_fieldOf.mp hMem with
        ⟨row, hRow, hKind, _⟩
      exact (hLocked row hRow).kind_ne (by decide) hKind
    rw [hNone]
    exact List.nodup_nil
  · rw [ofRow_releaseRow hStamp]
    exact checkGathered_lockedRows hPublished hRows

/-
  A lock that is written out of published rows is accepted,
  in whatever directory the checker runs.
-/
theorem write_accepted
    (iconv : Iconv)
    (expand : Bytes → List Bytes)
    (board : Board)
    (stamp commit : Bytes)
    (rows : LockRows)
    (lock : Bytes)
    (hStamp : isStamp stamp = true)
    (hCommit : isCommit commit = true)
    (hPublished : Published board stamp rows)
    (hWrite : write board stamp commit rows = some lock) :
    checkLock iconv expand lock = .ok () := by
  unfold write at hWrite
  split_ifs at hWrite with hChecks
  rw [Bool.and_eq_true, Bool.and_eq_true] at hChecks
  have hRows :=
    boardRows_of_checks hPublished hChecks.1.1 hChecks.1.2
      hChecks.2
  have hPlain :
      ∀ row ∈ lockRows board stamp commit rows,
        PlainRow row := by
    rw [lockRows_eq, List.forall_mem_cons]
    refine ⟨plain_releaseRow hStamp hCommit, ?_⟩
    intro row hRow
    exact (lockedRow_of_mem hPublished hRows row hRow).plain
      hStamp
  rw [← Option.some.inj hWrite]
  unfold checkLock
  rw [checkLockWith_eq_ok_iff]
  exact ⟨releaseRow board stamp commit, lockedRows rows,
    readRows_of_plainRows hPlain,
    lockAccepted_lockedRows hStamp hCommit hPublished hRows⟩

end Whole

/- A board with all components, and some of its packages. -/
def sampleBoard : Board where
  name := ascii "cx3576"
  arch := ascii "arm64"
  boot := ascii "uboot-fit"
  firmwareFiles :=
    ascii "/usr/lib/firmware/fmacfw_8800d80_u02.bin"
  outputs :=
    [.package (ascii "mica-board-cx3576"),
      .package (ascii "mica-wifi"),
      .package (ascii "mica-wifi-ap"),
      .file (ascii "board") (ascii "board.env")]
  nameForm := by decide
  archForm := by decide
  outputsOnce := by decide
  outputsText := by
    intro name hName
    simp only [List.mem_cons, OutputRow.package.injEq,
      reduceCtorEq, List.not_mem_nil, or_false] at hName
    rcases hName with rfl | rfl | rfl
    · decide
    · decide
    · decide

def sampleStamp : Bytes := ascii "20260925-0102"

def sampleDigest : Bytes :=
  ascii "sha256:" ++ List.replicate 64 0x61

def samplePackage (name : Bytes) : PackageRow :=
  ⟨name, ascii "arm64", ascii "1.2.3-1+b1",
    List.replicate 64 0x62⟩

def sampleComponent (component : Bytes) : BoardRow :=
  ⟨ascii "cx3576", component, ascii "arm64",
    ociTag [component, ascii "cx3576", sampleStamp],
    sampleDigest⟩

/- Its rows, in another order than that of the lock. -/
def sampleRows : LockRows where
  pool :=
    [⟨ascii "arm64",
      poolTag (ascii "cx3576") (ascii "arm64") sampleStamp,
      sampleDigest⟩]
  package :=
    [samplePackage (ascii "mica-wifi-ap"),
      samplePackage (ascii "mica-wifi"),
      samplePackage (ascii "mica-board-cx3576")]
  board :=
    [sampleComponent (ascii "uboot"),
      sampleComponent (ascii "firmware"),
      sampleComponent (ascii "board"),
      sampleComponent (ascii "kernel")]

theorem published_sampleRows :
    Published sampleBoard sampleStamp sampleRows where
  pool := by
    intro row hRow
    rw [List.mem_singleton.mp hRow]
    exact ⟨by decide, rfl, by decide⟩
  package := by
    have hForm :
        ∀ name : Bytes, isName name = true →
          (samplePackage name).Published := by
      have hArch : isArch (ascii "arm64") = true := by decide
      have hVersion : isVersion (ascii "1.2.3-1+b1") = true := by
        decide
      have hSha : isSha (List.replicate 64 0x62) = true := by
        decide
      exact fun name hName => ⟨hName, hArch, hVersion, hSha⟩
    intro row hRow
    simp only [sampleRows, List.mem_cons, List.not_mem_nil,
      or_false] at hRow
    rcases hRow with rfl | rfl | rfl
    · exact hForm _ (by decide)
    · exact hForm _ (by decide)
    · exact hForm _ (by decide)
  board := by
    have hForm :
        ∀ component : Bytes, isName component = true →
          (sampleComponent component).Published
            sampleStamp := by
      have hBoard : isName (ascii "cx3576") = true := by decide
      have hArch : isArch (ascii "arm64") = true := by decide
      have hDigest : isDigest sampleDigest = true := by decide
      exact fun component hName =>
        ⟨hBoard, hName, hArch, rfl, hDigest⟩
    intro row hRow
    simp only [sampleRows, List.mem_cons, List.not_mem_nil,
      or_false] at hRow
    rcases hRow with rfl | rfl | rfl | rfl
    · exact hForm _ (by decide)
    · exact hForm _ (by decide)
    · exact hForm _ (by decide)
    · exact hForm _ (by decide)

theorem write_accepted_sampleRows :
    ∃ lock,
      write sampleBoard sampleStamp (List.replicate 40 0x63)
          sampleRows = some lock ∧
        checkLock strictIconv (fun word => [word]) lock =
          .ok () := by
  have hWrite :
      write sampleBoard sampleStamp (List.replicate 40 0x63)
          sampleRows =
        some (unlines (ascii "# mica-lock v1" ::
          (lockRows sampleBoard sampleStamp
            (List.replicate 40 0x63) sampleRows).map
              joinRow)) :=
    if_pos (by decide +kernel)
  exact ⟨_, hWrite,
    write_accepted _ _ _ _ _ _ _ (by decide) (by decide)
      published_sampleRows hWrite⟩

end Locks

end MicaBoards
