import MicaBoards.Locks.CheckLock

/-
  The lock of a board's release (`tools/release-lock.sh`, mode
  `write`), out of the rows that the publishers left, and what
  `tools/boards.sh` and `tools/component.sh` say of the board.

  Row files are lists of rows: their fields hold no tabs and no
  line ends. What `write` asks of its own result at the end is
  left out.

  Key definitions include:
    * `Board`
    * `LockRows`
    * `write`
-/

------------------------------------------------------------
-- Boards
------------------------------------------------------------

namespace MicaBoards

namespace Locks

open Text

/- A row of `outputs.tsv`. -/
inductive OutputRow
| package (name : Bytes)
| file (component path : Bytes)
deriving DecidableEq

namespace OutputRow

/- `awk '$1 == "package" { print $2 }'`, on one row -/
def package? : OutputRow → Option Bytes
| .package name => some name
| .file _ _ => none

end OutputRow

/-
  A listed board, as `boards.sh check` has its files: a row of
  `boards.tsv`, its rows of `outputs.tsv`, none repeated, and
  the firmware files of its `board.env`.
-/
structure Board where
  name : Bytes
  arch : Bytes
  boot : Bytes
  firmwareFiles : Bytes
  outputs : List OutputRow
  nameForm : isRepository name = true
  archForm : isArch arch = true
  outputsOnce : outputs.Nodup
  outputsText : ∀ name, OutputRow.package name ∈ outputs →
    name ≠ [] ∧ 0 ∉ name ∧ lf ∉ name

namespace Board

variable (board : Board)

/- `boards.sh packages` -/
def packages : List Bytes :=
  board.outputs.filterMap OutputRow.package?

/- `component.sh list` -/
def components : List Bytes :=
  [ascii "board", ascii "kernel"] ++
    (if board.boot ≠ ascii "uboot-fit" then
      []
    else
      [ascii "uboot"]) ++
    (if board.firmwareFiles = [] then
      []
    else
      [ascii "firmware"])

end Board

------------------------------------------------------------
-- Rows
------------------------------------------------------------

/- A row of `pool.tsv`. -/
structure PoolRow where
  arch : Bytes
  tag : Bytes
  digest : Bytes
deriving DecidableEq

/- A row of `package.tsv`. -/
structure PackageRow where
  name : Bytes
  arch : Bytes
  version : Bytes
  sha256 : Bytes
deriving DecidableEq

/- A row of `board.tsv`. -/
structure BoardRow where
  board : Bytes
  component : Bytes
  arch : Bytes
  tag : Bytes
  digest : Bytes
deriving DecidableEq

/- `LOCK_ROWS` -/
structure LockRows where
  pool : List PoolRow
  package : List PackageRow
  board : List BoardRow
deriving DecidableEq

/- `oci_tag` -/
def ociTag (names : List Bytes) : Bytes :=
  ([dot] : Bytes).intercalate names

/- `pool_tag` -/
def poolTag (board arch stamp : Bytes) : Bytes :=
  ociTag [ascii "pool", board, arch, stamp]

------------------------------------------------------------
-- Checks
------------------------------------------------------------

/- Fields of a row, with tabs between them. -/
def joinRow (row : Row) : Bytes :=
  ([tab] : Bytes).intercalate row

/- `sort` -/
def sortLines (lines : List Bytes) : List Bytes :=
  lines.insertionSort (· ≤ ·)

/- `pool.tsv` is the board's pool. -/
def poolCheck (board : Board) (rows : LockRows) : Bool :=
  captured (unlines (rows.pool.map (·.arch))) = board.arch

/- `board.tsv` is the board's components. -/
def boardCheck (board : Board) (rows : LockRows) : Bool :=
  captured (unlines (sortLines
      (rows.board.map fun row =>
        joinRow [row.board, row.component, row.arch]))) =
    captured (unlines ((sortLines board.components).map
      fun component =>
        joinRow [board.name, component, board.arch]))

/- `package.tsv` is the board's packages. -/
def packageCheck (board : Board) (rows : LockRows) : Bool :=
  captured (unlines (sortLines
      ((rows.package.filter (·.arch = board.arch)).map
        (·.name)))) =
    captured (unlines (sortLines board.packages)) &&
  captured (unlines (sortUnique
    (rows.package.map (·.arch)))) = board.arch

------------------------------------------------------------
-- The Lock
------------------------------------------------------------

/- `REPO_NAME` -/
def repoName : Bytes := ascii "mica-boards"

/- `REFERENCE` -/
def referencePrefix : Bytes :=
  ghcr ++ slash :: repoName

/- `%s:%s@%s` -/
def taggedReference (tag digest : Bytes) : Bytes :=
  referencePrefix ++ colon :: (tag ++ atSign :: digest)

/- `sort -t$'\t'` by these fields, and then by the line -/
def sortRows
    (fields : List Nat)
    (rows : List Row) : List Row :=
  rows.insertionSort fun row next =>
    fields.map row.field ++ [joinRow row] ≤
      fields.map next.field ++ [joinRow next]

def PoolRow.lockRow (row : PoolRow) : Row :=
  [ascii "pool", row.arch, taggedReference row.tag row.digest]

def PackageRow.lockRow (row : PackageRow) : Row :=
  [ascii "package", row.name, row.arch, row.version, row.sha256]

def BoardRow.lockRow (row : BoardRow) : Row :=
  [ascii "board", row.board, row.component, row.arch,
    taggedReference row.tag row.digest]

/- The release tag of a board: `<board>.<YYYYMMDD-HHMM>` -/
def releaseTag (board : Board) (stamp : Bytes) : Bytes :=
  board.name ++ dot :: stamp

/- The rows of the lock. -/
def lockRows
    (board : Board)
    (stamp commit : Bytes)
    (rows : LockRows) : List Row :=
  [ascii "release", repoName, releaseTag board stamp, commit] ::
    (sortRows [1] (rows.pool.map PoolRow.lockRow) ++
      sortRows [1, 2] (rows.package.map PackageRow.lockRow) ++
      sortRows [1, 2] (rows.board.map BoardRow.lockRow))

/- `write`; `none` where it refuses the rows. -/
def write
    (board : Board)
    (stamp commit : Bytes)
    (rows : LockRows) : Option Bytes :=
  if poolCheck board rows && boardCheck board rows &&
      packageCheck board rows then
    some (unlines (ascii "# mica-lock v1" ::
      (lockRows board stamp commit rows).map joinRow))
  else
    none

end Locks

end MicaBoards
