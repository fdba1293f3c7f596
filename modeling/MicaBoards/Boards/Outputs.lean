import Mathlib.Data.List.Destutter
import MicaBoards.Foundations.SortedLines
import MicaBoards.Foundations.Words

/-
  The outputs table of a board (`outputs.tsv`), and what
  `tools/boards.sh` asks of it.

  What `tools/component.sh list` and the producers of packages
  say of the board is a parameter.

  Key definitions include:
    * `files`, `components`, `bundleFiles`
    * `Board`, `checkOutputs`

  Main declarations:
    * `CheckedOutputs`
    * `checkedOutputs_of_check`
-/

------------------------------------------------------------
-- Rows
------------------------------------------------------------

namespace MicaBoards

namespace Boards

open Text

def hash : UInt8 := 0x23

def slash : UInt8 := 0x2f

/- `grep -v '^#'` -/
def outputs (table : Bytes) : List Bytes :=
  (textLines table).filter fun row => row.head? ≠ some hash

/- `$n` of `awk -F'\t'`, empty past the end -/
def field (row : Bytes) (n : Nat) : Bytes :=
  (row.splitOn tab).getD (n - 1) []

/- `NF`; no row is empty -/
def fieldCount (row : Bytes) : Nat :=
  (row.splitOn tab).length

def isFile (row : Bytes) : Bool :=
  field row 1 = ascii "file"

def isPackage (row : Bytes) : Bool :=
  field row 1 = ascii "package"

def packages (table : Bytes) : List Bytes :=
  ((outputs table).filter isPackage).map (field · 2)

def files (table component : Bytes) : List Bytes :=
  ((outputs table).filter fun row =>
    isFile row ∧ field row 2 = component).map (field · 3)

/- `awk … '$1 == "file" { print $2 }' | uniq` -/
def components (table : Bytes) : List Bytes :=
  (((outputs table).filter isFile).map (field · 2)).destutter
    (· ≠ ·)

/- `sed -n 's/^file\t[^\t]*\t//p'` on a row -/
def bundlePath (row : Bytes) : Option Bytes :=
  if ascii "file\t" <+: row ∧
      tab ∈ row.drop (ascii "file\t").length then
    some (afterFirst tab (row.drop (ascii "file\t").length))
  else none

/- The paths of the bundle, as `bundle-is` reads them -/
def bundleFiles (table : Bytes) : List Bytes :=
  (outputs table).filterMap bundlePath

------------------------------------------------------------
-- The Check of a Table
------------------------------------------------------------

/- What the check reads of the board besides its table -/
structure Board where
  name : Bytes
  boot : Bytes
  /- `BOARD_FIRMWARE_FILES` is not empty. -/
  firmwareFiles : Bool
  /- A producer builds the package for the board's machine. -/
  builds : Bytes → Bool

def uboot : Bytes := ascii "uboot"

def firmware : Bytes := ascii "firmware"

def kernel : Bytes := ascii "kernel"

def board : Bytes := ascii "board"

/- `tools/component.sh list` -/
def componentList (b : Board) : List Bytes :=
  [board, kernel] ++
    (if b.boot = ascii "uboot-fit" then [uboot] else []) ++
    if b.firmwareFiles then [firmware] else []

/- `text_file`: its first line, its line ends -/
def checkText (table : Bytes) : Bool :=
  captured ((textLines table).headD []) =
      ascii "# mica-boards board outputs v1" ∧
    table.getLast? = some lf ∧
    cr ∉ table ∧
    [] ∉ textLines table

/- One row: `package` and a name, or `file` and two fields -/
def checkRow (row : Bytes) : Bool :=
  (isPackage row ∧ fieldCount row = 2 ∧ field row 2 ≠ []) ∨
    (isFile row ∧ fieldCount row = 3 ∧
      field row 2 ∈ [board, kernel, uboot, firmware] ∧
      field row 3 ≠ [])

/- `keys`: the kind of a row, and its value -/
structure Key where
  kind : Nat
  value : Bytes
  path : Bytes
deriving DecidableEq

def rowKey (row : Bytes) : Key where
  kind := if isPackage row then 0 else 1
  value := field row 2
  path := field row 3

/- `sort -k1,1n -k2,2 -k3,3` -/
def Key.le (key next : Key) : Bool :=
  key.kind < next.kind ∨
    (key.kind = next.kind ∧
      (key.value < next.value ∨
        (key.value = next.value ∧ key.path ≤ next.path)))

/- `sort -c`, and no row twice -/
def checkOrder (rows : List Bytes) : Bool :=
  (rows.map rowKey).IsChain (fun key next => key.le next) ∧
    (rows.map rowKey).Nodup

/- Every path of the table -/
def allPaths (table : Bytes) : List Bytes :=
  ((outputs table).filter isFile).map (field · 3)

/- A line as `grep -qx` takes it, where a dot is any byte -/
def grepLine (pattern line : Bytes) : Bool :=
  pattern.length = line.length ∧
    (pattern.zip line).all fun (p, b) => p = dot ∨ p = b

def lists (paths : List Bytes) (pattern : String) : Bool :=
  paths.any (grepLine (ascii pattern))

/- A path below a directory at the top -/
def below (directory : String) (path : Bytes) : Bool :=
  ascii directory ++ [slash] <+: path

def checkPackages (b : Board) (table : Bytes) : Bool :=
  (packages table).any
      (grepLine (ascii "mica-board-" ++ b.name)) ∧
    (packages table).all b.builds

def checkComponents (b : Board) (table : Bytes) : Bool :=
  sortedLines (components table) = sortedLines (componentList b)

def checkBoardFiles (paths : List Bytes) : Bool :=
  lists paths "board.env" ∧ lists paths "images.tsv" ∧
    lists paths "manifests/board.pkgs" ∧
    lists paths "outputs.tsv" ∧
    lists paths "trust/verity-signer.cert.pem" ∧
    paths.all fun path =>
      ¬ (below "kernel" path ∨ below "uboot" path ∨
        below "uboot-package" path ∨ below "firmware" path ∨
        path = ascii "component-copyright")

def checkKernelFiles (b : Board) (paths : List Bytes) : Bool :=
  paths.all (below "kernel") ∧
    if b.boot = ascii "uboot-fit" then
      lists paths "kernel/dev/kernel.release" ∧
        lists paths "kernel/prod/kernel.release" ∧
        paths.all fun path =>
          ¬ (below "kernel" path ∧
            slash ∉ path.drop (ascii "kernel/").length)
    else lists paths "kernel/kernel.release" = true

def checkUbootFiles (paths : List Bytes) : Bool :=
  paths.all fun path => below "uboot" path ∨
    below "uboot-package" path

def checkFirmwareFiles (paths : List Bytes) : Bool :=
  paths.all fun path => below "firmware" path ∨
    path = ascii "component-copyright"

/- `check`, for the table of one board -/
def checkOutputs (b : Board) (table : Bytes) : Bool :=
  checkText table ∧
    (outputs table).all checkRow ∧
    checkOrder (outputs table) ∧
    (allPaths table).Nodup ∧
    checkPackages b table ∧
    checkComponents b table ∧
    checkBoardFiles (files table board) ∧
    checkKernelFiles b (files table kernel) ∧
    checkUbootFiles (files table uboot) ∧
    checkFirmwareFiles (files table firmware)

end Boards

end MicaBoards
