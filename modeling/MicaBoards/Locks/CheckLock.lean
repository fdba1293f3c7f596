import MicaBoards.Foundations.Text
import Mathlib.Data.List.Dedup
import Mathlib.Data.List.Infix
import Mathlib.Data.List.Sort

/-
  The lock checker (`tools/check-lock.sh`) in its modes `lock`
  and `upstream`, over the bytes of a file.

  The order of comparisons is that of bytes (`LC_ALL=C`). The
  pathname expansion of a word in the directory that the
  checker runs in is a parameter, and so is what `iconv`
  takes beyond UTF-8.

  Key definitions include:
    * `readRows`
    * `checkRow`, `checkRows`
    * `checkLock`
    * `checkUpstream`
-/

------------------------------------------------------------
-- Answers
------------------------------------------------------------

namespace MicaBoards

namespace Locks

open Text

/- The rules that the checker names. -/
inductive Rule
| encoding
| header
| kindUnknown
| columnCount
| releaseRow
| fieldValue
| releaseScope
| referenceDigest
| referenceRegistry
| referenceRepository
| referenceUpstream
| imageSource
| scopeContent
| dataFile
| duplicateKey
| baseOnlyKind
| packageWithoutPool
| boardComponents
| sortOrder
| upstreamReleaseRow
| pinFormat
| nameMismatch
| scopeMismatch
| pinWithoutLock
| lockWithoutPin
| lockInvalid
| releaseMismatch
| checkoutInCi
deriving DecidableEq, Repr

/- A rule refused, or an error of the shell. -/
inductive Failure
| refused (rule : Rule)
| aborted
deriving DecidableEq, Repr

abbrev Check := Except Failure

/- `[ condition ] || refuse rule` -/
def require (condition : Bool) (rule : Rule) : Check Unit :=
  if condition then .ok () else .error (.refused rule)

------------------------------------------------------------
-- Forms
------------------------------------------------------------

/- A first byte of one class, the others of another. -/
def headTail (p q : UInt8 → Bool) (s : Bytes) : Bool :=
  match s with
  | [] => false
  | b :: rest => p b && rest.all q

/- One or more bytes of a class. -/
def plus (p : UInt8 → Bool) (s : Bytes) : Bool :=
  s ≠ [] && s.all p

/- So many bytes of a class. -/
def exactly (n : Nat) (p : UInt8 → Bool) (s : Bytes) : Bool :=
  s.length = n && s.all p

/- `[a-z0-9]` -/
def isLowerDigit (b : UInt8) : Bool :=
  isLower b || isDigit b

/- `[a-z0-9-]` -/
def isRepositoryByte (b : UInt8) : Bool :=
  isLowerDigit b || b = 0x2d

/- `[a-z0-9.+-]` -/
def isNameByte (b : UInt8) : Bool :=
  isRepositoryByte b || b = 0x2e || b = 0x2b

/- `[A-Za-z0-9._-]` -/
def isTagByte (b : UInt8) : Bool :=
  isRepositoryByte b || isUpper b || b = 0x2e || b = 0x5f

/- `[a-z0-9._-]`, or a slash -/
def isPathByte (b : UInt8) : Bool :=
  isRepositoryByte b || b = 0x2e || b = 0x5f || b = 0x2f

/- `[A-Za-z0-9.+~:-]` -/
def isVersionByte (b : UInt8) : Bool :=
  isNameByte b || isUpper b || b = 0x7e || b = 0x3a

def colon : UInt8 := 0x3a

def slash : UInt8 := 0x2f

def atSign : UInt8 := 0x40

/- `NAME_RE` -/
def isName : Bytes → Bool :=
  headTail isLowerDigit isNameByte

/- `REPOSITORY_RE` -/
def isRepository : Bytes → Bool :=
  headTail isLowerDigit isRepositoryByte

/- `VERSION_RE` -/
def isVersion : Bytes → Bool :=
  plus isVersionByte

/- `SHA_RE` -/
def isSha : Bytes → Bool :=
  exactly 64 isHex

/- `^[0-9a-f]{40}$` -/
def isCommit : Bytes → Bool :=
  exactly 40 isHex

/- `ARCH_RE` -/
def isArch (s : Bytes) : Bool :=
  s ∈ [ascii "amd64", ascii "arm64"]

/- `^(index|amd64|arm64|386)$` -/
def isPlatform (s : Bytes) : Bool :=
  s ∈ [ascii "index", ascii "amd64", ascii "arm64",
    ascii "386"]

/- `^[0-9]{8}-[0-9]{4}$` -/
def isStamp (s : Bytes) : Bool :=
  exactly 8 isDigit (s.take 8) &&
    (s.drop 8).head? = some 0x2d &&
    exactly 4 isDigit (s.drop 9)

def offline : Bytes := ascii "offline"

/- `(:[A-Za-z0-9._-]+)?` behind a text without colons -/
def tagForm (s : Bytes) : Bool :=
  colon ∉ s || plus isTagByte (afterFirst colon s)

/- `sha256:[0-9a-f]{64}` -/
def isDigest (s : Bytes) : Bool :=
  (ascii "sha256:").isPrefixOf s && isSha (s.drop 7)

/- `UPSTREAM_NAME_RE` -/
def isUpstreamName (s : Bytes) : Bool :=
  headTail isLowerDigit isPathByte (beforeFirst colon s) &&
    tagForm s

/- `UPSTREAM_REFERENCE_RE` -/
def isUpstreamReference (s : Bytes) : Bool :=
  let host := beforeFirst slash s
  let labels := (beforeFirst colon host).splitOn dot
  let rest := afterFirst slash s
  let front := beforeFirst atSign rest
  slash ∈ s && 2 ≤ labels.length &&
    labels.all (plus isRepositoryByte) &&
    (colon ∉ host || plus isDigit (afterFirst colon host)) &&
    atSign ∈ rest &&
    plus isPathByte (beforeFirst colon front) &&
    tagForm front && isDigest (afterFirst atSign rest)

/- What the expression of `reference` captures. -/
structure Reference where
  registry : Bytes
  repository : Bytes
  tag : Bytes
deriving DecidableEq

def ghcr : Bytes := ascii "ghcr.io/micaoss"

def localRegistry : Bytes := ascii "local"

/- The expression behind the registry and its slash. -/
def parseRepository
    (registry rest : Bytes) : Option Reference :=
  let front := beforeFirst atSign rest
  let repository := beforeFirst colon front
  if isRepository repository && tagForm front &&
      atSign ∈ rest && isDigest (afterFirst atSign rest) then
    some
      ⟨registry, repository,
        if colon ∈ front then afterFirst colon front else []⟩
  else
    none

/- The expression of `reference`. -/
def parseReference (ref : Bytes) : Option Reference :=
  if (ghcr ++ [slash]).isPrefixOf ref then
    parseRepository ghcr (ref.drop (ghcr.length + 1))
  else if (localRegistry ++ [slash]).isPrefixOf ref then
    parseRepository localRegistry
      (ref.drop (localRegistry.length + 1))
  else
    none

/- `ghcr.io/micaoss/* | local/*` -/
def onMicaRegistry (ref : Bytes) : Bool :=
  (ghcr ++ [slash]).isPrefixOf ref ||
    (localRegistry ++ [slash]).isPrefixOf ref

/- `*@sha256:*` -/
def hasDigest (ref : Bytes) : Bool :=
  ascii "@sha256:" <:+: ref

/- `https://*` -/
def isHttps (s : Bytes) : Bool :=
  (ascii "https://").isPrefixOf s

/- `/*` -/
def isAbsolute (s : Bytes) : Bool :=
  s.head? = some slash

------------------------------------------------------------
-- Rows
------------------------------------------------------------

/- The fields of a row. -/
abbrev Row := List Bytes

/- `FIELDS[i]` -/
def Row.field (row : Row) (i : Nat) : Bytes :=
  row.getD i []

/- `split` -/
def split (line : Bytes) : Row :=
  line.splitOn tab

/- The lines behind the header that are no comments. -/
def takeRows : List Bytes → Check (List Bytes)
| [] => .ok []
| line :: lines => do
    require (line ≠ []) .encoding
    require (line.head? ≠ some space) .encoding
    require (line.getLast? ≠ some tab) .encoding
    let rows ← takeRows lines
    if line.head? = some 0x23 then
      return rows
    else
      return line :: rows

/-
  What `iconv -f UTF-8 -t UTF-8` takes: all UTF-8, and what an
  implementation takes beyond it, as code points that are too
  large.
-/
structure Iconv where
  takes : Bytes → Bool
  utf8 : ∀ file : Bytes, isUtf8 file = true → takes file = true

/- One that takes UTF-8 and nothing else. -/
def strictIconv : Iconv where
  takes := isUtf8
  utf8 _ hUtf8 := hUtf8

/- Taken by `iconv`, LF with a final LF, and no CR. -/
def checkText (iconv : Iconv) (file : Bytes) : Check Unit := do
  require (iconv.takes file) .encoding
  require (file.getLast? = some lf) .encoding
  require (cr ∉ file) .encoding

/- `ROWS` -/
def readRows
    (iconv : Iconv)
    (file : Bytes) : Check (List Row) := do
  checkText iconv file
  require
    ((mapfile file).headD [] = ascii "# mica-lock v1") .header
  let lines ← takeRows (mapfile file).tail
  return lines.map split

/- The kinds of rows, in the order of `KINDS`. -/
inductive Kind
| release
| image
| pool
| package
| board
| upstream
| apt
| data
deriving DecidableEq, Repr

def Kind.name : Kind → Bytes
| .release => ascii "release"
| .image => ascii "image"
| .pool => ascii "pool"
| .package => ascii "package"
| .board => ascii "board"
| .upstream => ascii "upstream"
| .apt => ascii "apt"
| .data => ascii "data"

/- `KINDS` -/
def kinds : List Kind :=
  [.release, .image, .pool, .package, .board, .upstream, .apt,
    .data]

/- `kind_index` -/
def Kind.index : Kind → Nat
| .release => 0
| .image => 1
| .pool => 2
| .package => 3
| .board => 4
| .upstream => 5
| .apt => 6
| .data => 7

/- `COLUMNS` -/
def Kind.columns : Kind → Nat
| .release => 4
| .image => 5
| .pool => 3
| .package => 5
| .board => 5
| .upstream => 7
| .apt => 5
| .data => 4

def kindOf (row : Row) : Option Kind :=
  kinds.find? fun kind => kind.name = row.field 0

/- A table is not looked up at an empty name. -/
def requireKnown (row : Row) (known : Bool) : Check Unit :=
  if row.field 0 = [] then
    .error .aborted
  else
    require known .kindUnknown

/- The kind of a row is known, and its columns are counted. -/
def checkColumns (row : Row) : Check Unit := do
  requireKnown row (kindOf row).isSome
  require
    ((kindOf row).elim false
      fun kind => row.length = kind.columns) .columnCount

/- `upstream_image` -/
def upstreamImage (row : Row) : Check Unit := do
  require
    (isUpstreamName (row.field 2) && isPlatform (row.field 3))
    .fieldValue
  require (hasDigest (row.field 4)) .referenceDigest
  require (!onMicaRegistry (row.field 4)) .referenceUpstream
  require (isUpstreamReference (row.field 4)) .fieldValue

/- Fields joined as `KEYS` and `SORTKEYS` hold them. -/
def joinFields (fields : List Bytes) : Bytes :=
  ([0x01] : Bytes).intercalate fields

/- What orders a row, and what is looked up as a duplicate. -/
def sortKey (index : Nat) (key : Bytes) : Bytes :=
  UInt8.ofNat (0x30 + index) :: 0x01 :: key

def tableKey (kind key : Bytes) : Bytes :=
  kind ++ 0x02 :: key

/- No key is greater than the next one. -/
def inOrder : List Bytes → Bool
| first :: second :: rest =>
    !(second < first) && inOrder (second :: rest)
| _ => true

------------------------------------------------------------
-- Lock Mode
------------------------------------------------------------

/- What the release row says. -/
structure Release where
  repository : Bytes
  scope : Bytes
  release : Bytes
deriving DecidableEq

/- `SCOPED_REPOSITORIES` -/
def isScoped (repository : Bytes) : Bool :=
  repository ∈ [ascii "mica-boards", ascii "mica-build"]

/- `SCOPE` and `RELEASE`, split at the last dot. -/
def splitRelease (field : Bytes) : Bytes × Bytes :=
  if dot ∈ field then
    (beforeLast dot field, afterLast dot field)
  else
    ([], field)

namespace Release

def ofRow (row : Row) : Release where
  repository := row.field 1
  scope := (splitRelease (row.field 2)).1
  release := (splitRelease (row.field 2)).2

/- `BOARD_SCOPE` -/
def boardScope (release : Release) : Bytes :=
  if release.repository = ascii "mica-boards" then
    release.scope
  else
    []

/- `REGISTRY` -/
def registry (release : Release) : Bytes :=
  if release.release = offline then localRegistry else ghcr

end Release

/- The release row. -/
def checkRelease (row : Row) : Check Unit := do
  let release := Release.ofRow row
  require
    (isRepository release.repository &&
      (isStamp release.release ||
        release.release = offline) &&
      isCommit (row.field 3) &&
      (release.scope = [] || isRepository release.scope))
    .fieldValue
  require
    (isScoped release.repository = decide (release.scope ≠ []))
    .releaseScope

/- `reference`, and the tag it leaves. -/
def reference
    (release : Release)
    (ref repository : Bytes) : Check Bytes := do
  require (hasDigest ref) .referenceDigest
  match parseReference ref with
  | none =>
      require (!onMicaRegistry ref) .fieldValue
      .error (.refused .referenceRegistry)
  | some found =>
      require (found.registry = release.registry)
        .referenceRegistry
      require (found.repository = repository)
        .referenceRepository
      return found.tag

/- The items of a roots field, and its words. -/
def rootItems (roots : Bytes) : List Bytes :=
  roots.splitOn comma

/- `${roots//,/ }`, split into words -/
def rootWords (roots : Bytes) : List Bytes :=
  ((roots.map fun b => if b = comma then space else b).splitOn
    space).filter (· ≠ [])

/- `sort -u` -/
def sortUnique (lines : List Bytes) : List Bytes :=
  (lines.insertionSort (· ≤ ·)).dedup

/- Every expanded word is a name, and the items are sorted. -/
def checkRoots
    (expand : Bytes → List Bytes)
    (roots : Bytes) : Bool :=
  ((rootWords roots).flatMap expand).all isName &&
    ([comma] : Bytes).intercalate
      (sortUnique (rootItems roots)) = roots

/- What the fields of a row must be, by its kind. -/
def checkFields
    (rootsOk : Bytes → Bool)
    (release : Release)
    (row : Row) : Check Unit :=
  match kindOf row with
  | some .image =>
      if row.field 1 = ascii "upstream" then
        upstreamImage row
      else if isRepository (row.field 1) then do
        require (isName (row.field 2) && isPlatform (row.field 3))
          .fieldValue
        let _ ← reference release (row.field 4) (row.field 1)
        require (row.field 1 = release.repository) .imageSource
      else
        .error (.refused .imageSource)
  | some .pool => do
      require (isArch (row.field 1)) .fieldValue
      let tag ← reference release (row.field 2) release.repository
      require
        (release.boardScope = [] ||
          (ascii "pool." ++ release.boardScope ++ [dot] ++
            row.field 1 ++ [dot]).isPrefixOf tag)
        .scopeContent
  | some .package =>
      require
        (isName (row.field 1) && isArch (row.field 2) &&
          isVersion (row.field 3) && isSha (row.field 4))
        .fieldValue
  | some .board => do
      require
        (isName (row.field 1) &&
          row.field 2 ∈
            [ascii "board", ascii "kernel", ascii "uboot",
              ascii "firmware"] &&
          isArch (row.field 3))
        .fieldValue
      let tag ← reference release (row.field 4) release.repository
      require
        (release.boardScope = [] ||
          (row.field 1 = release.boardScope &&
            (row.field 2 ++ [dot] ++ row.field 1 ++
              [dot]).isPrefixOf tag))
        .scopeContent
  | some .upstream =>
      require
        (isName (row.field 1) && isArch (row.field 2) &&
          isVersion (row.field 3) && isSha (row.field 4) &&
          isHttps (row.field 5) && rootsOk (row.field 6))
        .fieldValue
  | some .apt =>
      require
        (isHttps (row.field 1) && row.field 2 ≠ [] &&
          row.field 3 ≠ [] && isAbsolute (row.field 4))
        .fieldValue
  | some .data =>
      require
        (isName (row.field 1) && isName (row.field 2) &&
          isSha (row.field 3))
        .fieldValue
  | some .release => .error (.refused .releaseRow)
  | none => .error (.refused .releaseRow)

/- The key fields of a row. -/
def keyFields (row : Row) : List Bytes :=
  match kindOf row with
  | some .image => [row.field 1, row.field 2, row.field 3]
  | some .pool => [row.field 1]
  | some .package => [row.field 1, row.field 2]
  | some .board => [row.field 1, row.field 2]
  | some .upstream => [row.field 1, row.field 2]
  | some .data => [row.field 1]
  | some .apt => []
  | some .release => []
  | none => []

/- What the loop over the rows gathers. -/
structure Gathered where
  keys : List Bytes
  sortKeys : List Bytes
  pools : List Bytes
  dataFiles : List Bytes
  packageArches : List Bytes
  baseOnly : Bool
  boardComponents : List Bytes
deriving DecidableEq

namespace Gathered

def empty : Gathered where
  keys := []
  sortKeys := []
  pools := []
  dataFiles := []
  packageArches := []
  baseOnly := false
  boardComponents := []

/- A row that passed its checks is gathered. -/
def add (gathered : Gathered) (row : Row) : Gathered :=
  let key := joinFields (keyFields row)
  let gathered :=
    { gathered with
      keys := gathered.keys ++ [tableKey (row.field 0) key]
      sortKeys := gathered.sortKeys ++
        [sortKey ((kindOf row).elim 0 Kind.index) key] }
  match kindOf row with
  | some .pool =>
      { gathered with pools := gathered.pools ++ [row.field 1] }
  | some .data =>
      { gathered with
        dataFiles := gathered.dataFiles ++ [row.field 2] }
  | some .package =>
      { gathered with
        packageArches :=
          gathered.packageArches ++ [row.field 2] }
  | some .board =>
      { gathered with
        boardComponents :=
          gathered.boardComponents ++ [row.field 2] }
  | some .upstream => { gathered with baseOnly := true }
  | some .apt => { gathered with baseOnly := true }
  | some .image => gathered
  | some .release => gathered
  | none => gathered

end Gathered

/- One turn of the loop over the rows. -/
def checkRow
    (rootsOk : Bytes → Bool)
    (release : Release)
    (gathered : Gathered)
    (row : Row) : Check Gathered := do
  checkFields rootsOk release row
  require
    (kindOf row ≠ some .data ||
      row.field 2 ∉ gathered.dataFiles) .dataFile
  require
    (tableKey (row.field 0) (joinFields (keyFields row)) ∉
      gathered.keys) .duplicateKey
  return gathered.add row

def checkRows
    (rootsOk : Bytes → Bool)
    (release : Release)
    (gathered : Gathered) :
    List Row → Check Gathered
| [] => .ok gathered
| row :: rows => do
    let gathered ← checkRow rootsOk release gathered row
    checkRows rootsOk release gathered rows

/- What is checked of all rows together. -/
def checkGathered
    (release : Release)
    (gathered : Gathered) : Check Unit := do
  require
    (release.repository = ascii "mica-system-base" ||
      !gathered.baseOnly) .baseOnlyKind
  require
    (gathered.packageArches.all (· ∈ gathered.pools))
    .packageWithoutPool
  require
    (release.repository ≠ ascii "mica-boards" ||
      (ascii "board" ∈ gathered.boardComponents &&
        ascii "kernel" ∈ gathered.boardComponents))
    .boardComponents
  require (inOrder gathered.sortKeys) .sortOrder

/- Rows of one kind. -/
def isKind (kind : Kind) (row : Row) : Bool :=
  row.field 0 = kind.name

/- Lock mode, behind the encoding. -/
def checkLockRows
    (rootsOk : Bytes → Bool)
    (rows : List Row) : Check Unit := do
  rows.forM checkColumns
  require
    (((rows.head?).elim false (isKind .release)) &&
      (rows.filter (isKind .release)).length = 1)
    .releaseRow
  let first := rows.headD []
  checkRelease first
  let gathered ←
    checkRows rootsOk (Release.ofRow first) Gathered.empty
      rows.tail
  checkGathered (Release.ofRow first) gathered

/- `check-lock.sh lock`, with the check of roots as given -/
def checkLockWith
    (iconv : Iconv)
    (rootsOk : Bytes → Bool)
    (file : Bytes) : Check Unit := do
  let rows ← readRows iconv file
  checkLockRows rootsOk rows

/- `check-lock.sh lock` -/
def checkLock
    (iconv : Iconv)
    (expand : Bytes → List Bytes)
    (file : Bytes) : Check Unit :=
  checkLockWith iconv (checkRoots expand) file

------------------------------------------------------------
-- Upstream Mode
------------------------------------------------------------

/- The kinds of upstream rows, in the order of `UKINDS`. -/
inductive UpstreamKind
| image
| source
| git
deriving DecidableEq, Repr

def UpstreamKind.name : UpstreamKind → Bytes
| .image => ascii "image"
| .source => ascii "source"
| .git => ascii "git"

def upstreamKinds : List UpstreamKind :=
  [.image, .source, .git]

def UpstreamKind.index : UpstreamKind → Nat
| .image => 0
| .source => 1
| .git => 2

/- `UCOLUMNS` -/
def UpstreamKind.columns : UpstreamKind → Nat
| .image => 5
| .source => 6
| .git => 5

def upstreamKindOf (row : Row) : Option UpstreamKind :=
  upstreamKinds.find? fun kind => kind.name = row.field 0

def checkUpstreamColumns (row : Row) : Check Unit := do
  require (row.field 0 ≠ ascii "release") .upstreamReleaseRow
  requireKnown row (upstreamKindOf row).isSome
  require
    ((upstreamKindOf row).elim false
      fun kind => row.length = kind.columns) .columnCount

/- `^(amd64|arm64|all)$` -/
def isSourceArch (s : Bytes) : Bool :=
  isArch s || s = ascii "all"

def checkUpstreamFields (row : Row) : Check Unit :=
  match upstreamKindOf row with
  | some .image => do
      require (row.field 1 = ascii "upstream") .imageSource
      upstreamImage row
  | some .source =>
      require
        (isName (row.field 1) && isSourceArch (row.field 2) &&
          isVersion (row.field 3) && isSha (row.field 4) &&
          isHttps (row.field 5))
        .fieldValue
  | some .git =>
      require
        (isName (row.field 1) && isHttps (row.field 2) &&
          row.field 3 ≠ [] && isCommit (row.field 4))
        .fieldValue
  | none => .ok ()

def upstreamKeyFields (row : Row) : List Bytes :=
  match upstreamKindOf row with
  | some .image => [row.field 1, row.field 2, row.field 3]
  | some .source => [row.field 1, row.field 2]
  | some .git => [row.field 1]
  | none => []

/- `KEYS` and `SORTKEYS` -/
structure UpstreamGathered where
  keys : List Bytes
  sortKeys : List Bytes
deriving DecidableEq

def checkUpstreamRow
    (gathered : UpstreamGathered)
    (row : Row) : Check UpstreamGathered := do
  checkUpstreamFields row
  let key := joinFields (upstreamKeyFields row)
  require (tableKey (row.field 0) key ∉ gathered.keys)
    .duplicateKey
  return {
    keys := gathered.keys ++ [tableKey (row.field 0) key]
    sortKeys := gathered.sortKeys ++
      [sortKey ((upstreamKindOf row).elim 0 UpstreamKind.index)
        key] }

def checkUpstreamRows
    (gathered : UpstreamGathered) :
    List Row → Check UpstreamGathered
| [] => .ok gathered
| row :: rows => do
    let gathered ← checkUpstreamRow gathered row
    checkUpstreamRows gathered rows

/- `check-lock.sh upstream` -/
def checkUpstream
    (iconv : Iconv)
    (file : Bytes) : Check Unit := do
  let rows ← readRows iconv file
  rows.forM checkUpstreamColumns
  let gathered ← checkUpstreamRows ⟨[], []⟩ rows
  require (inOrder gathered.sortKeys) .sortOrder

end Locks

end MicaBoards
