import MicaBoards.Locks.CheckLock

/-
  The pins of a locks directory (`tools/check-lock.sh`, mode
  `pins`): which files are listed, how a pin is read, and how
  a pin and its lock are compared.

  File names hold no NUL byte. `sort`, `sed` and `find` see
  bytes (`LC_ALL=C`).

  Key definitions include:
    * `LocksDir`
    * `checkPin`
    * `checkPins`
-/

------------------------------------------------------------
-- Directories
------------------------------------------------------------

namespace MicaBoards

namespace Locks

open Text

/- The regular files of a directory, each name once. -/
structure Files where
  entries : List (Bytes × Bytes)
  nodup : (entries.map Prod.fst).Nodup

namespace Files

def names (files : Files) : List Bytes :=
  files.entries.map Prod.fst

/- What a file of this name holds. -/
def read (files : Files) (name : Bytes) : Option Bytes :=
  files.entries.lookup name

end Files

/- A locks directory, and its directory `pins`. -/
structure LocksDir where
  files : Files
  pins : Files

def pinSuffix : Bytes := ascii ".pin"

def lockSuffix : Bytes := ascii ".lock"

def upstreamLock : Bytes := ascii "upstream.lock"

/- `sed 's/\.pin$//'`, on one line -/
def stripSuffix (suffix line : Bytes) : Bytes :=
  if suffix.isSuffixOf line then
    line.take (line.length - suffix.length)
  else
    line

/- `find ... -printf '%f\n' | sed ... | sort`, by lines -/
def listing
    (suffix : Bytes)
    (names : List Bytes) : List Bytes :=
  ((textLines (names.flatMap (· ++ [lf]))).map
    (stripSuffix suffix)).insertionSort (· ≤ ·)

namespace LocksDir

variable (dir : LocksDir)

/- The files that `find` takes for pins. -/
def pinFiles : List Bytes :=
  dir.pins.names.filter pinSuffix.isSuffixOf

/- The files that `find` takes for locks. -/
def lockFiles : List Bytes :=
  dir.files.names.filter fun name =>
    lockSuffix.isSuffixOf name && name ≠ upstreamLock

/- `PINS` -/
def pinNames : List Bytes :=
  listing pinSuffix dir.pinFiles

/- `LOCKS` -/
def lockNames : List Bytes :=
  listing lockSuffix dir.lockFiles

end LocksDir

------------------------------------------------------------
-- Pins
------------------------------------------------------------

/- `KEYS_SEEN` and `VALUES`, the last assignment in front -/
structure PinKeys where
  seen : Bytes
  values : List (Bytes × Bytes)
deriving DecidableEq

def PinKeys.empty : PinKeys where
  seen := []
  values := []

/- `${VALUES[key]}`, where it may be unset -/
def PinKeys.value (keys : PinKeys) (key : Bytes) :
    Option Bytes :=
  keys.values.lookup key

/- `${VALUES[key]}`, where unset is an error of the shell -/
def PinKeys.required
    (keys : PinKeys)
    (key : Bytes) : Check Bytes :=
  match keys.value key with
  | some value => .ok value
  | none => .error .aborted

/- One turn of the loop over the lines of a pin. -/
def readKey (keys : PinKeys) (line : Bytes) : Check PinKeys :=
  if equals ∉ line then
    .error (.refused .pinFormat)
  else if beforeFirst equals line = [] then
    -- An empty subscript is an error.
    .error .aborted
  else
    .ok {
      seen := keys.seen ++ space :: beforeFirst equals line
      values :=
        (beforeFirst equals line, afterFirst equals line) ::
          keys.values }

def readKeys (keys : PinKeys) : List Bytes → Check PinKeys
| [] => .ok keys
| line :: lines => do
    let keys ← readKey keys line
    readKeys keys lines

def pinHeader : Bytes := ascii "# mica-pin v1"

def keyRepository : Bytes := ascii "REPOSITORY"

def keyScope : Bytes := ascii "SCOPE"

def keyRelease : Bytes := ascii "RELEASE"

def keySums : Bytes := ascii "SHA256SUMS"

def keyCheckout : Bytes := ascii "CHECKOUT"

/- The keys of a pin, in order. -/
def wantedKeys (hasScope isOffline : Bool) : List Bytes :=
  [keyRepository] ++
    (if hasScope then [keyScope] else []) ++
    [keyRelease, keySums] ++
    (if isOffline then [keyCheckout] else [])

/- A space in front of each key. -/
def joinKeys (keys : List Bytes) : Bytes :=
  keys.flatMap (space :: ·)

/- `file_scope` -/
def fileScope (name : Bytes) : Bytes :=
  if name = beforeFirst dot name then
    []
  else
    afterFirst dot name

/- What is kept of a pin. -/
structure Pinned where
  repository : Bytes
  scope : Bytes
  release : Bytes
  checkout : Bytes
deriving DecidableEq

/- Where the release is `offline`, `CHECKOUT` must be set. -/
def checkoutOf (keys : PinKeys) : Check Bytes :=
  if (keys.value keyRelease).getD [] = offline then
    keys.required keyCheckout
  else
    .ok ((keys.value keyCheckout).getD [])

/- The values of a pin, behind its format. -/
def checkValues
    (name : Bytes)
    (keys : PinKeys) : Check Pinned := do
  let scope := keys.value keyScope
  let release := (keys.value keyRelease).getD []
  let repository ← keys.required keyRepository
  require (isRepository repository) .fieldValue
  let sums ← keys.required keySums
  require
    (isSha sums && (release = offline || isStamp release) &&
      scope.all isRepository) .fieldValue
  let checkout ← checkoutOf keys
  require (release ≠ offline || isAbsolute checkout)
    .fieldValue
  require (repository = beforeFirst dot name) .nameMismatch
  require (scope.getD [] = fileScope name) .scopeMismatch
  require (scope.isSome = isScoped (beforeFirst dot name))
    .releaseScope
  return {
    repository := repository
    scope := scope.getD []
    release := release
    checkout := checkout }

/- One turn of the loop over the pins. -/
def checkPin
    (iconv : Iconv)
    (name text : Bytes) : Check Pinned := do
  checkText iconv text
  require ((mapfile text).headD [] = pinHeader) .header
  let keys ← readKeys PinKeys.empty (mapfile text).tail
  require
    (keys.seen =
      joinKeys
        (wantedKeys (keys.value keyScope).isSome
          ((keys.value keyRelease).getD [] = offline)))
    .pinFormat
  checkValues name keys

/- The pin of this name, which `iconv` must be able to read. -/
def checkPinFile
    (iconv : Iconv)
    (dir : LocksDir)
    (name : Bytes) : Check (Bytes × Pinned) :=
  match dir.pins.read (name ++ pinSuffix) with
  | none => .error (.refused .encoding)
  | some text => do
      let pinned ← checkPin iconv name text
      return (name, pinned)

/- The loop over the pins. -/
def checkPinFiles
    (iconv : Iconv)
    (dir : LocksDir) :
    List Bytes → Check (List (Bytes × Pinned))
| [] => .ok []
| name :: names => do
    let entry ← checkPinFile iconv dir name
    let entries ← checkPinFiles iconv dir names
    return entry :: entries

------------------------------------------------------------
-- Locks of Pins
------------------------------------------------------------

/-
  What `grep` takes for binary: of files that hold a NUL byte
  it takes some, depending on where, and text never.
-/
structure Grep where
  binary : Bytes → Bool
  text : ∀ file : Bytes, 0 ∉ file → binary file = false

def releasePrefix : Bytes := ascii "release\t"

/- `grep -m1 '^release\t'`, which does not print binary lines -/
def Grep.releaseLine (grep : Grep) (file : Bytes) : Bytes :=
  if grep.binary file then
    ascii "binary file matches"
  else
    ((textLines file).find? releasePrefix.isPrefixOf).getD []

/- `IFS=$'\t' read`: runs of tabs separate, NULs are skipped. -/
def readFields (line : Bytes) : List Bytes :=
  ((dropNuls line).splitOn tab).filter (· ≠ [])

/- What `read` takes out of a release row. -/
def readRelease (line : Bytes) : Release where
  repository := (readFields line).getD 1 []
  scope := (splitRelease ((readFields line).getD 2 [])).1
  release := (splitRelease ((readFields line).getD 2 [])).2

/- `ci|local` -/
inductive PinsMode
| ci
| localMode
deriving DecidableEq, Repr

/- A listed lock has a pin. -/
def checkPinOf
    (entries : List (Bytes × Pinned))
    (name : Bytes) : Check Unit :=
  if name = [] then
    -- An empty subscript is an error.
    .error .aborted
  else
    require
      ((entries.lookup name).any fun pinned =>
        pinned.release ≠ [])
      .lockWithoutPin

/- The lock of a pin is valid, and its release is the pin's. -/
def checkLockOf
    (iconv : Iconv)
    (grep : Grep)
    (expand : Bytes → List Bytes)
    (mode : PinsMode)
    (dir : LocksDir)
    (entry : Bytes × Pinned) : Check Unit := do
  let lock := (dir.files.read (entry.1 ++ lockSuffix)).getD []
  let pinned := entry.2
  require (checkLock iconv expand lock).isOk .lockInvalid
  let release := readRelease (grep.releaseLine lock)
  require (release.repository = pinned.repository) .lockInvalid
  require (release.scope = pinned.scope) .scopeMismatch
  require (release.release = pinned.release) .releaseMismatch
  require (pinned.checkout = [] || mode ≠ .ci) .checkoutInCi

/- `check-lock.sh pins` -/
def checkPins
    (iconv : Iconv)
    (grep : Grep)
    (expand : Bytes → List Bytes)
    (mode : PinsMode)
    (dir : LocksDir) : Check Unit := do
  let entries ← checkPinFiles iconv dir dir.pinNames
  entries.forM fun entry =>
    require (dir.files.read (entry.1 ++ lockSuffix)).isSome
      .pinWithoutLock
  dir.lockNames.forM (checkPinOf entries)
  entries.forM (checkLockOf iconv grep expand mode dir)

end Locks

end MicaBoards
