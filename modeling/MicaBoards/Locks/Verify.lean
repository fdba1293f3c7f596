import MicaBoards.Locks.Pins

/-
  The commands `check` and `verify` of `tools/locks.sh`.

  The releases are a map from a repository and a release tag
  to the `SHA256SUMS` asset that can be downloaded there, and
  the hash function is a parameter.

  Key definitions include:
    * `check`
    * `verifyPin`
    * `verify`
-/

------------------------------------------------------------
-- The World Around
------------------------------------------------------------

namespace MicaBoards

namespace Locks

open Text

/- What `sha256sum` and `curl` answer. -/
structure Host where
  sha256 : Bytes → Bytes
  sha256Form : ∀ content, isSha (sha256 content) = true
  release : Bytes → Bytes → Option Bytes
  /- What a path with a slash in it leads to. -/
  elsewhere : Bytes → Option Bytes

/- Why `locks.sh` ends with an error. -/
inductive LocksError
| noBuildEnvLock
| pins (failure : Failure)
| upstream (failure : Option Failure)
| offlinePin
| download
| sumsHash
| sumsListing
| lockHash
| aborted
deriving DecidableEq

/- `[ condition ] || die ...` -/
def orDie
    (condition : Bool)
    (error : LocksError) : Except LocksError Unit :=
  if condition then .ok () else .error error

------------------------------------------------------------
-- Check
------------------------------------------------------------

def buildEnvLock : Bytes := ascii "mica-build-env.lock"

/- `check` -/
def check
    (iconv : Iconv)
    (grep : Grep)
    (expand : Bytes → List Bytes)
    (mode : PinsMode)
    (dir : LocksDir) : Except LocksError Unit := do
  orDie (dir.files.read buildEnvLock).isSome .noBuildEnvLock
  match checkPins iconv grep expand mode dir with
  | .error failure => .error (.pins failure)
  | .ok () =>
      match dir.files.read upstreamLock with
      | none => .error (.upstream none)
      | some file =>
          match checkUpstream iconv file with
          | .error failure => .error (.upstream (some failure))
          | .ok () => .ok ()

------------------------------------------------------------
-- Verify
------------------------------------------------------------

/- A line behind a prefix, where it has it. -/
def withoutPrefix (start line : Bytes) : Option Bytes :=
  if start.isPrefixOf line then
    some (line.drop start.length)
  else
    none

/- `$(sed -n 's/^key=//p')` -/
def sedValue (key text : Bytes) : Bytes :=
  captured (unlines ((textLines text).filterMap
    (withoutPrefix (key ++ [equals]))))

/- `sed 's/^[0-9a-f]\{64\}  //'`, on one line -/
def stripDigest (line : Bytes) : Bytes :=
  if isSha (line.take 64) &&
      (line.drop 64).take 2 = [space, space] then
    line.drop 66
  else
    line

/- `$(sed 's/^[0-9a-f]\{64\}  //')` -/
def listedNames (sums : Bytes) : Bytes :=
  captured (unlines ((textLines sums).map stripDigest))

/- `$(cut -d' ' -f1)` -/
def listedHashes (sums : Bytes) : Bytes :=
  captured (unlines ((textLines sums).map (beforeFirst space)))

/- `${LOCKS}/${repository}.lock` -/
def lockAt
    (host : Host)
    (dir : LocksDir)
    (repository : Bytes) : Option Bytes :=
  if slash ∈ repository then
    host.elsewhere repository
  else
    dir.files.read (repository ++ lockSuffix)

/- One turn of the loop of `verify`. -/
def verifyPin
    (host : Host)
    (dir : LocksDir)
    (pin : Bytes) : Except LocksError Unit := do
  let repository := sedValue keyRepository pin
  let release := sedValue keyRelease pin
  let trust := sedValue keySums pin
  orDie (release ≠ offline) .offlinePin
  match host.release repository release with
  | none => .error .download
  | some sums =>
      orDie (host.sha256 sums = trust) .sumsHash
      orDie (listedNames sums = repository ++ lockSuffix)
        .sumsListing
      match lockAt host dir repository with
      | none => .error .aborted
      | some lock =>
          orDie (listedHashes sums = host.sha256 lock) .lockHash

/- `"${LOCKS}"/pins/*.pin`, which leaves out hidden files -/
def LocksDir.globbedPins (dir : LocksDir) : List Bytes :=
  dir.pinFiles.filter fun name => name.head? ≠ some dot

/- The loop of `verify`; an unmatched pattern is no file. -/
def verifyPins
    (host : Host)
    (dir : LocksDir) : Except LocksError Unit :=
  if dir.globbedPins = [] then
    .error .aborted
  else
    dir.globbedPins.forM fun name =>
      verifyPin host dir ((dir.pins.read name).getD [])

/- `locks.sh verify` -/
def verify
    (iconv : Iconv)
    (host : Host)
    (grep : Grep)
    (expand : Bytes → List Bytes)
    (mode : PinsMode)
    (dir : LocksDir) : Except LocksError Unit := do
  check iconv grep expand mode dir
  verifyPins host dir

end Locks

end MicaBoards
