import MicaBoards.Foundations.Owners
import MicaBoards.Foundations.Words

/-
  The ownership check of the package gate: every path of every
  archive of a pool, as `dpkg-deb --contents` lists it, with
  the packages that have it so far.

  Key definitions include:
    * `Entry`, `Archive`
    * `conflictsWith`, `mutuallyConflicting`
    * `pathOf`, `Entry.readPaths`
    * `gateArchive`, `ownershipFailures`
-/

------------------------------------------------------------
-- Archives
------------------------------------------------------------

namespace MicaBoards

namespace Packages

open Text

/-
  One thing that an archive holds, as `tar` prints it.  The
  names of the owner and its group are printed as they are,
  paths without line ends.
-/
structure Entry where
  mode : Word
  owner : Bytes
  padding : Nat
  size : Word
  date : Word
  time : Word
  /- Without the `./` before it and the `/` of a directory -/
  path : Bytes
  /- `-> target` behind a link, `link to target` -/
  target : Option Bytes
deriving DecidableEq

/- The first letter of the mode says what the path is. -/
def Entry.isDirectory (entry : Entry) : Bool :=
  entry.mode.bytes.head? = some 0x64

def slash : UInt8 := 0x2f

def Entry.pathText (entry : Entry) : Bytes :=
  ascii "./" ++ entry.path ++
    if entry.isDirectory ∧ entry.path ≠ [] then [slash] else []

def Entry.targetText (entry : Entry) : Bytes :=
  match entry.target with
  | none => []
  | some target => space :: target

def Entry.line (entry : Entry) : Bytes :=
  entry.mode.bytes ++ space ::
    (entry.owner ++ space ::
      (List.replicate entry.padding space ++
        (entry.size.bytes ++ space ::
          (entry.date.bytes ++ space ::
            (entry.time.bytes ++ space ::
              (entry.pathText ++ entry.targetText))))))

/-
  An archive: its name, its `Provides` and `Conflicts` fields,
  and what it holds.  The characters of a name mean nothing to
  a shell pattern.
-/
structure Archive where
  name : Word
  provides : Bytes
  conflicts : Bytes
  entries : List Entry

------------------------------------------------------------
-- Provides and Conflicts
------------------------------------------------------------

def openParen : UInt8 := 0x28

/- `IFS=',' read -ra`: the first line, cut at commas -/
def fieldEntries (field : Bytes) : List Bytes :=
  (beforeFirst lf field).splitOn comma

/- The name of one entry of `Provides` -/
def provideName (entry : Bytes) : Option Bytes :=
  let name := beforeFirst openParen (firstWord entry)
  if name = [] then none else some name

/- The name of one entry of `Conflicts` without a version -/
def conflictName (entry : Bytes) : Option Bytes :=
  let name := firstWord entry
  if skipBlanks (afterWord entry) ≠ [] then none
  else if openParen ∈ name then none
  else if name = [] then none
  else some name

def Archive.provideNames (deb : Archive) : List Bytes :=
  (fieldEntries deb.provides).filterMap provideName

def Archive.conflictNames (deb : Archive) : List Bytes :=
  (fieldEntries deb.conflicts).filterMap conflictName

/- `PROVIDED_BY`: the packages that provide a name -/
def providedBy (debs : List Archive) : Bytes → List Bytes :=
  Owners.fill
    (debs.flatMap fun deb =>
      deb.provideNames.map fun name => (name, deb.name.bytes))

/- `CONFLICTS_WITH`: the names that a package conflicts with -/
def conflictsTable (debs : List Archive) :
    Bytes → List Bytes :=
  Owners.fill
    (debs.flatMap fun deb =>
      deb.conflictNames.map fun name => (deb.name.bytes, name))

def conflictsWith
    (debs : List Archive)
    (one other : Bytes) :
    Bool :=
  (conflictsTable debs one).any fun name =>
    name = other ∨ other ∈ providedBy debs name

def mutuallyConflicting
    (debs : List Archive)
    (one other : Bytes) :
    Bool :=
  conflictsWith debs one other && conflictsWith debs other one

------------------------------------------------------------
-- The Check
------------------------------------------------------------

/- `${path%/}` -/
def withoutSlash (path : Bytes) : Bytes :=
  if path.getLast? = some slash then path.dropLast else path

/- The path that a line of a listing makes the archive own -/
def pathOf (line : Bytes) : Option Bytes :=
  let mode := word 0 line
  if mode = [] then none
  else if mode.head? = some 0x64 then none
  else
    let path := withoutSlash (withoutDot (word 5 line))
    if path = [] then none else some path

/- The paths that are read of an entry, line by line -/
def Entry.readPaths (entry : Entry) : List Bytes :=
  (entry.line.splitOn lf).filterMap pathOf

/- What an archive claims, in the order of its listing -/
def Archive.claims (deb : Archive) : List (Bytes × Bytes) :=
  (deb.entries.flatMap Entry.readPaths).map
    fun path => (path, deb.name.bytes)

/- `owner`, and the archives for which the check failed -/
structure Gate where
  owner : Bytes → List Bytes
  failed : List Bytes

/-
  One archive.  A path without an owner is owned from here on;
  one with owners is shared when the archive and each of them
  name the other, and is in `dup` otherwise.
-/
def gateArchive
    (debs : List Archive)
    (gate : Gate)
    (deb : Archive) :
    Gate :=
  let after :=
    Owners.claimAll (mutuallyConflicting debs) gate.owner
      deb.claims
  { owner := after.owner
    failed :=
      if after.clashes = [] then gate.failed
      else gate.failed ++ [deb.name.bytes] }

/- The archives that the check reports, visited in order -/
def ownershipFailures (debs : List Archive) : List Bytes :=
  (debs.foldl (gateArchive debs)
    { owner := fun _ => [], failed := [] }).failed

end Packages

end MicaBoards
