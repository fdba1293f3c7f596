import MicaBoards.Release.Version
import Mathlib.Data.List.MinMax

/-
  The package-version guard (`tools/deb/version-guard.sh`) and
  the pool a release publishes (`tools/deb/publish.sh`).

  A release tag is its board and its time stamp, a number: the
  tags of one board sort as their stamps do. What reads at a
  digest is what the registry serves there, if it serves
  anything. The version of an archive is what
  `control-fields.py` reads of its bytes, a parameter.

  Key definitions include:
    * `checkPackage` and `versionGuard`
    * `Publication`
    * `Guarded`
-/

------------------------------------------------------------
-- Releases
------------------------------------------------------------

namespace MicaBoards

namespace Release

inductive Arch where
| amd64
| arm64
deriving DecidableEq, Repr

/- An archive of a pool. -/
structure Archive where
  package : String
  /- the name of its file -/
  title : String
  bytes : List UInt8
deriving DecidableEq, Repr

/- A layer of a pool manifest. -/
structure Layer where
  digest : String
  title : String
  /- mica.inputs, if it has the form of a hash -/
  inputs : Option String
deriving DecidableEq, Repr

/- A package row of mica-boards.lock. -/
structure PackageRow where
  package : String
  arch : Arch
  version : List Char
  sha : String
deriving DecidableEq, Repr

/- The rows of mica-boards.lock that the guard reads. -/
structure Lock where
  pools : List (Arch × String)
  packages : List PackageRow
deriving DecidableEq, Repr

/- An entry of the release listing. -/
structure Listed where
  board : String
  stamp : Nat
  draft : Bool
  /- mica-boards.lock, if it is an asset -/
  lock : Option Lock
deriving DecidableEq, Repr

------------------------------------------------------------
-- The Guard
------------------------------------------------------------

/- What a run of the guard finds. -/
structure GuardRun where
  board : String
  arch : Arch
  /- the stamp of `--release` -/
  release : Option Nat
  /- `boards.sh packages` -/
  packages : List String
  /- INPUTS -/
  inputs : String → String
  pool : List Archive
  listing : List Listed
  /- the layers that read at a pool's digest -/
  manifests : String → Option (List Layer)
  /- the bytes that read at a layer's digest -/
  blobs : String → Option (List UInt8)

variable (sha256 : List UInt8 → String)

variable (control : List UInt8 → List Char)

namespace GuardRun

variable (run : GuardRun)

/- The releases to choose from. -/
def selects (listed : Listed) : Bool :=
  listed.draft = false ∧ listed.board = run.board ∧
    run.release ≠ some listed.stamp ∧ listed.lock.isSome

/- `previous` -/
def previous : Option Listed :=
  (run.listing.filter run.selects).argmax Listed.stamp

/- A turn of the loop over the packages, if it does not die. -/
def checkPackage
    (lock : Lock)
    (layers : List Layer)
    (package : String) : Bool :=
  match run.pool.filter (fun deb => deb.package = package) with
  | [deb] =>
    match lock.packages.find? (fun row =>
        row.package = package ∧ row.arch = run.arch) with
    -- not in the previous release: built
    | none => true
    | some row =>
      match vercmp (control deb.bytes) row.version with
      | some .gt => true
      | some .lt => false
      -- 0, and nothing too, where `vercmp` has no answer
      | _ =>
        match layers.find? (fun layer => layer.digest = row.sha)
        with
        | none => false
        | some layer =>
          match run.blobs row.sha with
          | none => false
          | some published =>
            layer.title = deb.title ∧
              layer.inputs = some (run.inputs package) ∧
              sha256 published = row.sha ∧
              deb.bytes = published
  | _ => false

/- The guard accepts the pool. -/
def versionGuard : Bool :=
  match run.previous with
  -- no published release
  | none => true
  | some previous =>
    match previous.lock with
    | none => false
    | some lock =>
      match lock.pools.find? (fun pool => pool.1 = run.arch) with
      | none => false
      | some (_, reference) =>
        match run.manifests reference with
        | none => false
        | some layers =>
          -- a release from before the package-version rules
          if layers.all (fun layer => layer.inputs.isSome) = false
          then true
          else
            run.packages.all
              (run.checkPackage sha256 control lock layers)

end GuardRun

------------------------------------------------------------
-- Publishing
------------------------------------------------------------

/-
  A release that was published after a run of the guard, with
  the digest of its pool manifest.
-/
structure Publication where
  run : GuardRun
  stamp : Nat
  reference : String

namespace Publication

variable (publication : Publication)

/- One archive for each package of the board. -/
def archives : List Archive :=
  publication.run.packages.filterMap fun package =>
    publication.run.pool.find? fun deb =>
      deb.package = package

/- The layers of the pool manifest. -/
def layers : List Layer :=
  publication.archives.map fun deb =>
    { digest := sha256 deb.bytes
      title := deb.title
      inputs := some (publication.run.inputs deb.package) }

/- The rows of the release's lock. -/
def lock : Lock where
  pools := [(publication.run.arch, publication.reference)]
  packages :=
    publication.archives.map fun deb =>
      { package := deb.package
        arch := publication.run.arch
        version := control deb.bytes
        sha := sha256 deb.bytes }

/- The release in later listings. -/
def listed : Listed where
  board := publication.run.board
  stamp := publication.stamp
  draft := false
  lock := some (publication.lock sha256 control)

end Publication

/- The listing returns the 100 newest releases. -/
def newestReleases (history : List Publication) : List Listed :=
  (history.reverse.take 100).map
    (Publication.listed sha256 control)

/-
  What the registry serves at the digests of a publication is
  what the publication has pushed.
-/
structure Serves
    (run : GuardRun)
    (publication : Publication) : Prop where
  manifest : ∀ layers : List Layer,
    run.manifests publication.reference = some layers →
    layers = publication.layers sha256
  blobs : ∀ deb ∈ publication.archives, ∀ bytes : List UInt8,
    run.blobs (sha256 deb.bytes) = some bytes →
    bytes = deb.bytes

/- A release is published after others. -/
structure Publishes
    (history : List Publication)
    (publication : Publication) : Prop where
  newer : ∀ earlier ∈ history, earlier.stamp < publication.stamp
  release : publication.run.release = some publication.stamp
  listing :
    publication.run.listing =
      newestReleases sha256 control history
  serves : ∀ earlier ∈ history, Serves sha256 publication.run earlier
  accepted : publication.run.versionGuard sha256 control = true

/- Releases published one after another, oldest first. -/
def Guarded (history : List Publication) : Prop :=
  ∀ (j : Nat) (publication : Publication),
    history[j]? = some publication →
    Publishes sha256 control (history.take j) publication

end Release

end MicaBoards
