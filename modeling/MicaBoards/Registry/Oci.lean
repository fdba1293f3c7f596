import MicaBoards.Foundations.Schedule
import Mathlib.Logic.Function.Basic

/-
  Publishing to an OCI registry (`tools/deb/oci.sh`). Any
  number of runs of `oci_publish` and `oci_tag_manifest` send
  their requests to one registry, in any order.

  The registry answers truthfully or with an error, and what
  it has taken it keeps. Before each request `oci_bearer` asks
  for a token; a status of the token endpoint that brings none
  is handed through as the status of the request.

  Key definitions include:
    * `OciRun`
    * `ociStep`
    * `initialState`
-/

------------------------------------------------------------
-- Runs
------------------------------------------------------------

namespace MicaBoards

namespace Registry

/- A layer of a manifest. -/
structure Layer where
  mediaType : String
  digest : String
  size : Nat
  title : String
  inputs : String
deriving DecidableEq, Repr

/- An image manifest. -/
structure Manifest where
  artifactType : String
  config : String
  layers : List Layer
  annotations : String
deriving DecidableEq, Repr

/- The blobs a manifest names. -/
def Manifest.blobs (manifest : Manifest) : List String :=
  manifest.config :: manifest.layers.map Layer.digest

/- OCI_EMPTY_CONFIG_DIGEST -/
def ociEmptyConfigDigest : String :=
  "sha256:44136fa355b3678a1146ad16f7e8649e94fb4fc21fe77e8310c060f61caaff8a"

/- A row of layers.tsv, with its file's sha256sum and size. -/
structure LayerRow extends Layer where
  file : String
deriving DecidableEq, Repr

/- What is called. -/
inductive OciCommand where
/- `oci_publish` -/
| publish
    (artifactType annotations : String)
    (layers : List LayerRow)
/- `oci_tag_manifest` -/
| tagManifest (manifest : Manifest)
deriving DecidableEq, Repr

/- A call on a tag of a repository. -/
structure OciRun where
  repo : String
  tag : String
  command : OciCommand
deriving DecidableEq, Repr

/- The manifest the run puts under its tag. -/
def OciRun.manifest (run : OciRun) : Manifest :=
  match run.command with
  | .publish artifactType annotations layers =>
      -- a row without a file is passed over
      { artifactType := artifactType
        config := ociEmptyConfigDigest
        layers :=
          (layers.filter (·.file ≠ "")).map LayerRow.toLayer
        annotations := annotations }
  | .tagManifest manifest => manifest

/- The blobs it uploads first. -/
def OciRun.uploads (run : OciRun) : List String :=
  match run.command with
  | .publish _ _ _ => run.manifest.blobs
  | .tagManifest _ => []

/- How a request ends. -/
inductive Outcome where
/- as the registry answers it -/
| answered
/- the registry has acted on it, and the answer is lost -/
| lost
/- with an error, and the registry has not acted on it -/
| refused
/- it is not sent, as the token endpoint gives this status -/
| token (status : Nat)
/- it is not sent, and the run is cut off -/
| cut
deriving DecidableEq, Repr

/- The next request of a run. -/
inductive Pc where
/- none, the run has not begun -/
| idle
/- `oci_blob_head` of a blob, with others after it -/
| head (digest : String) (todo : List String)
/- the POST of `oci_blob_put` -/
| post (digest : String) (todo : List String)
/- its PUT -/
| put (digest : String) (todo : List String)
/- `oci_manifest_get` of the tag -/
| read
/- the PUT of the manifest -/
| write
/- none, it has printed pushed or present, or has failed -/
| pushed
| present
| failed
deriving DecidableEq, Repr

/- After a blob comes the next, and then the tag. -/
def nextBlob : List String → Pc
| [] => .read
| digest :: todo => .head digest todo

------------------------------------------------------------
-- Steps
------------------------------------------------------------

section System

variable {ι : Type}

variable [DecidableEq ι]

/- The registry, by repository, and where the runs are. -/
structure OciState (ι : Type) where
  blobs : String → String → Bool
  tags : String → String → Option Manifest
  pc : ι → Pc

namespace OciState

variable (state : OciState ι)

/- A run goes on. -/
def goto (i : ι) (pc : Pc) : OciState ι :=
  { state with pc := Function.update state.pc i pc }

/- The registry takes a blob. -/
def addBlob (repo digest : String) : OciState ι :=
  { state with
    blobs := fun r d =>
      if r = repo ∧ d = digest then true else state.blobs r d }

/- The registry sets a tag. -/
def setTag
    (repo tag : String)
    (manifest : Manifest) : OciState ι :=
  { state with
    tags := fun r t =>
      if r = repo ∧ t = tag then some manifest
      else state.tags r t }

/- The registry holds all blobs of a manifest. -/
def holds (repo : String) (manifest : Manifest) : Bool :=
  manifest.blobs.all (state.blobs repo)

end OciState

variable (digest : Manifest → String)

variable (runs : ι → OciRun)

/-
  The next request of a run. A manifest that is given to
  `oci_tag_manifest` names only blobs that the registry holds.
-/
def ociStep
    (state : OciState ι)
    (action : ι × Outcome) : OciState ι :=
  let i := action.1
  let repo := (runs i).repo
  let tag := (runs i).tag
  let manifest := (runs i).manifest
  match state.pc i with
  | .idle =>
      match (runs i).command with
      | .publish _ _ _ =>
          state.goto i (nextBlob (runs i).uploads)
      | .tagManifest _ =>
          if state.holds repo manifest then state.goto i .read
          else state
  | .head blob todo =>
      match action.2 with
      | .answered =>
          if state.blobs repo blob then
            state.goto i (nextBlob todo)
          else
            state.goto i (.post blob todo)
      | .lost => state.goto i (.post blob todo)
      | .refused => state.goto i (.post blob todo)
      -- a 200 that brings no token is handed through as 000
      | .token _ => state.goto i (.post blob todo)
      | .cut => state.goto i .failed
  | .post blob todo =>
      match action.2 with
      | .answered => state.goto i (.put blob todo)
      | .lost => state.goto i .failed
      | .refused => state.goto i .failed
      -- also behind a 202, which comes with no Location
      | .token _ => state.goto i .failed
      | .cut => state.goto i .failed
  | .put blob todo =>
      match action.2 with
      | .answered =>
          (state.addBlob repo blob).goto i (nextBlob todo)
      | .lost => (state.addBlob repo blob).goto i .failed
      | .refused => state.goto i .failed
      | .token _ => state.goto i .failed
      | .cut => state.goto i .failed
  | .read =>
      match action.2 with
      | .answered =>
          match state.tags repo tag with
          | none => state.goto i .write
          | some existing =>
            if digest existing = digest manifest then
              state.goto i .present
            else
              state.goto i .failed
      | .lost => state.goto i .failed
      | .refused => state.goto i .failed
      -- a 404 counts as one of the registry
      | .token status =>
          if status = 404 then state.goto i .write
          else state.goto i .failed
      | .cut => state.goto i .failed
  | .write =>
      match action.2 with
      | .answered =>
          (state.setTag repo tag manifest).goto i .pushed
      | .lost =>
          (state.setTag repo tag manifest).goto i .failed
      | .refused => state.goto i .failed
      | .token status =>
          if status = 201 then state.goto i .pushed
          else state.goto i .failed
      | .cut => state.goto i .failed
  | .pushed => state
  | .present => state
  | .failed => state

/- No run has begun. -/
def initialState
    (blobs : String → String → Bool)
    (tags : String → String → Option Manifest) :
    OciState ι where
  blobs := blobs
  tags := tags
  pc := fun _ => .idle

end System

end Registry

end MicaBoards
