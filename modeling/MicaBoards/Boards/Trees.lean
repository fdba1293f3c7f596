import MicaBoards.Boards.Outputs
import MicaBoards.Foundations.Overlay

/-
  Trees of files as `find` lists them and `cp -a` lays them
  over one another, and the two checks of `tools/boards.sh`
  against the outputs table.

  Key definitions include:
    * `Node`, `Tree`
    * `find`, `componentIs`, `bundleIs`
    * `onto`, `copyTree`, `bundle`

  Main declarations:
    * `closed_overlay`
    * `nodes_bundle`
-/

------------------------------------------------------------
-- Trees
------------------------------------------------------------

namespace MicaBoards

namespace Boards

open Text
open Overlay

/-
  What is at a path.  Of a link it matters to `cp` whether a
  regular file is found behind it.
-/
inductive Node where
  | file
  | directory
  | link (leadsToFile : Bool)
deriving DecidableEq

abbrev Nodes := Layer Bytes Node

/- What a path goes through are directories. -/
def Closed (nodes : Nodes) : Prop :=
  ∀ path name,
    (path ++ slash :: name) ∈ nodes →
      nodes.lookup path = some .directory

/- The nodes below a directory, by their paths from there -/
structure Tree where
  nodes : Nodes
  closed : Closed nodes

theorem closed_empty : Closed ∅ :=
  fun _ _ hMem => absurd hMem (AList.notMem_empty _)

def Tree.empty : Tree where
  nodes := ∅
  closed := closed_empty

------------------------------------------------------------
-- The Checks
------------------------------------------------------------

/- `-type f` -/
def isRegular : Node → Bool
  | .file => true
  | .directory => false
  | .link _ => false

/- `-type f -o -type l` -/
def isLeaf : Node → Bool
  | .file => true
  | .directory => false
  | .link _ => true

/- The paths of nodes of some types -/
def Tree.paths (tree : Tree) (types : Node → Bool) :
    List Bytes :=
  (tree.nodes.entries.filter fun entry => types entry.2).map
    Sigma.fst

/- A path as `find . | sed 's|^\./||'` puts it out, in lines -/
def printed (path : Bytes) : List Bytes :=
  ((ascii "./" ++ path).splitOn lf).map withoutDot

/- `find . TYPES | sed … | sort` -/
def find (types : Node → Bool) (tree : Tree) : List Bytes :=
  sortedLines ((tree.paths types).flatMap printed)

def componentIs
    (table component : Bytes)
    (tree : Tree) :
    Bool :=
  files table component = find isRegular tree

def bundleIs (table : Bytes) (tree : Tree) : Bool :=
  sortedLines (bundleFiles table) = find isLeaf tree

------------------------------------------------------------
-- Copies
------------------------------------------------------------

/-
  What `cp -a` makes of a node and the one that is there:
  directories and other nodes do not replace each other, a
  link replaces, and a file is written through a link when
  there is a file behind it.
-/
def onto : Option Node → Node → Option Node
  | none, node => some node
  | some .directory, .directory => some .directory
  | some .directory, .file => none
  | some .directory, .link _ => none
  | some .file, .file => some .file
  | some .file, .directory => none
  | some .file, .link leads => some (.link leads)
  | some (.link leads), .file =>
      if leads then some (.link leads) else none
  | some (.link _), .directory => none
  | some (.link _), .link leads => some (.link leads)

theorem onto_of_directory
    {node result : Node}
    (hOnto : onto (some .directory) node = some result) :
    result = .directory := by
  cases node <;> cases hOnto
  rfl

/- Directories stay, and are where either tree has one. -/
theorem laid_directory
    {under upper result : Option Node}
    (hLaid : laid onto under upper = some result)
    (hEither : under = some .directory ∨
      upper = some .directory) :
    result = some .directory := by
  rcases upper with _ | node
  · rcases hEither with rfl | hUpper
    · exact (Option.some.inj hLaid).symm
    · cases hUpper
  · rcases Option.map_eq_some_iff.mp hLaid with
      ⟨made, hOnto, rfl⟩
    rcases hEither with rfl | hUpper
    · rw [onto_of_directory hOnto]
    · obtain rfl : node = .directory := Option.some.inj hUpper
      rcases under with _ | _ | _ | leads
      case none => rw [← Option.some.inj hOnto]
      case some.directory => rw [onto_of_directory hOnto]
      case some.file => cases hOnto
      case some.link => cases leads <;> cases hOnto

/- What is there after a copy was there in one of the trees. -/
theorem mem_of_laid
    {under upper result : Nodes}
    {key : Bytes}
    (hLaid :
      laid onto (under.lookup key) (upper.lookup key) =
        some (result.lookup key))
    (hMem : key ∈ result) :
    key ∈ under ∨ key ∈ upper := by
  by_contra hNone
  rw [not_or, ← AList.lookup_eq_none,
    ← AList.lookup_eq_none] at hNone
  rw [hNone.1, hNone.2] at hLaid
  have hKey : result.lookup key = none :=
    (Option.some.inj hLaid).symm
  exact absurd hMem (AList.lookup_eq_none.mp hKey)

/- A copy of a tree over a tree is a tree. -/
theorem closed_overlay
    {under upper result : Nodes}
    (hUnder : Closed under)
    (hUpper : Closed upper)
    (hOverlay : overlay onto under upper = some result) :
    Closed result := by
  intro path name hMem
  have hLaid := laid_of_overlay hOverlay path
  refine laid_directory hLaid ?_
  rcases mem_of_laid
    (laid_of_overlay hOverlay (path ++ slash :: name)) hMem
    with hBelow | hBelow
  · exact .inl (hUnder path name hBelow)
  · exact .inr (hUpper path name hBelow)

/- `cp -a TREE/. UNDER/` -/
def copyTree (under upper : Tree) : Option Tree :=
  (overlay onto under.nodes upper.nodes).pmap Tree.mk
    fun _ hOverlay =>
      closed_overlay under.closed upper.closed hOverlay

/- The components of a board, copied into an empty directory -/
def bundle (b : Board) (trees : Bytes → Tree) : Option Tree :=
  (componentList b).foldlM
    (fun under component => copyTree under (trees component))
    Tree.empty

/- The nodes of the trees, in the order of the copies -/
def layers (b : Board) (trees : Bytes → Tree) : List Nodes :=
  (componentList b).map fun component => (trees component).nodes

theorem nodes_copyTree (under upper : Tree) :
    (copyTree under upper).map Tree.nodes =
      overlay onto under.nodes upper.nodes := by
  rw [copyTree, Option.map_pmap, Option.pmap_eq_map]
  exact Option.map_id'

/- The copies of all components, layer by layer -/
theorem nodes_bundle (b : Board) (trees : Bytes → Tree) :
    (bundle b trees).map Tree.nodes =
      overlayAll onto ∅ (layers b trees) := by
  have hFold (components : List Bytes) (under : Tree) :
      (components.foldlM
          (fun under component =>
            copyTree under (trees component)) under).map
        Tree.nodes =
      overlayAll onto under.nodes
        (components.map fun component =>
          (trees component).nodes) := by
    induction components generalizing under with
    | nil => rfl
    | cons component components ih =>
        have hCopy := nodes_copyTree under (trees component)
        rw [List.foldlM_cons, List.map_cons, overlayAll,
          List.foldlM_cons, ← hCopy]
        cases hTree : copyTree under (trees component) with
        | none => rfl
        | some tree => exact ih tree
  exact hFold (componentList b) Tree.empty

end Boards

end MicaBoards
