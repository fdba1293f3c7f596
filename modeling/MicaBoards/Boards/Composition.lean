import Mathlib.Data.List.Perm.Subperm
import Mathlib.Data.List.ReduceOption
import MicaBoards.Boards.CheckedTable
import MicaBoards.Boards.Trees

/-
  The two checks of `tools/boards.sh` beside each other: on
  the components of a board, on the bundle that is copied
  together from them, and on the parts of a bundle.

  Key definitions include:
    * `CanStack`, `CopiesWhole`
    * `OfDeclared`, `part`
    * `ChecksAgree`

  Main declarations:
    * `bundle_isSome_iff`
    * `bundleIs_bundle_iff`
    * `componentIs_part_iff`
    * `checksAgree_iff`
-/

------------------------------------------------------------
-- Listed Paths
------------------------------------------------------------

namespace MicaBoards

namespace Boards

open Text
open Overlay

theorem mem_paths
    {tree : Tree}
    {types : Node → Bool}
    {path : Bytes} :
    path ∈ tree.paths types ↔
      ∃ node, tree.nodes.lookup path = some node ∧
        types node = true := by
  unfold Tree.paths
  rw [List.mem_map]
  constructor
  · intro hEntry
    rcases hEntry with ⟨⟨found, node⟩, hMem, rfl⟩
    rcases List.mem_filter.mp hMem with ⟨hMem, hTypes⟩
    exact ⟨node, AList.mem_lookup_iff.mpr hMem, hTypes⟩
  · intro hNode
    rcases hNode with ⟨node, hLookup, hTypes⟩
    exact ⟨⟨path, node⟩,
      List.mem_filter.mpr
        ⟨AList.mem_lookup_iff.mp hLookup, hTypes⟩, rfl⟩

theorem nodup_paths (tree : Tree) (types : Node → Bool) :
    (tree.paths types).Nodup := by
  have hKeys : (tree.nodes.entries.map Sigma.fst).Nodup :=
    tree.nodes.keys_nodup
  exact hKeys.sublist (List.filter_sublist.map _)

theorem mem_regular
    {tree : Tree}
    {path : Bytes} :
    path ∈ tree.paths isRegular ↔
      tree.nodes.lookup path = some .file := by
  rw [mem_paths]
  constructor
  · intro hNode
    rcases hNode with ⟨node, hLookup, hRegular⟩
    cases node with
    | file => exact hLookup
    | directory => cases hRegular
    | link leads => cases hRegular
  · exact fun hLookup => ⟨.file, hLookup, rfl⟩

theorem printed_ne_nil (path : Bytes) : printed path ≠ [] := by
  unfold printed
  rw [ne_eq, List.map_eq_nil_iff]
  exact List.splitOn_ne_nil _ _

/- A path without a line end is one line. -/
theorem printed_of_notMem
    {path : Bytes}
    (hLf : lf ∉ path) :
    printed path = [path] := by
  have hDot : ascii "./" = [0x2e, slash] := by decide
  have hLine : lf ∉ ascii "./" ++ path := by
    rw [hDot]
    simpa [lf, slash] using hLf
  rw [printed, List.splitOn_eq_singleton hLine]
  rfl

theorem flatMap_printed
    {paths : List Bytes}
    (hLf : ∀ path ∈ paths, lf ∉ path) :
    paths.flatMap printed = paths := by
  induction paths with
  | nil => rfl
  | cons path paths ih =>
      rcases List.forall_mem_cons.mp hLf with ⟨hPath, hRest⟩
      rw [List.flatMap_cons, printed_of_notMem hPath, ih hRest,
        List.singleton_append]

/- Paths whose lines are distinct are distinct. -/
theorem nodup_of_printed
    {paths : List Bytes}
    (hLines : (paths.flatMap printed).Nodup) :
    paths.Nodup := by
  induction paths with
  | nil => exact .nil
  | cons path paths ih =>
      rw [List.flatMap_cons] at hLines
      rcases List.nodup_append.mp hLines with ⟨-, hRest, hApart⟩
      refine List.nodup_cons.mpr ⟨?_, ih hRest⟩
      intro hMem
      rcases List.exists_mem_of_ne_nil _ (printed_ne_nil path) with
        ⟨line, hLine⟩
      exact hApart line hLine line
        (List.mem_flatMap.mpr ⟨path, hMem, hLine⟩) rfl

section Board

variable {b : Board}
variable {table : Bytes}

theorem componentIs_iff
    (hTable : CheckedTable b table)
    (component : Bytes)
    (tree : Tree) :
    componentIs table component tree = true ↔
      (files table component).Perm
        ((tree.paths isRegular).flatMap printed) := by
  rw [componentIs, decide_eq_true_iff, find,
    ← sortedLines_eq_iff, sortedLines_files hTable]

theorem bundleIs_iff
    (hTable : CheckedTable b table)
    (tree : Tree) :
    bundleIs table tree = true ↔
      (allPaths table).Perm
        ((tree.paths isLeaf).flatMap printed) := by
  rw [bundleIs, decide_eq_true_iff, find,
    ← sortedLines_eq_iff, bundleFiles_eq_allPaths hTable]

------------------------------------------------------------
-- Nodes on One Another
------------------------------------------------------------

/-
  Nodes that `cp` can put on one another, the first at the
  bottom: directories only, or no directory and no file right
  on a link that leads to none.
-/
def CanStack (nodes : List Node) : Prop :=
  (∀ node ∈ nodes, node = .directory) ∨
    ((∀ node ∈ nodes, node ≠ .directory) ∧
      nodes.IsChain fun node next =>
        ¬ (node = .link false ∧ next = .file))

theorem canStack_cons
    (node next : Node)
    (nodes : List Node) :
    CanStack (node :: next :: nodes) ↔
      ∃ made, onto (some node) next = some made ∧
        CanStack (made :: nodes) := by
  rcases node with _ | _ | leads <;> rcases next with _ | _ | leads'
  case link.file =>
    cases leads <;>
      simp [CanStack, onto, List.isChain_cons]
  all_goals simp [CanStack, onto, List.isChain_cons]

/- Above a node, a column is a stack. -/
theorem column_some_isSome_iff
    (node : Node)
    (uppers : List (Option Node)) :
    (column onto (some node) uppers).isSome = true ↔
      CanStack (node :: uppers.reduceOption) := by
  induction uppers generalizing node with
  | nil =>
      cases node <;>
        simp [column, CanStack, List.reduceOption]
  | cons upper uppers ih =>
      rw [column, List.foldlM_cons]
      cases upper with
      | none =>
          rw [List.reduceOption_cons_of_none]
          exact ih node
      | some next =>
          rw [List.reduceOption_cons_of_some, canStack_cons]
          cases hOnto : onto (some node) next with
          | none => simp [laid, hOnto]
          | some made =>
              have hRest := ih made
              rw [column] at hRest
              simp [laid, hOnto, hRest]

theorem column_none_isSome_iff (uppers : List (Option Node)) :
    (column onto none uppers).isSome = true ↔
      CanStack uppers.reduceOption := by
  induction uppers with
  | nil => simp [column, CanStack, List.reduceOption]
  | cons upper uppers ih =>
      cases upper with
      | none =>
          rw [List.reduceOption_cons_of_none]
          exact ih
      | some node =>
          rw [List.reduceOption_cons_of_some]
          exact column_some_isSome_iff node uppers

theorem isLeaf_onto
    {node next made : Node}
    (hOnto : onto (some node) next = some made) :
    isLeaf node = isLeaf made ∧ isLeaf next = isLeaf made := by
  rcases node with _ | _ | leads <;> rcases next with _ | _ | leads'
  case link.file =>
    cases leads <;> cases hOnto
    exact ⟨rfl, rfl⟩
  all_goals cases hOnto <;> exact ⟨rfl, rfl⟩

/- In a column, all nodes are leaves or none is. -/
theorem isLeaf_of_column
    {under result : Option Node}
    {uppers : List (Option Node)}
    (hColumn : column onto under uppers = some result)
    {node : Node}
    (hNode : some node ∈ under :: uppers) :
    ∃ made, result = some made ∧ isLeaf node = isLeaf made := by
  induction uppers generalizing under node with
  | nil =>
      obtain rfl : under = result := Option.some.inj hColumn
      obtain rfl := List.mem_singleton.mp hNode
      exact ⟨node, rfl, rfl⟩
  | cons upper uppers ih =>
      rw [column, List.foldlM_cons] at hColumn
      rcases Option.bind_eq_some_iff.mp hColumn with
        ⟨middle, hLaid, hRest⟩
      have hIh {n : Node} (hN : some n ∈ middle :: uppers) :=
        ih hRest hN
      rcases upper with _ | next
      · obtain rfl : under = middle := Option.some.inj hLaid
        refine hIh ?_
        simpa using hNode
      rcases Option.map_eq_some_iff.mp hLaid with
        ⟨made, hOnto, rfl⟩
      rcases hIh List.mem_cons_self with ⟨last, rfl, hLast⟩
      rw [List.mem_cons, List.mem_cons] at hNode
      rcases hNode with rfl | hNode | hNode
      · exact ⟨last, rfl, (isLeaf_onto hOnto).1.trans hLast⟩
      · obtain rfl := Option.some.inj hNode
        refine ⟨last, rfl, Eq.trans ?_ hLast⟩
        cases under with
        | none => rw [Option.some.inj hOnto]
        | some below => exact (isLeaf_onto hOnto).2
      · exact hIh (List.mem_cons_of_mem _ hNode)

/- What a column leaves was put there. -/
theorem exists_of_column
    {under : Option Node}
    {made : Node}
    {uppers : List (Option Node)}
    (hColumn : column onto under uppers = some (some made)) :
    ∃ node, some node ∈ under :: uppers := by
  by_contra hNone
  have hAll : ∀ upper ∈ under :: uppers, upper = none := by
    intro upper hUpper
    cases upper with
    | none => rfl
    | some node => exact absurd ⟨node, hUpper⟩ hNone
  rcases List.forall_mem_cons.mp hAll with ⟨rfl, hUppers⟩
  have hFold (list : List (Option Node)) :
      (∀ upper ∈ list, upper = none) →
        column onto none list = some none := by
    induction list with
    | nil => exact fun _ => rfl
    | cons upper list ih =>
        intro hList
        rcases List.forall_mem_cons.mp hList with ⟨rfl, hRest⟩
        exact ih hRest
  rw [hFold uppers hUppers] at hColumn
  cases hColumn

------------------------------------------------------------
-- From the Components to the Bundle
------------------------------------------------------------

section Family

variable (b : Board)
variable (trees : Bytes → Tree)

/- What the components have at a path, in the order of `cp` -/
def nodesAt (path : Bytes) : List Node :=
  ((componentList b).map fun component =>
    (trees component).nodes.lookup path).reduceOption

/- `cp` can copy all, and covers no link but with a file. -/
def CopiesWhole : Prop :=
  (∀ path, CanStack (nodesAt b trees path)) ∧
    ∀ component ∈ componentList b, ∀ path leads,
      (trees component).nodes.lookup path =
          some (.link leads) →
        ∃ other ∈ componentList b,
          (trees other).nodes.lookup path = some .file

/- Every component passes its check. -/
def ComponentsPass (table : Bytes) : Prop :=
  ∀ component ∈ componentList b,
    componentIs table component (trees component) = true

/- The paths of the regular files of all components -/
def regularPaths : List Bytes :=
  (componentList b).flatMap fun component =>
    (trees component).paths isRegular

variable {b trees}

theorem map_layers (path : Bytes) :
    (layers b trees).map (fun layer => layer.lookup path) =
      (componentList b).map fun component =>
        (trees component).nodes.lookup path := by
  rw [layers, List.map_map]
  rfl

/- `cp` copies all when it can stack what is at each path. -/
theorem bundle_isSome_iff :
    (bundle b trees).isSome = true ↔
      ∀ path, CanStack (nodesAt b trees path) := by
  rw [← Option.isSome_map (f := Tree.nodes), nodes_bundle]
  constructor
  · intro hSome path
    rcases Option.isSome_iff_exists.mp hSome with ⟨whole, hAll⟩
    have hColumn := column_of_overlayAll hAll path
    rw [AList.lookup_empty, map_layers] at hColumn
    rw [nodesAt, ← column_none_isSome_iff, hColumn]
    rfl
  · intro hStack
    refine overlayAll_isSome fun path => ?_
    rw [AList.lookup_empty, map_layers, column_none_isSome_iff]
    exact hStack path

/- The bundle has a file or a link where a component has. -/
theorem mem_leaf_bundle
    {whole : Tree}
    (hBundle : bundle b trees = some whole)
    {path : Bytes} :
    path ∈ whole.paths isLeaf ↔
      ∃ component ∈ componentList b,
        path ∈ (trees component).paths isLeaf := by
  have hNodes := nodes_bundle b trees
  rw [hBundle, Option.map_some] at hNodes
  have hColumn := column_of_overlayAll hNodes.symm path
  rw [AList.lookup_empty, map_layers] at hColumn
  rw [mem_paths]
  constructor
  · intro hNode
    rcases hNode with ⟨made, hMade, hLeaf⟩
    rw [hMade] at hColumn
    rcases exists_of_column hColumn with ⟨node, hMem⟩
    rcases isLeaf_of_column hColumn hMem with ⟨same, hSame, hEq⟩
    obtain rfl := Option.some.inj hSame
    rcases List.mem_cons.mp hMem with hNone | hMem
    · cases hNone
    rcases List.mem_map.mp hMem with
      ⟨component, hComponent, hLookup⟩
    exact ⟨component, hComponent,
      mem_paths.mpr ⟨node, hLookup, hEq.trans hLeaf⟩⟩
  · intro hComponent
    rcases hComponent with ⟨component, hComponent, hPath⟩
    rcases mem_paths.mp hPath with ⟨node, hLookup, hLeaf⟩
    have hMem :
        some node ∈ none :: (componentList b).map fun component =>
          (trees component).nodes.lookup path :=
      List.mem_cons_of_mem _
        (List.mem_map.mpr ⟨component, hComponent, hLookup⟩)
    rcases isLeaf_of_column hColumn hMem with
      ⟨made, hMade, hEq⟩
    exact ⟨made, hMade, hEq.symm.trans hLeaf⟩

/- Components that pass have the files of the table. -/
theorem perm_regularPaths
    (hTable : CheckedTable b table)
    (hPass : ComponentsPass b trees table) :
    (allPaths table).Perm
      ((regularPaths b trees).flatMap printed) := by
  rw [regularPaths, List.flatMap_assoc]
  refine (perm_files hTable).trans (List.Perm.flatMap_left _ ?_)
  intro component hComponent
  exact (componentIs_iff hTable component _).mp
    (hPass component hComponent)

theorem nodup_regularPaths
    (hTable : CheckedTable b table)
    (hPass : ComponentsPass b trees table) :
    (regularPaths b trees).Nodup :=
  nodup_of_printed
    ((perm_regularPaths hTable hPass).nodup_iff.mp hTable.once)

theorem mem_regularPaths {path : Bytes} :
    path ∈ regularPaths b trees ↔
      ∃ component ∈ componentList b,
        (trees component).nodes.lookup path = some .file := by
  rw [regularPaths, List.mem_flatMap]
  simp only [mem_regular]

/-
  Lists without repeats, of which the longer has no more lines
  than the shorter, have the same paths.
-/
theorem subset_of_perm_printed
    {paths others : List Bytes}
    (hNodup : paths.Nodup)
    (hSub : paths ⊆ others)
    (hPerm :
      (paths.flatMap printed).Perm (others.flatMap printed)) :
    others ⊆ paths := by
  rcases List.Nodup.subperm hNodup hSub with
    ⟨kept, hKept, hSublist⟩
  rcases hSublist.exists_perm_append with ⟨rest, hAll⟩
  have hOthers : others.Perm (paths ++ rest) :=
    hAll.trans (hKept.append_right rest)
  have hLines := hPerm.trans (hOthers.flatMap_right printed)
  rw [List.flatMap_append] at hLines
  have hLength := hLines.length_eq
  rw [List.length_append] at hLength
  have hNil : rest.flatMap printed = [] :=
    List.eq_nil_of_length_eq_zero (by omega)
  intro path hPath
  rcases List.mem_append.mp (hOthers.subset hPath) with
    hMem | hMem
  · exact hMem
  · exact absurd (List.flatMap_eq_nil_iff.mp hNil path hMem)
      (printed_ne_nil path)

/-
  The bundle of components that pass is the board's when each
  link lies where a component has a regular file.
-/
theorem bundleIs_bundle_iff
    (hTable : CheckedTable b table)
    (hPass : ComponentsPass b trees table)
    {whole : Tree}
    (hBundle : bundle b trees = some whole) :
    bundleIs table whole = true ↔
      ∀ component ∈ componentList b, ∀ path leads,
        (trees component).nodes.lookup path =
            some (.link leads) →
          ∃ other ∈ componentList b,
            (trees other).nodes.lookup path = some .file := by
  have hRegular :
      regularPaths b trees ⊆ whole.paths isLeaf := by
    intro path hPath
    rcases mem_regularPaths.mp hPath with
      ⟨component, hComponent, hLookup⟩
    exact (mem_leaf_bundle hBundle).mpr
      ⟨component, hComponent,
        mem_paths.mpr ⟨.file, hLookup, rfl⟩⟩
  have hLines := perm_regularPaths hTable hPass
  rw [bundleIs_iff hTable]
  constructor
  · intro hPerm component hComponent path leads hLink
    rw [← mem_regularPaths]
    refine subset_of_perm_printed
      (nodup_regularPaths hTable hPass) hRegular
      (hLines.symm.trans hPerm) ?_
    exact (mem_leaf_bundle hBundle).mpr
      ⟨component, hComponent,
        mem_paths.mpr ⟨.link leads, hLink, rfl⟩⟩
  · intro hCovered
    have hSame :
        (regularPaths b trees).Perm (whole.paths isLeaf) := by
      rw [List.perm_ext_iff_of_nodup
        (nodup_regularPaths hTable hPass) (nodup_paths _ _)]
      intro path
      refine ⟨fun hPath => hRegular hPath, ?_⟩
      intro hPath
      rcases (mem_leaf_bundle hBundle).mp hPath with
        ⟨component, hComponent, hLeaf⟩
      rw [mem_regularPaths]
      rcases mem_paths.mp hLeaf with ⟨node, hLookup, hNode⟩
      cases node with
      | file => exact ⟨component, hComponent, hLookup⟩
      | directory => cases hNode
      | link leads =>
          exact hCovered component hComponent path leads hLookup
    exact hLines.trans (hSame.flatMap_right printed)

end Family

------------------------------------------------------------
-- From the Bundle to Its Parts
------------------------------------------------------------

/- A tree whose files and links are at declared paths -/
def OfDeclared (table : Bytes) (tree : Tree) : Prop :=
  tree.paths isLeaf ⊆ allPaths table

/- What a component has of a tree: its paths, and directories -/
def inPart
    (table component : Bytes)
    (entry : Sigma fun _ : Bytes => Node) :
    Bool :=
  entry.2 = .directory ∨ entry.1 ∈ files table component

def partNodes
    (table component : Bytes)
    (nodes : Nodes) :
    Nodes where
  entries := nodes.entries.filter (inPart table component)
  nodupKeys :=
    nodes.nodupKeys.sublist (List.filter_sublist)

theorem lookup_partNodes
    {component : Bytes}
    {nodes : Nodes}
    {path : Bytes}
    {node : Node} :
    (partNodes table component nodes).lookup path = some node ↔
      nodes.lookup path = some node ∧
        (node = .directory ∨ path ∈ files table component) := by
  have hEntry := AList.mem_lookup_iff
    (s := partNodes table component nodes) (a := path) (b := node)
  rw [Option.mem_def] at hEntry
  rw [hEntry, partNodes, List.mem_filter,
    ← AList.mem_lookup_iff, Option.mem_def, inPart,
    decide_eq_true_iff]

theorem closed_partNodes
    (table component : Bytes)
    {nodes : Nodes}
    (hClosed : Closed nodes) :
    Closed (partNodes table component nodes) := by
  intro path name hMem
  rcases Option.isSome_iff_exists.mp
    (AList.lookup_isSome.mpr hMem) with ⟨node, hLookup⟩
  rw [lookup_partNodes] at hLookup
  have hBelow : path ++ slash :: name ∈ nodes := by
    rw [← AList.lookup_isSome, hLookup.1]
    rfl
  rw [lookup_partNodes]
  exact ⟨hClosed path name hBelow, .inl rfl⟩

def part (table component : Bytes) (tree : Tree) : Tree where
  nodes := partNodes table component tree.nodes
  closed := closed_partNodes table component tree.closed

/- No symbolic link in a tree -/
def NoLink (tree : Tree) : Prop :=
  ∀ path leads, tree.nodes.lookup path ≠ some (.link leads)

theorem mem_regular_part
    {component path : Bytes}
    {tree : Tree} :
    path ∈ (part table component tree).paths isRegular ↔
      tree.nodes.lookup path = some .file ∧
        path ∈ files table component := by
  have hFile : ¬ Node.file = Node.directory := by decide
  rw [mem_regular, part, lookup_partNodes]
  simp [hFile]

/- Paths of the table have no line ends. -/
theorem lf_notMem_allPaths
    {path : Bytes}
    (hPath : path ∈ allPaths table) :
    lf ∉ path := by
  rcases List.mem_map.mp hPath with ⟨row, hRow, rfl⟩
  have hLine : row ∈ textLines table :=
    (List.mem_filter.mp (List.mem_filter.mp hRow).1).1
  intro hLf
  have hJoin : ([tab] : Bytes).intercalate (row.splitOn tab) =
      row :=
    List.intercalate_splitOn tab
  unfold field at hLf
  rw [List.getD_eq_getElem?_getD] at hLf
  cases hField : (row.splitOn tab)[3 - 1]? with
  | none =>
      rw [hField] at hLf
      cases hLf
  | some piece =>
      rw [hField, Option.getD_some] at hLf
      refine (mem_textLines hLine).1 ?_
      rw [← hJoin]
      exact mem_intercalate_of_mem
        (List.mem_of_getElem? hField) hLf

theorem files_subset
    {component : Bytes}
    (hTable : CheckedTable b table)
    (hComponent : component ∈ componentList b) :
    files table component ⊆ allPaths table := by
  intro path hPath
  rw [(perm_files hTable).mem_iff]
  exact List.mem_flatMap.mpr ⟨component, hComponent, hPath⟩

theorem nodup_files
    {component : Bytes}
    (hTable : CheckedTable b table)
    (hComponent : component ∈ componentList b) :
    (files table component).Nodup := by
  have hAll := (perm_files hTable).nodup_iff.mp hTable.once
  exact (List.nodup_flatMap.mp hAll).1 component hComponent

/-
  The parts of a tree of declared paths that is the bundle are
  the components when the tree has no link.
-/
theorem componentIs_part_iff
    (hTable : CheckedTable b table)
    {tree : Tree}
    (hDeclared : OfDeclared table tree)
    (hBundle : bundleIs table tree = true) :
    (∀ component ∈ componentList b,
      componentIs table component
        (part table component tree) = true) ↔
      NoLink tree := by
  have hLeaves : (allPaths table).Perm (tree.paths isLeaf) := by
    have hPerm := (bundleIs_iff hTable tree).mp hBundle
    rwa [flatMap_printed fun path hPath =>
      lf_notMem_allPaths (hDeclared hPath)] at hPerm
  have hPart (component : Bytes)
      (hComponent : component ∈ componentList b) :
      componentIs table component
          (part table component tree) = true ↔
        (files table component).Perm
          ((part table component tree).paths isRegular) := by
    rw [componentIs_iff hTable, flatMap_printed]
    intro path hPath
    exact lf_notMem_allPaths
      (files_subset hTable hComponent (mem_regular_part.mp hPath).2)
  constructor
  · intro hParts path leads hLink
    have hPath : path ∈ tree.paths isLeaf :=
      mem_paths.mpr ⟨.link leads, hLink, rfl⟩
    rw [← hLeaves.mem_iff, (perm_files hTable).mem_iff] at hPath
    rcases List.mem_flatMap.mp hPath with
      ⟨component, hComponent, hFile⟩
    have hPerm :=
      (hPart component hComponent).mp (hParts component hComponent)
    rw [hPerm.mem_iff, mem_regular_part, hLink] at hFile
    cases hFile.1
  · intro hNoLink component hComponent
    rw [hPart component hComponent,
      List.perm_ext_iff_of_nodup (nodup_files hTable hComponent)
        (nodup_paths _ _)]
    intro path
    rw [mem_regular_part]
    refine ⟨fun hFile => ⟨?_, hFile⟩, fun hBoth => hBoth.2⟩
    have hPath := files_subset hTable hComponent hFile
    rw [hLeaves.mem_iff] at hPath
    rcases mem_paths.mp hPath with ⟨node, hLookup, hLeaf⟩
    cases node with
    | file => exact hLookup
    | directory => cases hLeaf
    | link leads => exact absurd hLookup (hNoLink path leads)

end Board

end Boards

end MicaBoards
