import MicaBoards.Foundations.SortedLines
import MicaBoards.Locks.CanonicalOrder

/-
  The roots field of upstream rows. The checker takes it apart
  by word splitting and pathname expansion, and so takes more
  than lists of names, and not the same in every directory.

  What a pattern matches is a parameter. A pattern with a
  slash counts as matching nothing here: what it expands to
  has a slash and is no name, and neither is the pattern.

  Main declarations:
    * `expandIn`
    * `CanonicalRoots`
    * `rootsCorrect_iff`
-/

------------------------------------------------------------
-- Roots
------------------------------------------------------------

namespace MicaBoards

namespace Locks

open Text

variable {iconv : Iconv}

/- Names in ascending order, with single commas. -/
def CanonicalRoots (roots : Bytes) : Prop :=
  ∃ names : List Bytes,
    names ≠ [] ∧ roots = ([comma] : Bytes).intercalate names ∧
      (∀ name ∈ names, isName name = true) ∧
      names.Pairwise (· < ·)

/- A word that the shell takes for a pattern. -/
def hasPattern (word : Bytes) : Bool :=
  word.any (· ∈ ascii "*?[\\")

/- Pathname expansion in a directory of these files. -/
def expandIn
    (fnmatch : Bytes → Bytes → Bool)
    (files : List Bytes)
    (word : Bytes) : List Bytes :=
  let found :=
    (files.filter (fnmatch word)).insertionSort (· ≤ ·)
  if hasPattern word && found ≠ [] then found else [word]

/- The items between commas ascend. -/
def Ascending (roots : Bytes) : Prop :=
  (rootItems roots).Pairwise (· < ·)

/- Every word is a name, or a pattern that a name matches. -/
def NamesPossible
    (fnmatch : Bytes → Bytes → Bool)
    (roots : Bytes) : Prop :=
  ∀ word ∈ rootWords roots,
    isName word = true ∨
      (hasPattern word = true ∧
        ∃ name, isName name = true ∧ fnmatch word name = true)

/- Words that are names, no blank, and no comma in front. -/
structure PlainRoots (roots : Bytes) : Prop where
  names : ∀ word ∈ rootWords roots, isName word = true
  noBlank : space ∉ roots
  front : roots.head? ≠ some comma

/- The roots fields of a file. -/
def upstreamRoots
    (iconv : Iconv)
    (file : Bytes) : List Bytes :=
  match readRows iconv file with
  | .ok rows =>
      (rows.filter fun row => kindOf row = some .upstream).map
        (·.field 6)
  | .error _ => []

/- All that is checked of a lock but its roots fields. -/
def KeepsOtherRules (iconv : Iconv) (file : Bytes) : Prop :=
  ∃ (first : Row) (rest : List Row),
    readRows iconv file = .ok (first :: rest) ∧
      LockAccepted (fun _ => true) first rest

/-
  The roots of an accepted lock are canonical, and whether it
  is accepted does not depend on the directory.
-/
def RootsCorrect
    (iconv : Iconv)
    (fnmatch : Bytes → Bytes → Bool)
    (file : Bytes) : Prop :=
  (∀ files : List Bytes,
    checkLock iconv (expandIn fnmatch files) file = .ok () →
      ∀ roots ∈ upstreamRoots iconv file, CanonicalRoots roots) ∧
    ∀ files files' : List Bytes,
      checkLock iconv (expandIn fnmatch files) file = .ok () ↔
        checkLock iconv (expandIn fnmatch files') file = .ok ()

------------------------------------------------------------
-- Order and Words
------------------------------------------------------------

theorem pairwise_sortUnique (lines : List Bytes) :
    (sortUnique lines).Pairwise (· < ·) := by
  have hSorted :=
    List.pairwise_insertionSort
      (fun x y : Bytes => x ≤ y) lines
  have hDedup : (sortUnique lines).Pairwise (· ≤ ·) :=
    hSorted.sublist (List.dedup_sublist _)
  have hNodup : (sortUnique lines).Nodup := List.nodup_dedup _
  exact (hDedup.and hNodup).imp
    fun h => Std.lt_of_le_of_ne h.1 h.2

theorem sortUnique_eq_self
    {lines : List Bytes}
    (hAscending : lines.Pairwise (· < ·)) :
    sortUnique lines = lines := by
  have hSorted : lines.Pairwise fun x y => x ≤ y :=
    hAscending.imp fun h => Std.le_of_lt h
  have hNodup : lines.Nodup :=
    hAscending.imp fun h hEq => by
      rw [hEq] at h
      exact List.lt_irrefl _ h
  unfold sortUnique
  rw [List.Pairwise.insertionSort_eq hSorted,
    hNodup.dedup]

theorem mem_sortUnique
    {lines : List Bytes}
    {line : Bytes} :
    line ∈ sortUnique lines ↔ line ∈ lines := by
  unfold sortUnique
  rw [List.mem_dedup, List.mem_insertionSort]

/- The sort round trip holds just for ascending items. -/
theorem intercalate_sortUnique_iff (roots : Bytes) :
    ([comma] : Bytes).intercalate
        (sortUnique (rootItems roots)) = roots ↔
      Ascending roots := by
  constructor
  · intro hRound
    have hNonempty : sortUnique (rootItems roots) ≠ [] := by
      intro hNil
      rcases List.exists_mem_of_ne_nil _
          (List.splitOn_ne_nil comma roots) with ⟨item, hItem⟩
      have hMem := mem_sortUnique.mpr hItem
      unfold rootItems at hNil
      rw [hNil] at hMem
      exact List.not_mem_nil hMem
    have hSplit :
        rootItems (([comma] : Bytes).intercalate
          (sortUnique (rootItems roots))) =
            sortUnique (rootItems roots) :=
      List.splitOn_intercalate comma
        (fun item hItem =>
          notMem_of_mem_splitOn (mem_sortUnique.mp hItem))
        hNonempty
    rw [hRound] at hSplit
    unfold Ascending
    rw [hSplit]
    exact pairwise_sortUnique _
  · intro hAscending
    rw [sortUnique_eq_self hAscending]
    exact List.intercalate_splitOn comma

theorem checkRoots_eq_true_iff
    {expand : Bytes → List Bytes}
    {roots : Bytes} :
    checkRoots expand roots = true ↔
      (∀ word ∈ rootWords roots, ∀ name ∈ expand word,
        isName name = true) ∧ Ascending roots := by
  unfold checkRoots
  rw [Bool.and_eq_true, decide_eq_true_eq,
    intercalate_sortUnique_iff, List.all_eq_true]
  simp only [List.mem_flatMap, forall_exists_index, and_imp]
  constructor
  · rintro ⟨hNames, hAscending⟩
    exact ⟨fun word hWord name hName =>
      hNames name word hWord hName, hAscending⟩
  · rintro ⟨hNames, hAscending⟩
    exact ⟨fun name word hWord hName =>
      hNames word hWord name hName, hAscending⟩

theorem hasPattern_of_isName
    {word : Bytes}
    (hName : isName word = true) :
    hasPattern word = false := by
  have hBytes :=
    mem_of_headTail isNameByte_of_isLowerDigit hName
  have hByte :
      ∀ b : UInt8, isNameByte b = true →
        decide (b ∈ ascii "*?[\\") = false :=
    forall_byte (by decide +kernel)
  unfold hasPattern
  rw [List.any_eq_false]
  intro b hb
  rw [hByte b (hBytes b hb)]
  simp

/- A name stays itself in every directory. -/
theorem expandIn_of_isName
    {fnmatch : Bytes → Bytes → Bool}
    {files : List Bytes}
    {word : Bytes}
    (hName : isName word = true) :
    expandIn fnmatch files word = [word] := by
  unfold expandIn
  rw [hasPattern_of_isName hName]
  rfl

/- What passes in one directory could be names. -/
theorem namesPossible_of_checkRoots
    {fnmatch : Bytes → Bytes → Bool}
    {files : List Bytes}
    {roots : Bytes}
    (hRoots :
      checkRoots (expandIn fnmatch files) roots = true) :
    Ascending roots ∧ NamesPossible fnmatch roots := by
  rw [checkRoots_eq_true_iff] at hRoots
  refine ⟨hRoots.2, fun word hWord => ?_⟩
  have hNames := hRoots.1 word hWord
  unfold expandIn at hNames
  simp only at hNames
  split_ifs at hNames with hFound
  · right
    rw [Bool.and_eq_true, decide_eq_true_eq] at hFound
    rcases List.exists_mem_of_ne_nil _ hFound.2 with
      ⟨name, hMem⟩
    have hFiltered := (List.mem_insertionSort _).mp hMem
    exact ⟨hFound.1, name, hNames name hMem,
      (List.mem_filter.mp hFiltered).2⟩
  · left
    exact hNames word (by simp)

theorem checkRoots_of_names
    {fnmatch : Bytes → Bytes → Bool}
    {roots : Bytes}
    (hAscending : Ascending roots)
    (hNames : ∀ word ∈ rootWords roots, isName word = true)
    (files : List Bytes) :
    checkRoots (expandIn fnmatch files) roots = true := by
  rw [checkRoots_eq_true_iff]
  refine ⟨fun word hWord name hMem => ?_, hAscending⟩
  rw [expandIn_of_isName (hNames word hWord),
    List.mem_singleton] at hMem
  rw [hMem]
  exact hNames word hWord

/- A directory of names in which these patterns match. -/
theorem exists_files
    {fnmatch : Bytes → Bytes → Bool}
    {words : List Bytes}
    (hPossible : ∀ word ∈ words,
      isName word = true ∨
        (hasPattern word = true ∧
          ∃ name, isName name = true ∧
            fnmatch word name = true)) :
    ∃ files : List Bytes,
      (∀ name ∈ files, isName name = true) ∧
        ∀ word ∈ words,
          isName word = true ∨
            (hasPattern word = true ∧
              ∃ name ∈ files, fnmatch word name = true) := by
  induction words with
  | nil => exact ⟨[], by simp, by simp⟩
  | cons word words ih =>
      rw [List.forall_mem_cons] at hPossible
      rcases ih hPossible.2 with ⟨files, hFiles, hWords⟩
      have hMore :
          ∀ extra, ∀ word ∈ words,
            isName word = true ∨
              (hasPattern word = true ∧
                ∃ name ∈ extra :: files,
                  fnmatch word name = true) := by
        intro extra word hWord
        rcases hWords word hWord with hName |
          ⟨hPattern, name, hMem, hMatch⟩
        · exact Or.inl hName
        · exact Or.inr ⟨hPattern, name, by simp [hMem], hMatch⟩
      rcases hPossible.1 with hName |
        ⟨hPattern, name, hName, hMatch⟩
      · exact ⟨files, hFiles,
          List.forall_mem_cons.mpr ⟨Or.inl hName, hWords⟩⟩
      · refine ⟨name :: files,
          List.forall_mem_cons.mpr ⟨hName, hFiles⟩,
          List.forall_mem_cons.mpr ⟨?_, hMore name⟩⟩
        exact Or.inr ⟨hPattern, name, by simp, hMatch⟩

/- One directory in which all these roots fields pass. -/
theorem exists_files_checkRoots
    {fnmatch : Bytes → Bytes → Bool}
    {fields : List Bytes}
    (hAscending : ∀ roots ∈ fields, Ascending roots)
    (hPossible : ∀ roots ∈ fields,
      NamesPossible fnmatch roots) :
    ∃ files : List Bytes, ∀ roots ∈ fields,
      checkRoots (expandIn fnmatch files) roots = true := by
  have hWords :
      ∀ word ∈ fields.flatMap rootWords,
        isName word = true ∨
          (hasPattern word = true ∧
            ∃ name, isName name = true ∧
              fnmatch word name = true) := by
    intro word hWord
    rcases List.mem_flatMap.mp hWord with
      ⟨roots, hRoots, hMem⟩
    exact hPossible roots hRoots word hMem
  rcases exists_files hWords with ⟨files, hFiles, hFound⟩
  refine ⟨files, fun roots hRoots => ?_⟩
  rw [checkRoots_eq_true_iff]
  refine ⟨fun word hWord name hMem => ?_,
    hAscending roots hRoots⟩
  rcases hFound word
      (List.mem_flatMap.mpr ⟨roots, hRoots, hWord⟩) with
    hName | ⟨hPattern, found, hIn, hMatch⟩
  · rw [expandIn_of_isName hName, List.mem_singleton] at hMem
    rw [hMem]
    exact hName
  · have hNonempty :
        (files.filter (fnmatch word)).insertionSort
          (· ≤ ·) ≠ [] := by
      intro hNil
      have hSorted :
          found ∈ (files.filter (fnmatch word)).insertionSort
            (· ≤ ·) :=
        (List.mem_insertionSort _).mpr
          (List.mem_filter.mpr ⟨hIn, hMatch⟩)
      rw [hNil] at hSorted
      exact List.not_mem_nil hSorted
    unfold expandIn at hMem
    simp only at hMem
    rw [if_pos (by simp [hPattern, hNonempty])] at hMem
    have hFiltered := (List.mem_insertionSort _).mp hMem
    exact hFiles name (List.mem_filter.mp hFiltered).1

/- Without blanks, the words are the items that hold something. -/
theorem rootWords_eq
    {roots : Bytes}
    (hBlank : space ∉ roots) :
    rootWords roots = (rootItems roots).filter (· ≠ []) := by
  unfold rootWords rootItems
  rw [splitOn_map_separator hBlank]

/- Only the first of ascending items can be empty. -/
theorem head_of_empty_item
    {roots : Bytes}
    (hAscending : Ascending roots)
    (hEmpty : [] ∈ rootItems roots) :
    roots = [] ∨ roots.head? = some comma := by
  have hJoin : ([comma] : Bytes).intercalate
      (rootItems roots) = roots :=
    List.intercalate_splitOn comma
  unfold Ascending at hAscending
  cases hItems : rootItems roots with
  | nil => exact absurd hItems (List.splitOn_ne_nil _ _)
  | cons item items =>
      rw [hItems] at hEmpty hAscending hJoin
      rw [List.pairwise_cons] at hAscending
      have hFirst : item = [] := by
        rcases List.mem_cons.mp hEmpty with hEq | hMem
        · exact hEq.symm
        · exact absurd (hAscending.1 [] hMem)
            (List.not_lt_nil _)
      rw [hFirst] at hJoin
      cases items with
      | nil =>
          left
          rw [← hJoin]
          rfl
      | cons next items =>
          right
          rw [List.intercalate_cons_cons] at hJoin
          rw [← hJoin]
          rfl

/- Plain roots that pass are canonical. -/
theorem canonicalRoots_of_plain
    {roots : Bytes}
    (hAscending : Ascending roots)
    (hPlain : PlainRoots roots)
    (hNonempty : roots ≠ []) :
    CanonicalRoots roots := by
  refine ⟨rootItems roots, List.splitOn_ne_nil _ _,
    (List.intercalate_splitOn comma).symm, ?_, hAscending⟩
  intro item hItem
  apply hPlain.names
  rw [rootWords_eq hPlain.noBlank, List.mem_filter]
  refine ⟨hItem, ?_⟩
  rw [decide_eq_true_eq]
  rintro rfl
  rcases head_of_empty_item hAscending hItem with hNil | hHead
  · exact hNonempty hNil
  · exact hPlain.front hHead

/- Canonical roots are plain. -/
theorem plainRoots_of_canonical
    {roots : Bytes}
    (hCanonical : CanonicalRoots roots) :
    PlainRoots roots := by
  rcases hCanonical with
    ⟨names, hNonempty, rfl, hNames, _⟩
  have hNoByte :
      ∀ b : UInt8, isNameByte b = true →
        b ≠ comma ∧ b ≠ space :=
    forall_byte (by decide +kernel)
  have hBytes :
      ∀ name ∈ names, ∀ b ∈ name, isNameByte b = true :=
    fun name hName =>
      mem_of_headTail isNameByte_of_isLowerDigit
        (hNames name hName)
  have hItems :
      rootItems (([comma] : Bytes).intercalate names) =
        names := by
    apply List.splitOn_intercalate comma _ hNonempty
    intro name hName hMem
    exact (hNoByte comma (hBytes name hName comma hMem)).1 rfl
  have hBlank :
      space ∉ ([comma] : Bytes).intercalate names := by
    intro hMem
    rcases mem_intercalate hMem with hComma | ⟨name, hName, hIn⟩
    · exact absurd hComma (by decide)
    · exact (hNoByte space (hBytes name hName space hIn)).2 rfl
  refine ⟨?_, hBlank, ?_⟩
  · intro word hWord
    rw [rootWords_eq hBlank, hItems, List.mem_filter] at hWord
    exact hNames word hWord.1
  · cases names with
    | nil => exact absurd rfl hNonempty
    | cons name names =>
        cases name with
        | nil =>
            exact absurd (hNames [] List.mem_cons_self)
              Bool.false_ne_true
        | cons b name =>
            rw [List.intercalate_cons_cons_left,
              List.head?_cons]
            intro hHead
            injection hHead with hComma
            have hByte :=
              hBytes (b :: name) List.mem_cons_self b
                List.mem_cons_self
            exact (hNoByte b hByte).1 hComma

------------------------------------------------------------
-- Rows of a Lock
------------------------------------------------------------

/- A row is no empty line, and does not end in a tab. -/
theorem takeRows_eq_ok
    {lines rows : List Bytes}
    (hTake : takeRows lines = .ok rows) :
    ∀ row ∈ rows, row.getLast? ≠ some tab := by
  induction lines generalizing rows with
  | nil =>
      injection hTake with hRows
      rw [← hRows]
      exact fun row hRow => absurd hRow List.not_mem_nil
  | cons line lines ih =>
      rw [takeRows, require_bind_eq_ok_iff,
        require_bind_eq_ok_iff, require_bind_eq_ok_iff,
        bind_eq_ok_iff] at hTake
      rcases hTake with ⟨_, _, hTab, taken, hTaken, hRows⟩
      split at hRows
      · injection hRows with hRows
        rw [← hRows]
        exact ih hTaken
      · injection hRows with hRows
        rw [← hRows, List.forall_mem_cons]
        exact ⟨of_decide_eq_true hTab, ih hTaken⟩

theorem readRows_eq_ok
    {file : Bytes}
    {rows : List Row}
    (hRead : readRows iconv file = .ok rows) :
    ∀ row ∈ rows, ∃ line : Bytes,
      line.getLast? ≠ some tab ∧ row = split line := by
  unfold readRows at hRead
  rw [unit_bind_eq_ok_iff, require_bind_eq_ok_iff,
    bind_eq_ok_iff] at hRead
  rcases hRead with ⟨_, _, lines, hTake, hRows⟩
  injection hRows with hRows
  rw [← hRows]
  intro row hRow
  rcases List.mem_map.mp hRow with ⟨line, hLine, hSplit⟩
  exact ⟨line, takeRows_eq_ok hTake line hLine, hSplit.symm⟩

/- The last field of a row that has several is not empty. -/
theorem last_field_ne_nil
    {file : Bytes}
    {rows : List Row}
    {row : Row}
    {n : Nat}
    (hRead : readRows iconv file = .ok rows)
    (hRow : row ∈ rows)
    (hLength : row.length = n + 2) :
    row.field (n + 1) ≠ [] := by
  intro hEmpty
  rcases readRows_eq_ok hRead row hRow with
    ⟨line, hTab, hSplit⟩
  have hJoin : ([tab] : Bytes).intercalate row = line := by
    rw [hSplit]
    exact List.intercalate_splitOn tab
  cases row with
  | nil => simp at hLength
  | cons first rest =>
      rw [List.length_cons] at hLength
      have hRest : rest.length = n + 1 := by omega
      have hNonempty : rest ≠ [] := by
        rintro rfl
        simp at hRest
      have hLast : rest.getLast? = some [] := by
        rw [List.getLast?_eq_getElem?, hRest,
          Nat.add_sub_cancel]
        have hIn : n < rest.length := by omega
        unfold Row.field at hEmpty
        rw [List.getD_cons_succ, List.getD_eq_getElem?_getD,
          List.getElem?_eq_getElem hIn, Option.getD_some]
          at hEmpty
        rw [List.getElem?_eq_getElem hIn, hEmpty]
      rw [← hJoin] at hTab
      exact hTab (getLast?_intercalate hNonempty hLast)

/- A row of one kind is none of another. -/
theorem isKind_of_kindOf
    {row : Row}
    {kind : Kind}
    (hKind : kindOf row = some kind) :
    isKind kind row = true :=
  decide_eq_true (field_of_kindOf hKind)

/- The check of roots fields, apart from the other checks. -/
theorem checkFields_eq_ok_iff
    {rootsOk : Bytes → Bool}
    {release : Release}
    {row : Row} :
    checkFields rootsOk release row = .ok () ↔
      checkFields (fun _ => true) release row = .ok () ∧
        (kindOf row = some .upstream →
          rootsOk (row.field 6) = true) := by
  by_cases hUpstream : kindOf row = some .upstream
  · unfold checkFields
    rw [hUpstream]
    simp only [require_eq_ok_iff, Bool.and_eq_true]
    tauto
  · have hSame :
        checkFields rootsOk release row =
          checkFields (fun _ => true) release row := by
      unfold checkFields
      split <;> first | rfl | contradiction
    rw [hSame]
    exact ⟨fun h => ⟨h, fun h' => absurd h' hUpstream⟩,
      fun h => h.1⟩

theorem lockAccepted_iff
    {rootsOk : Bytes → Bool}
    {first : Row}
    {rest : List Row} :
    LockAccepted rootsOk first rest ↔
      LockAccepted (fun _ => true) first rest ∧
        ∀ row ∈ rest, kindOf row = some .upstream →
          rootsOk (row.field 6) = true := by
  constructor
  · intro hAccepted
    refine ⟨{ hAccepted with fields := ?_ }, ?_⟩
    · intro row hRow
      exact (checkFields_eq_ok_iff.mp
        (hAccepted.fields row hRow)).1
    · intro row hRow
      exact (checkFields_eq_ok_iff.mp
        (hAccepted.fields row hRow)).2
  · rintro ⟨hAccepted, hRoots⟩
    refine { hAccepted with fields := ?_ }
    intro row hRow
    exact checkFields_eq_ok_iff.mpr
      ⟨hAccepted.fields row hRow, hRoots row hRow⟩

/- The rows with roots are behind the release row. -/
theorem mem_upstreamRoots_iff
    {file : Bytes}
    {first : Row}
    {rest : List Row}
    {rootsOk : Bytes → Bool}
    (hRead : readRows iconv file = .ok (first :: rest))
    (hAccepted : LockAccepted rootsOk first rest)
    {roots : Bytes} :
    roots ∈ upstreamRoots iconv file ↔
      ∃ row ∈ rest, kindOf row = some .upstream ∧
        row.field 6 = roots := by
  have hFirst : ¬ kindOf first = some .upstream := by
    intro hKind
    have hUpstream := isKind_of_kindOf hKind
    have hRelease := hAccepted.isRelease
    unfold isKind at hUpstream hRelease
    rw [decide_eq_true_eq] at hUpstream hRelease
    rw [hUpstream] at hRelease
    exact absurd hRelease (by decide)
  unfold upstreamRoots
  rw [hRead]
  simp [hFirst, and_assoc]

/- Accepted, in terms of the roots fields of the file. -/
theorem checkLock_eq_ok_iff
    {expand : Bytes → List Bytes}
    {file : Bytes} :
    checkLock iconv expand file = .ok () ↔
      KeepsOtherRules iconv file ∧
        ∀ roots ∈ upstreamRoots iconv file,
          checkRoots expand roots = true := by
  unfold checkLock KeepsOtherRules
  rw [checkLockWith_eq_ok_iff]
  constructor
  · rintro ⟨first, rest, hRead, hAccepted⟩
    have hParts := lockAccepted_iff.mp hAccepted
    refine ⟨⟨first, rest, hRead, hParts.1⟩, ?_⟩
    intro roots hRoots
    rcases (mem_upstreamRoots_iff hRead hAccepted).mp hRoots
      with ⟨row, hRow, hKind, rfl⟩
    exact hParts.2 row hRow hKind
  · rintro ⟨⟨first, rest, hRead, hAccepted⟩, hRoots⟩
    refine ⟨first, rest, hRead, ?_⟩
    rw [lockAccepted_iff]
    refine ⟨hAccepted, fun row hRow hKind => ?_⟩
    apply hRoots
    rw [mem_upstreamRoots_iff hRead hAccepted]
    exact ⟨row, hRow, hKind, rfl⟩

/- No roots field of a file that keeps the rules is empty. -/
theorem roots_ne_nil
    {file roots : Bytes}
    (hKeeps : KeepsOtherRules iconv file)
    (hRoots : roots ∈ upstreamRoots iconv file) :
    roots ≠ [] := by
  rcases hKeeps with ⟨first, rest, hRead, hAccepted⟩
  rcases (mem_upstreamRoots_iff hRead hAccepted).mp hRoots with
    ⟨row, hRow, hKind, rfl⟩
  have hMem : row ∈ first :: rest := List.mem_cons_of_mem _ hRow
  rcases exists_kind_of_checkColumns
      (hAccepted.columns row hMem) with
    ⟨kind, hKind', _, hLength⟩
  rw [hKind] at hKind'
  injection hKind' with hUpstream
  rw [← hUpstream] at hLength
  exact last_field_ne_nil (n := 5) hRead hMem hLength

------------------------------------------------------------
-- Correctness
------------------------------------------------------------

/-
  What is accepted has canonical roots, in every directory the
  same, just when no accepted lock has other words, a blank,
  or a comma in front.
-/
theorem rootsCorrect_iff
    (iconv : Iconv)
    (fnmatch : Bytes → Bytes → Bool)
    (file : Bytes) :
    RootsCorrect iconv fnmatch file ↔
      (KeepsOtherRules iconv file →
        (∀ roots ∈ upstreamRoots iconv file,
          Ascending roots ∧ NamesPossible fnmatch roots) →
        ∀ roots ∈ upstreamRoots iconv file, PlainRoots roots) := by
  constructor
  · rintro ⟨hCanonical, _⟩ hKeeps hPossible
    rcases exists_files_checkRoots
        (fun roots hRoots => (hPossible roots hRoots).1)
        (fun roots hRoots => (hPossible roots hRoots).2) with
      ⟨files, hFiles⟩
    have hAccepted :=
      checkLock_eq_ok_iff.mpr ⟨hKeeps, hFiles⟩
    intro roots hRoots
    exact plainRoots_of_canonical
      (hCanonical files hAccepted roots hRoots)
  · intro hPlain
    have hRoots :
        ∀ files : List Bytes,
          checkLock iconv (expandIn fnmatch files) file = .ok () →
            KeepsOtherRules iconv file ∧
              ∀ roots ∈ upstreamRoots iconv file,
                Ascending roots ∧ PlainRoots roots := by
      intro files hAccepted
      rw [checkLock_eq_ok_iff] at hAccepted
      have hPossible := fun roots hIn =>
        namesPossible_of_checkRoots (hAccepted.2 roots hIn)
      exact ⟨hAccepted.1, fun roots hIn =>
        ⟨(hPossible roots hIn).1,
          hPlain hAccepted.1 hPossible roots hIn⟩⟩
    have hEvery :
        ∀ files files' : List Bytes,
          checkLock iconv (expandIn fnmatch files) file = .ok () →
            checkLock iconv (expandIn fnmatch files') file =
              .ok () := by
      intro files files' hAccepted
      rcases hRoots files hAccepted with ⟨hKeeps, hIn⟩
      refine checkLock_eq_ok_iff.mpr
        ⟨hKeeps, fun roots hMem => ?_⟩
      exact checkRoots_of_names (hIn roots hMem).1
        (hIn roots hMem).2.names files'
    refine ⟨?_, fun files files' =>
      ⟨hEvery files files', hEvery files' files⟩⟩
    intro files hAccepted roots hMem
    rcases hRoots files hAccepted with ⟨hKeeps, hIn⟩
    exact canonicalRoots_of_plain (hIn roots hMem).1
      (hIn roots hMem).2 (roots_ne_nil hKeeps hMem)

/- A lock with an empty item in front of its roots. -/
def emptyItemLock : Bytes :=
  ascii "# mica-lock v1\n" ++
    ascii "release\tmica-system-base\t20260101-0000\t" ++
    List.replicate 40 0x30 ++
    ascii "\nupstream\tbusybox\tamd64\t1.0\t" ++
    List.replicate 64 0x30 ++
    ascii "\thttps://x\t,a\n"

theorem not_rootsCorrect_emptyItemLock :
    ¬ RootsCorrect strictIconv
      (fun pattern name => pattern = name)
      emptyItemLock := by
  intro hCorrect
  have hText : checkText strictIconv emptyItemLock = .ok () :=
    checkText_of_all (by decide +kernel)
  have hAccepted :
      checkLock strictIconv
          (expandIn (fun pattern name => pattern = name) [])
          emptyItemLock =
        .ok () := by
    unfold checkLock checkLockWith readRows
    rw [hText]
    decide +kernel
  have hRoots :
      ascii ",a" ∈ upstreamRoots strictIconv emptyItemLock := by
    unfold upstreamRoots readRows
    rw [hText]
    decide +kernel
  have hCanonical :=
    hCorrect.1 [] hAccepted (ascii ",a") hRoots
  exact (plainRoots_of_canonical hCanonical).front rfl

end Locks

end MicaBoards
