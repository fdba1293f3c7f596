import MicaBoards.Locks.PublishedRows
import MicaBoards.Locks.SortedRows

/-
  The rows of a written lock: their references are those to the
  release's own repository, their tags name the board, and each
  passes the checks of its fields.

  Main declarations:
    * `parseReference_taggedReference`
    * `isTag_ociTag`
    * `LockedRow`
-/

------------------------------------------------------------
-- References
------------------------------------------------------------

namespace MicaBoards

namespace Locks

open Text

theorem ne_of_isTagByte
    (b : UInt8) :
    isTagByte b = true →
      b ≠ atSign ∧ b ≠ colon ∧ isPlainByte b = true := by
  revert b
  exact forall_byte (by decide +kernel)

theorem isDigest_iff
    {digest : Bytes} :
    isDigest digest = true ↔
      ∃ hash, digest = ascii "sha256:" ++ hash ∧
        isSha hash = true := by
  unfold isDigest
  rw [Bool.and_eq_true, List.isPrefixOf_iff_prefix]
  constructor
  · rintro ⟨⟨hash, rfl⟩, hSha⟩
    exact ⟨hash, rfl, hSha⟩
  · rintro ⟨hash, rfl, hSha⟩
    exact ⟨⟨hash, rfl⟩, hSha⟩

/- The reference of a tag and a digest is taken apart again. -/
theorem parseReference_taggedReference
    {tag digest : Bytes}
    (hTag : plus isTagByte tag = true)
    (hDigest : isDigest digest = true) :
    parseReference (taggedReference tag digest) =
      some ⟨ghcr, repoName, tag⟩ := by
  have hFront : atSign ∉ repoName ++ colon :: tag := by
    intro hMem
    rcases List.mem_append.mp hMem with hMem | hMem
    · exact absurd hMem (by decide)
    · rcases List.mem_cons.mp hMem with hEq | hMem
      · exact absurd hEq (by decide)
      · exact (ne_of_isTagByte atSign
          (mem_of_plus hTag atSign hMem)).1 rfl
  have hRest :
      taggedReference tag digest =
        (ghcr ++ [slash]) ++
          ((repoName ++ colon :: tag) ++ atSign :: digest) := by
    unfold taggedReference referencePrefix
    simp
  have hColon : colon ∉ repoName := by decide
  have hForm : tagForm (repoName ++ colon :: tag) = true := by
    unfold tagForm
    rw [afterFirst_append hColon, hTag, Bool.or_true]
  have hRepository : isRepository repoName = true := by decide
  have hParse :
      parseRepository ghcr
          ((repoName ++ colon :: tag) ++ atSign :: digest) =
        some ⟨ghcr, repoName, tag⟩ := by
    unfold parseRepository
    simp only [beforeFirst_append hFront,
      afterFirst_append hFront, beforeFirst_append hColon,
      afterFirst_append hColon, hForm, hDigest, hRepository]
    rw [if_pos (by simp), if_pos (by simp)]
  unfold parseReference
  rw [hRest, if_pos (by
    rw [List.isPrefixOf_iff_prefix]
    exact List.prefix_append _ _)]
  rw [List.drop_left' (by simp)]
  exact hParse

theorem infix_of_mark
    {b : UInt8}
    {mark behind front hash : Bytes}
    (hMark : mark = b :: behind) :
    mark <:+: front ++ b :: (behind ++ hash) := by
  rw [hMark]
  exact ⟨front, hash, by simp⟩

/- It passes as one to the release's own repository. -/
theorem reference_taggedReference
    {release : Release}
    {tag digest : Bytes}
    (hTag : plus isTagByte tag = true)
    (hDigest : isDigest digest = true)
    (hRegistry : release.registry = ghcr) :
    reference release (taggedReference tag digest) repoName =
      .ok tag := by
  have hHas : hasDigest (taggedReference tag digest) = true := by
    rcases isDigest_iff.mp hDigest with ⟨hash, rfl, _⟩
    have hMark :
        ascii "@sha256:" = atSign :: ascii "sha256:" := by
      decide
    have hReference :
        taggedReference tag (ascii "sha256:" ++ hash) =
          referencePrefix ++ colon :: tag ++
            atSign :: (ascii "sha256:" ++ hash) := by
      unfold taggedReference
      simp only [List.append_assoc, List.cons_append]
    have hInfix :
        ascii "@sha256:" <:+:
          taggedReference tag (ascii "sha256:" ++ hash) := by
      rw [hReference]
      exact infix_of_mark hMark
    exact decide_eq_true hInfix
  unfold reference
  rw [require_bind_eq_ok_iff,
    parseReference_taggedReference hTag hDigest]
  refine ⟨hHas, ?_⟩
  simp only [hRegistry]
  rw [require_bind_eq_ok_iff, require_bind_eq_ok_iff]
  exact ⟨by decide, by decide, rfl⟩

------------------------------------------------------------
-- Tags
------------------------------------------------------------

theorem isTagByte_of_repository
    (b : UInt8) :
    (isRepositoryByte b = true ∨ b = dot) →
      isTagByte b = true := by
  revert b
  exact forall_byte (by decide +kernel)

theorem isRepository_component
    (board : Board) :
    ∀ component ∈ board.components,
      isRepository component = true := by
  intro component hMem
  have hForms :
      ∀ component ∈
        [ascii "board", ascii "kernel", ascii "uboot",
          ascii "firmware"],
        isRepository component = true := by
    decide
  exact hForms component
    (board.components_sublist.subset hMem)

/- Names with dots between them are a tag. -/
theorem isTag_ociTag
    {name : Bytes}
    {names : List Bytes}
    (hNames :
      ∀ part ∈ name :: names, isRepository part = true) :
    plus isTagByte (ociTag (name :: names)) = true := by
  unfold plus
  rw [Bool.and_eq_true, decide_eq_true_eq, List.all_eq_true]
  constructor
  · cases name with
    | nil =>
        exact absurd (hNames [] List.mem_cons_self) (by decide)
    | cons b name =>
        unfold ociTag
        rw [List.intercalate_cons_cons_left]
        exact List.cons_ne_nil _ _
  · intro b hb
    apply isTagByte_of_repository
    rcases mem_intercalate hb with hDot | ⟨part, hPart, hIn⟩
    · exact Or.inr hDot
    · left
      exact mem_of_isRepository (hNames part hPart) b hIn

theorem ociTag_cons_cons
    (name next : Bytes)
    (names : List Bytes) :
    ociTag (name :: next :: names) =
      name ++ dot :: ociTag (next :: names) := by
  unfold ociTag
  rw [List.intercalate_cons_of_ne_nil (List.cons_ne_nil _ _),
    List.append_assoc, List.singleton_append]

/- The last name ends the tag. -/
theorem ociTag_singleton (name : Bytes) :
    ociTag [name] = name :=
  List.intercalate_singleton

/- A reference is printable. -/
theorem isPlain_taggedReference
    {tag digest : Bytes}
    (hTag : plus isTagByte tag = true)
    (hDigest : isDigest digest = true) :
    isPlain (taggedReference tag digest) = true := by
  rcases isDigest_iff.mp hDigest with ⟨hash, rfl, hSha⟩
  have hHash : isPlain hash = true :=
    isPlain_of_exactly (by omega) hSha
  have hPrefix : isPlain (ascii "sha256:") = true := by decide
  have hReference : isPlain referencePrefix = true := by decide
  unfold taggedReference
  apply isPlain_append hReference
  apply isPlain_cons (by decide)
  apply isPlain_append (isPlain_of_isTag hTag)
  apply isPlain_cons (by decide)
  exact isPlain_append hPrefix hHash

------------------------------------------------------------
-- Rows of the Lock
------------------------------------------------------------

/- Columns of a row whose kind is known. -/
theorem checkColumns_of_kind
    {row : Row}
    {kind : Kind}
    (hKind : kindOf row = some kind)
    (hLength : row.length = kind.columns) :
    checkColumns row = .ok () := by
  have hName : row.field 0 ≠ [] := by
    rw [field_of_kindOf hKind]
    cases kind <;> decide
  unfold checkColumns requireKnown
  rw [unit_bind_eq_ok_iff, hKind, if_neg hName,
    require_eq_ok_iff, require_eq_ok_iff]
  exact ⟨rfl, decide_eq_true hLength⟩

section LockRowKinds

theorem PoolRow.kindOf_lockRow (row : PoolRow) :
    kindOf row.lockRow = some .pool :=
  kindOf_of_name rfl

theorem PackageRow.kindOf_lockRow (row : PackageRow) :
    kindOf row.lockRow = some .package :=
  kindOf_of_name rfl

theorem BoardRow.kindOf_lockRow (row : BoardRow) :
    kindOf row.lockRow = some .board :=
  kindOf_of_name rfl

theorem PoolRow.keyFields_lockRow (row : PoolRow) :
    keyFields row.lockRow = [row.arch] := by
  unfold keyFields
  rw [row.kindOf_lockRow]
  rfl

theorem PackageRow.keyFields_lockRow (row : PackageRow) :
    keyFields row.lockRow = [row.name, row.arch] := by
  unfold keyFields
  rw [row.kindOf_lockRow]
  rfl

theorem BoardRow.keyFields_lockRow (row : BoardRow) :
    keyFields row.lockRow = [row.board, row.component] := by
  unfold keyFields
  rw [row.kindOf_lockRow]
  rfl

end LockRowKinds

/- A row behind the release row of a board. -/
inductive LockedRow (board : Board) (stamp : Bytes) :
    Row → Prop
| pool
    (row : PoolRow)
    (hForm : row.Published board stamp) :
    LockedRow board stamp row.lockRow
| package
    (row : PackageRow)
    (hForm : row.Published) :
    LockedRow board stamp row.lockRow
| board
    (row : BoardRow)
    (hForm : row.Published stamp)
    (hBoard : row.board = board.name)
    (hComponent : row.component ∈ board.components) :
    LockedRow board stamp row.lockRow

/- What the release row says. -/
def boardRelease (board : Board) (stamp : Bytes) : Release where
  repository := repoName
  scope := board.name
  release := stamp

theorem registry_boardRelease
    (board : Board)
    {stamp : Bytes}
    (hStamp : isStamp stamp = true) :
    (boardRelease board stamp).registry = ghcr := by
  unfold Release.registry boardRelease
  apply if_neg
  rintro rfl
  exact absurd hStamp (by decide)

namespace LockedRow

variable {board : Board}
variable {stamp : Bytes}
variable {row : Row}

theorem keyed
    (hRow : LockedRow board stamp row) :
    ∃ kind, KeyedRow kind row ∧ row.length = kind.columns ∧
      (kind = .pool ∨ kind = .package ∨ kind = .board) := by
  cases hRow with
  | pool row hForm =>
      refine ⟨.pool, ⟨row.kindOf_lockRow, ?_⟩, rfl, Or.inl rfl⟩
      rw [row.keyFields_lockRow]
      exact separable_cons (one_lt_of_isArch hForm.arch)
        separable_nil
  | package row hForm =>
      refine ⟨.package, ⟨row.kindOf_lockRow, ?_⟩, rfl,
        Or.inr (Or.inl rfl)⟩
      rw [row.keyFields_lockRow]
      exact separable_cons (one_lt_of_isName hForm.name)
        (separable_cons (one_lt_of_isArch hForm.arch)
          separable_nil)
  | board row hForm =>
      refine ⟨.board, ⟨row.kindOf_lockRow, ?_⟩, rfl,
        Or.inr (Or.inr rfl)⟩
      rw [row.keyFields_lockRow]
      exact separable_cons (one_lt_of_isName hForm.board)
        (separable_cons (one_lt_of_isName hForm.component)
          separable_nil)

theorem kind
    (hRow : LockedRow board stamp row) :
    ∃ kind, kindOf row = some kind ∧
      row.length = kind.columns ∧
      (kind = .pool ∨ kind = .package ∨ kind = .board) := by
  rcases hRow.keyed with ⟨kind, hKeyed, hRest⟩
  exact ⟨kind, hKeyed.kind, hRest⟩

theorem kind_ne
    (hRow : LockedRow board stamp row)
    {other : Kind}
    (hOther : other ≠ .pool ∧ other ≠ .package ∧
      other ≠ .board) :
    kindOf row ≠ some other := by
  rcases hRow.kind with ⟨kind, hKind, _, hOneOf⟩
  intro hIs
  rw [hKind] at hIs
  rw [Option.some.inj hIs] at hOneOf
  rcases hOneOf with h | h | h
  · exact hOther.1 h
  · exact hOther.2.1 h
  · exact hOther.2.2 h

/- The tag of a pool, and of a component. -/
theorem pool_tag_form
    {row : PoolRow}
    (hStamp : isStamp stamp = true)
    (hForm : row.Published board stamp) :
    plus isTagByte row.tag = true := by
  rw [hForm.tag]
  apply isTag_ociTag
  simp only [List.forall_mem_cons]
  exact ⟨by decide, board.nameForm,
    isRepository_of_isArch hForm.arch,
    isRepository_of_isStamp hStamp, by simp⟩

theorem board_tag_form
    {row : BoardRow}
    (hStamp : isStamp stamp = true)
    (hForm : row.Published stamp)
    (hBoard : row.board = board.name)
    (hComponent : row.component ∈ board.components) :
    plus isTagByte row.tag = true := by
  rw [hForm.tag, hBoard]
  apply isTag_ociTag
  simp only [List.forall_mem_cons]
  exact ⟨isRepository_component board _ hComponent,
    board.nameForm, isRepository_of_isStamp hStamp, by simp⟩

/- Each row is printable. -/
theorem plain
    (hStamp : isStamp stamp = true)
    (hRow : LockedRow board stamp row) :
    PlainRow row := by
  have hComment : (row.field 0).head? ≠ some 0x23 := by
    rcases hRow.kind with ⟨kind, hKind, _⟩
    rw [field_of_kindOf hKind]
    cases kind <;> decide
  cases hRow with
  | pool row hForm =>
      refine ⟨List.cons_ne_nil _ _, ?_, hComment⟩
      unfold PoolRow.lockRow
      simp only [List.forall_mem_cons]
      exact ⟨by decide,
        isPlain_of_isName (isName_of_isArch hForm.arch),
        isPlain_taggedReference (pool_tag_form hStamp hForm)
          hForm.digest,
        by simp⟩
  | package row hForm =>
      refine ⟨List.cons_ne_nil _ _, ?_, hComment⟩
      unfold PackageRow.lockRow
      simp only [List.forall_mem_cons]
      exact ⟨by decide, isPlain_of_isName hForm.name,
        isPlain_of_isName (isName_of_isArch hForm.arch),
        isPlain_of_isVersion hForm.version,
        isPlain_of_exactly (by omega) hForm.sha256,
        by simp⟩
  | board row hForm hBoard hComponent =>
      refine ⟨List.cons_ne_nil _ _, ?_, hComment⟩
      unfold BoardRow.lockRow
      simp only [List.forall_mem_cons]
      exact ⟨by decide, isPlain_of_isName hForm.board,
        isPlain_of_isName hForm.component,
        isPlain_of_isName (isName_of_isArch hForm.arch),
        isPlain_taggedReference
          (board_tag_form hStamp hForm hBoard hComponent)
          hForm.digest,
        by simp⟩

/- Each row passes the checks of its fields. -/
theorem fields
    {rootsOk : Bytes → Bool}
    (hStamp : isStamp stamp = true)
    (hRow : LockedRow board stamp row) :
    checkFields rootsOk (boardRelease board stamp) row =
      .ok () := by
  have hRegistry := registry_boardRelease board hStamp
  have hScope :
      (boardRelease board stamp).boardScope = board.name := rfl
  unfold checkFields
  cases hRow with
  | pool row hForm =>
      rw [row.kindOf_lockRow]
      simp only
      rw [require_bind_eq_ok_iff, bind_eq_ok_iff]
      refine ⟨hForm.arch, row.tag, ?_, ?_⟩
      · exact reference_taggedReference
          (pool_tag_form hStamp hForm) hForm.digest hRegistry
      · rw [require_eq_ok_iff, Bool.or_eq_true]
        right
        have hPool :
            ascii "pool." = ascii "pool" ++ [dot] := by
          decide
        rw [List.isPrefixOf_iff_prefix, hScope, hPool,
          hForm.tag]
        refine ⟨stamp, ?_⟩
        unfold poolTag
        simp only [ociTag_cons_cons, ociTag_singleton,
          List.append_assoc, List.singleton_append]
        rfl
  | package row hForm =>
      rw [row.kindOf_lockRow]
      simp only [require_eq_ok_iff, Bool.and_eq_true]
      exact ⟨⟨⟨hForm.name, hForm.arch⟩, hForm.version⟩,
        hForm.sha256⟩
  | board row hForm hBoard hComponent =>
      rw [row.kindOf_lockRow]
      simp only
      rw [require_bind_eq_ok_iff, bind_eq_ok_iff]
      refine ⟨?_, row.tag, ?_, ?_⟩
      · rw [Bool.and_eq_true, Bool.and_eq_true,
          decide_eq_true_eq]
        exact ⟨⟨hForm.board,
          board.components_sublist.subset hComponent⟩,
          hForm.arch⟩
      · exact reference_taggedReference
          (board_tag_form hStamp hForm hBoard hComponent)
          hForm.digest hRegistry
      · rw [require_eq_ok_iff, Bool.or_eq_true]
        right
        rw [Bool.and_eq_true, decide_eq_true_eq,
          List.isPrefixOf_iff_prefix, hScope, hForm.tag]
        refine ⟨hBoard, stamp, ?_⟩
        simp only [ociTag_cons_cons, ociTag_singleton,
          List.append_assoc, List.singleton_append]
        rfl

end LockedRow

end Locks

end MicaBoards
