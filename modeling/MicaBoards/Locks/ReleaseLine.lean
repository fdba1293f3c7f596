import MicaBoards.Locks.Accepted
import MicaBoards.Locks.Pins

/-
  The line that `grep` prints of an accepted lock is its
  release row, unless it takes the lock for binary.

  Main declarations:
    * `readRelease_releaseLine`
    * `readRelease_binary`
-/

------------------------------------------------------------
-- Lines in Front of the First Row
------------------------------------------------------------

namespace MicaBoards

namespace Locks

open Text

variable {iconv : Iconv}

def hash : UInt8 := 0x23

/- Comments stand in front of the first row. -/
theorem takeRows_eq_ok_cons
    {lines rows : List Bytes}
    {row : Bytes}
    (hTake : takeRows lines = .ok (row :: rows)) :
    ∃ comments rest : List Bytes,
      lines = comments ++ row :: rest ∧
        ∀ comment ∈ comments, comment.head? = some hash := by
  induction lines with
  | nil =>
      injection hTake with hRows
      exact absurd hRows (List.cons_ne_nil _ _).symm
  | cons line lines ih =>
      rw [takeRows, require_bind_eq_ok_iff,
        require_bind_eq_ok_iff, require_bind_eq_ok_iff,
        bind_eq_ok_iff] at hTake
      rcases hTake with ⟨_, _, _, taken, hTaken, hRows⟩
      split at hRows
      · next hComment =>
          injection hRows with hRows
          rw [hRows] at hTaken
          rcases ih hTaken with ⟨comments, rest, rfl, hAll⟩
          exact ⟨line :: comments, rest, rfl,
            List.forall_mem_cons.mpr ⟨hComment, hAll⟩⟩
      · injection hRows with hRows
        injection hRows with hRow
        rw [hRow]
        exact ⟨[], lines, rfl, by simp⟩

/- A line that is cut begins as it did before. -/
theorem head_of_cutAtNul
    {line : Bytes}
    {b : UInt8}
    (hHead : (cutAtNul line).head? = some b) :
    line.head? = some b := by
  cases line with
  | nil => exact hHead
  | cons c line =>
      unfold cutAtNul at hHead
      rw [List.takeWhile_cons] at hHead
      split at hHead
      · exact hHead
      · exact absurd hHead (by simp)

theorem not_releasePrefix_of_hash
    {line : Bytes}
    (hHead : (cutAtNul line).head? = some hash) :
    ¬ releasePrefix.isPrefixOf line = true := by
  have hLine := head_of_cutAtNul hHead
  rw [List.isPrefixOf_iff_prefix]
  rintro ⟨rest, rfl⟩
  have hFirst :
      (releasePrefix ++ rest).head? = some 0x72 := rfl
  rw [hFirst] at hLine
  exact absurd hLine (by decide)

/- What `grep` prints of a file in which it finds a row. -/
theorem find?_releasePrefix
    {lines rows : List Bytes}
    {row : Bytes}
    (hHeader : ((lines.map cutAtNul).headD []).head? = some hash)
    (hTake :
      takeRows (lines.map cutAtNul).tail = .ok (row :: rows))
    (hRow : releasePrefix.isPrefixOf row = true) :
    ∃ line ∈ lines, cutAtNul line = row ∧
      lines.find? releasePrefix.isPrefixOf = some line := by
  rcases takeRows_eq_ok_cons hTake with
    ⟨comments, rest, hTail, hComments⟩
  cases lines with
  | nil => exact absurd hHeader (by simp)
  | cons header lines =>
      rw [List.map_cons, List.tail_cons,
        List.map_eq_append_iff] at hTail
      rcases hTail with ⟨before, behind, rfl, hBefore, hBehind⟩
      rw [List.map_eq_cons_iff] at hBehind
      rcases hBehind with ⟨line, after, rfl, hLine, _⟩
      refine ⟨line, by simp, hLine, ?_⟩
      have hFront :
          ∀ other ∈ header :: before,
            ¬ releasePrefix.isPrefixOf other = true := by
        rw [List.forall_mem_cons]
        refine ⟨not_releasePrefix_of_hash hHeader, ?_⟩
        intro other hOther
        apply not_releasePrefix_of_hash
        apply hComments
        rw [← hBefore]
        exact List.mem_map_of_mem hOther
      have hFound :
          releasePrefix.isPrefixOf line = true := by
        rw [List.isPrefixOf_iff_prefix] at hRow ⊢
        rw [← hLine] at hRow
        exact hRow.trans (List.takeWhile_prefix _)
      rw [← List.cons_append, List.find?_append,
        List.find?_eq_none.mpr hFront, Option.none_or,
        List.find?_cons_of_pos hFound]

------------------------------------------------------------
-- Fields of the Release Row
------------------------------------------------------------

/- The first three fields of a line, with any bytes behind. -/
theorem readFields_append
    {kind repository release rest : Bytes}
    (hKind : tab ∉ kind ∧ 0 ∉ kind ∧ kind ≠ [])
    (hRepository :
      tab ∉ repository ∧ 0 ∉ repository ∧ repository ≠ [])
    (hRelease :
      tab ∉ release ∧ 0 ∉ release ∧ release ≠ []) :
    ∃ more, readFields
        (kind ++ tab :: (repository ++ tab ::
          (release ++ tab :: rest))) =
      kind :: repository :: release :: more := by
  have hTab : ∀ s : Bytes,
      dropNuls (tab :: s) = tab :: dropNuls s :=
    fun s => List.filter_cons_of_pos (by decide)
  refine ⟨((dropNuls rest).splitOn tab).filter (· ≠ []), ?_⟩
  unfold readFields
  rw [dropNuls_append, dropNuls_eq_self hKind.2.1, hTab,
    dropNuls_append, dropNuls_eq_self hRepository.2.1, hTab,
    dropNuls_append, dropNuls_eq_self hRelease.2.1, hTab,
    List.splitOn_append_cons_self_of_not_mem hKind.1,
    List.splitOn_append_cons_self_of_not_mem hRepository.1,
    List.splitOn_append_cons_self_of_not_mem hRelease.1,
    List.filter_cons_of_pos (by simpa using hKind.2.2),
    List.filter_cons_of_pos (by simpa using hRepository.2.2),
    List.filter_cons_of_pos (by simpa using hRelease.2.2)]

/- What an accepted release row looks like. -/
theorem LockAccepted.releaseRow
    {rootsOk : Bytes → Bool}
    {first : Row}
    {rest : List Row}
    (hAccepted : LockAccepted rootsOk first rest) :
    ∃ repository release commit : Bytes,
      first = [ascii "release", repository, release, commit] ∧
        repository ≠ [] ∧ release ≠ [] := by
  have hMem : first ∈ first :: rest := List.mem_cons_self
  rcases exists_kind_of_checkColumns
      (hAccepted.columns first hMem) with
    ⟨kind, _, hName, hLength⟩
  have hFirst := hAccepted.isRelease
  unfold isKind at hFirst
  rw [decide_eq_true_eq] at hFirst
  have hKind : kind = .release := by
    rw [hName] at hFirst
    cases kind <;> first | rfl | exact absurd hFirst (by decide)
  rw [hKind] at hLength
  have hForm := hAccepted.release
  unfold checkRelease at hForm
  rw [require_bind_eq_ok_iff, Bool.and_eq_true,
    Bool.and_eq_true, Bool.and_eq_true, Bool.or_eq_true,
    decide_eq_true_eq] at hForm
  rcases hForm with ⟨⟨⟨⟨hRepository, hRelease⟩, _⟩, _⟩, _⟩
  match first, hLength with
  | [kind', repository, release, commit], _ =>
      have hKind' : kind' = ascii "release" := hFirst
      refine ⟨repository, release, commit, by rw [hKind'], ?_,
        ?_⟩
      · rintro rfl
        exact Bool.false_ne_true hRepository
      · rintro rfl
        rcases hRelease with hStamp | hOffline
        · exact Bool.false_ne_true hStamp
        · have hEmpty : ([] : Bytes) = offline := hOffline
          exact absurd hEmpty (by decide)

/- `read` finds the release row of an accepted text. -/
theorem readRelease_releaseLine
    {grep : Grep}
    {rootsOk : Bytes → Bool}
    {lock : Bytes}
    {first : Row}
    {rest : List Row}
    (hRead : readRows iconv lock = .ok (first :: rest))
    (hAccepted : LockAccepted rootsOk first rest)
    (hText : grep.binary lock = false) :
    readRelease (grep.releaseLine lock) =
      Release.ofRow first := by
  unfold readRows at hRead
  rw [unit_bind_eq_ok_iff, require_bind_eq_ok_iff,
    bind_eq_ok_iff, decide_eq_true_eq] at hRead
  rcases hRead with ⟨_, hHeader, lines, hTake, hRows⟩
  injection hRows with hRows
  rw [List.map_eq_cons_iff] at hRows
  rcases hRows with ⟨row, rows, rfl, hSplit, _⟩
  rcases hAccepted.releaseRow with
    ⟨repository, release, commit, hFirst, hRepository,
      hRelease⟩
  have hJoin : ([tab] : Bytes).intercalate first = row := by
    rw [← hSplit]
    exact List.intercalate_splitOn tab
  have hRow :
      row = ascii "release" ++ tab :: (repository ++ tab ::
        (release ++ tab :: commit)) := by
    rw [← hJoin, hFirst]
    simp
  have hTab : ∀ field ∈ first, tab ∉ field := by
    intro field hField
    rw [← hSplit] at hField
    exact notMem_of_mem_splitOn hField
  unfold mapfile at hHeader hTake
  have hHash :
      (((textLines lock).map cutAtNul).headD []).head? =
        some hash := by
    rw [hHeader]
    rfl
  have hPrefix : releasePrefix.isPrefixOf row = true := by
    rw [List.isPrefixOf_iff_prefix, hRow]
    exact ⟨repository ++ tab :: (release ++ tab :: commit), rfl⟩
  rcases find?_releasePrefix hHash hTake hPrefix with
    ⟨line, _, hCut, hFind⟩
  have hNul : 0 ∉ row := by
    rw [← hCut]
    intro hMem
    have hKept := List.mem_takeWhile_imp hMem
    exact absurd rfl (of_decide_eq_true hKept)
  have hLine :
      line = row ++ line.dropWhile (fun b => b ≠ 0) := by
    rw [← hCut]
    exact (List.takeWhile_append_dropWhile).symm
  rw [hRow] at hNul
  simp only [List.mem_append, List.mem_cons, not_or] at hNul
  rw [hFirst] at hTab
  simp only [List.forall_mem_cons] at hTab
  rcases @readFields_append (ascii "release") repository release
      (commit ++ line.dropWhile fun b => b ≠ 0)
      ⟨hTab.1, hNul.1, by decide⟩
      ⟨hTab.2.1, hNul.2.2.1, hRepository⟩
      ⟨hTab.2.2.1, hNul.2.2.2.2.1, hRelease⟩ with
    ⟨more, hFields⟩
  have hPrinted :
      readFields (grep.releaseLine lock) =
        ascii "release" :: repository :: release :: more := by
    unfold Grep.releaseLine
    rw [if_neg (by rw [hText]; exact Bool.false_ne_true),
      hFind, Option.getD_some, hLine, hRow, ← hFields]
    simp only [List.append_assoc, List.cons_append]
  unfold readRelease Release.ofRow
  rw [hPrinted, hFirst]
  rfl

/- Of what `grep` takes for binary, `read` has no release. -/
theorem readRelease_binary
    {grep : Grep}
    {lock : Bytes}
    (hBinary : grep.binary lock = true) :
    (readRelease (grep.releaseLine lock)).repository = [] := by
  unfold Grep.releaseLine
  rw [if_pos hBinary]
  decide

end Locks

end MicaBoards
