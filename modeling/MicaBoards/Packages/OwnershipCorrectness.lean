import Mathlib.Data.List.Nodup
import MicaBoards.Packages.Ownership

/-
  What the ownership check of the package gate guarantees.

  It passes exactly when no two archives claim one path
  without naming each other.  It does not see a path that one
  archive has as a directory and another as something else,
  nor a path whose first word is empty, and it reads another
  path where the name of an owner has a blank in it.

  Key definitions include:
    * `Archive.Names`, `MayShare`
    * `Exclusive`
    * `Unseen`

  Main declarations:
    * `ownershipFailures_eq_nil_iff`
    * `readPaths_of_plain`
    * `unseen_iff_of_plain`
    * `exclusive_iff`
-/

------------------------------------------------------------
-- Archives That Name Each Other
------------------------------------------------------------

namespace MicaBoards

namespace Packages

open Text

/-
  An archive names another in an unversioned `Conflicts`, by
  its name or by a name it provides.
-/
def Archive.Names (deb other : Archive) : Prop :=
  ∃ name ∈ deb.conflictNames,
    name = other.name.bytes ∨ name ∈ other.provideNames

/- Two archives that each name the other -/
def MayShare (deb other : Archive) : Prop :=
  deb.Names other ∧ other.Names deb

/- Archives of a pool have names of their own. -/
def Distinct (debs : List Archive) : Prop :=
  (debs.map fun deb => deb.name.bytes).Nodup

section Names

variable {debs : List Archive}
variable {deb other : Archive}

theorem eq_of_name
    (hDistinct : Distinct debs)
    (hDeb : deb ∈ debs)
    (hOther : other ∈ debs)
    (hName : deb.name.bytes = other.name.bytes) :
    deb = other :=
  List.inj_on_of_nodup_map hDistinct hDeb hOther hName

theorem mem_providedBy
    (hDistinct : Distinct debs)
    (hOther : other ∈ debs)
    (name : Bytes) :
    other.name.bytes ∈ providedBy debs name ↔
      name ∈ other.provideNames := by
  rw [providedBy, Owners.mem_fill]
  constructor
  · intro hRow
    rcases List.mem_flatMap.mp hRow with ⟨deb, hDeb, hRow⟩
    rcases List.mem_map.mp hRow with ⟨name', hName', hEq⟩
    rcases Prod.mk.inj hEq with ⟨rfl, hSame⟩
    rwa [← eq_of_name hDistinct hDeb hOther hSame]
  · intro hName
    exact List.mem_flatMap.mpr
      ⟨other, hOther, List.mem_map.mpr ⟨name, hName, rfl⟩⟩

theorem mem_conflictsTable
    (hDistinct : Distinct debs)
    (hDeb : deb ∈ debs)
    (name : Bytes) :
    name ∈ conflictsTable debs deb.name.bytes ↔
      name ∈ deb.conflictNames := by
  rw [conflictsTable, Owners.mem_fill]
  constructor
  · intro hRow
    rcases List.mem_flatMap.mp hRow with ⟨found, hFound, hRow⟩
    rcases List.mem_map.mp hRow with ⟨name', hName', hEq⟩
    rcases Prod.mk.inj hEq with ⟨hSame, rfl⟩
    rwa [← eq_of_name hDistinct hFound hDeb hSame]
  · intro hName
    exact List.mem_flatMap.mpr
      ⟨deb, hDeb, List.mem_map.mpr ⟨name, hName, rfl⟩⟩

theorem conflictsWith_iff
    (hDistinct : Distinct debs)
    (hDeb : deb ∈ debs)
    (hOther : other ∈ debs) :
    conflictsWith debs deb.name.bytes other.name.bytes = true ↔
      deb.Names other := by
  rw [conflictsWith, List.any_eq_true, Archive.Names]
  apply exists_congr
  intro name
  rw [mem_conflictsTable hDistinct hDeb, decide_eq_true_iff,
    mem_providedBy hDistinct hOther]

theorem mutuallyConflicting_iff
    (hDistinct : Distinct debs)
    (hDeb : deb ∈ debs)
    (hOther : other ∈ debs) :
    mutuallyConflicting debs deb.name.bytes
        other.name.bytes = true ↔
      MayShare deb other := by
  rw [mutuallyConflicting, Bool.and_eq_true_iff,
    conflictsWith_iff hDistinct hDeb hOther,
    conflictsWith_iff hDistinct hOther hDeb, MayShare]

end Names

------------------------------------------------------------
-- When the Check Passes
------------------------------------------------------------

/- No two claims of one path by archives that may not share -/
def ClaimsShared (debs : List Archive) : Prop :=
  (debs.flatMap Archive.claims).Pairwise
    (Owners.Shares (mutuallyConflicting debs))

/- One archive that is reported stays reported. -/
theorem failed_foldl_ne_nil
    (debs rest : List Archive)
    {gate : Gate}
    (hFailed : gate.failed ≠ []) :
    (rest.foldl (gateArchive debs) gate).failed ≠ [] := by
  induction rest generalizing gate with
  | nil => exact hFailed
  | cons deb rest ih =>
      refine ih ?_
      unfold gateArchive
      dsimp only
      split
      · exact hFailed
      · exact List.append_ne_nil_of_right_ne_nil _
          (List.cons_ne_nil _ _)

/-
  From owners that record what was visited, the rest passes
  exactly when all the claims together are shared.
-/
theorem failed_foldl_eq_nil_iff
    (debs rest : List Archive)
    {owner : Bytes → List Bytes}
    {before : List (Bytes × Bytes)}
    (hRecords : Owners.Records owner before)
    (hBefore :
      before.Pairwise
        (Owners.Shares (mutuallyConflicting debs))) :
    (rest.foldl (gateArchive debs)
        { owner := owner, failed := [] }).failed = [] ↔
      (before ++ rest.flatMap Archive.claims).Pairwise
        (Owners.Shares (mutuallyConflicting debs)) := by
  induction rest generalizing owner before with
  | nil =>
      rw [List.flatMap_nil, List.append_nil]
      exact iff_of_true rfl hBefore
  | cons deb rest ih =>
      have hClean :=
        Owners.clashes_eq_nil_iff (mutuallyConflicting debs)
          hRecords hBefore deb.claims
      rw [List.foldl_cons, List.flatMap_cons, ← List.append_assoc]
      by_cases hNone :
          (Owners.claimAll (mutuallyConflicting debs) owner
            deb.claims).clashes = []
      · have hGate :
            gateArchive debs { owner := owner, failed := [] } deb =
              { owner :=
                  (Owners.claimAll (mutuallyConflicting debs)
                    owner deb.claims).owner
                failed := [] } := by
          simp [gateArchive, hNone]
        rw [hGate]
        exact ih
          (Owners.records_claimAll (mutuallyConflicting debs)
            hRecords hNone)
          (hClean.mp hNone)
      · refine iff_of_false
          (failed_foldl_ne_nil debs rest ?_) ?_
        · simp [gateArchive, hNone]
        · intro hPairwise
          exact hNone
            (hClean.mpr (List.pairwise_append.mp hPairwise).1)

/- The check reports nothing exactly when claims are shared. -/
theorem ownershipFailures_eq_nil_iff (debs : List Archive) :
    ownershipFailures debs = [] ↔ ClaimsShared debs := by
  have hFold :=
    failed_foldl_eq_nil_iff debs debs
      (Owners.records_nil (κ := Bytes) (α := Bytes)) .nil
  rwa [List.nil_append] at hFold

------------------------------------------------------------
-- The Path of a Line
------------------------------------------------------------

/- What the check takes for the path: its first word -/
def Entry.ownedPath (entry : Entry) : Bytes :=
  withoutSlash (entry.path.takeWhile fun b => !isBlank b)

theorem startsBlank_targetText (entry : Entry) :
    StartsBlank entry.targetText := by
  unfold Entry.targetText
  cases entry.target with
  | none => exact fun b hb => by cases hb
  | some target =>
      intro b hb
      obtain rfl : space = b := by simpa using hb
      decide

theorem word_mode_line (entry : Entry) :
    word 0 entry.line = entry.mode.bytes := by
  refine entry.mode.word_zero ?_
  intro b hb
  obtain rfl : space = b := by simpa using hb
  decide

/- An owner of one word, and no line end in what is printed -/
structure Entry.Plain (entry : Entry) : Prop where
  owner_ne_nil : entry.owner ≠ []
  owner : ∀ b ∈ entry.owner, isBlank b = false
  oneLine : lf ∉ entry.line

theorem word_path_line
    {entry : Entry}
    (hPlain : entry.Plain)
    (hFile : entry.isDirectory = false) :
    word 5 entry.line =
      ascii "./" ++ entry.path.takeWhile fun b => !isBlank b := by
  have hDot : ascii "./" = [0x2e, slash] := by decide
  have hHead : isBlank 0x2e = false := by decide
  have hSlash : isBlank slash = false := by decide
  have hOwner :
      entry.owner =
        (Word.mk entry.owner hPlain.owner_ne_nil
          hPlain.owner).bytes := rfl
  rw [Entry.line, Word.word_succ, hOwner, Word.word_succ,
    word_replicate, Word.word_succ, Word.word_succ,
    Word.word_succ, word, Entry.pathText, hFile]
  simp only [Bool.false_eq_true, false_and, if_false,
    List.append_nil, hDot, List.cons_append, List.nil_append]
  rw [firstWord_of_head hHead,
    List.takeWhile_cons_of_pos (by simp [hSlash]),
    takeWhile_append_blank (startsBlank_targetText entry)]

/- A directory is passed over; of a path the first word counts. -/
theorem pathOf_line
    {entry : Entry}
    (hPlain : entry.Plain) :
    pathOf entry.line =
      if entry.isDirectory ∨ entry.ownedPath = [] then none
      else some entry.ownedPath := by
  unfold pathOf
  rw [word_mode_line]
  by_cases hDirectory : entry.isDirectory = true
  · have hMode : entry.mode.bytes.head? = some 0x64 :=
      of_decide_eq_true hDirectory
    simp [entry.mode.ne_nil, hDirectory, hMode]
  · rw [Bool.not_eq_true] at hDirectory
    have hMode : ¬ entry.mode.bytes.head? = some 0x64 :=
      of_decide_eq_false hDirectory
    have hPath :
        withoutSlash (withoutDot (word 5 entry.line)) =
          entry.ownedPath := by
      rw [word_path_line hPlain hDirectory]
      rfl
    simp [entry.mode.ne_nil, hDirectory, hMode, hPath]

/- An entry with a plain owner is read as one path, or none. -/
theorem readPaths_of_plain
    {entry : Entry}
    (hPlain : entry.Plain) :
    entry.readPaths =
      if entry.isDirectory ∨ entry.ownedPath = [] then []
      else [entry.ownedPath] := by
  rw [Entry.readPaths,
    List.splitOn_eq_singleton hPlain.oneLine,
    List.filterMap_cons, List.filterMap_nil,
    pathOf_line hPlain]
  split_ifs with hNone
  · rfl
  · rfl

theorem mem_claims
    {deb : Archive}
    {claimed : Bytes × Bytes} :
    claimed ∈ deb.claims ↔
      ∃ entry ∈ deb.entries,
        claimed.1 ∈ entry.readPaths ∧
          claimed.2 = deb.name.bytes := by
  unfold Archive.claims
  rw [List.mem_map]
  constructor
  · intro hClaim
    rcases hClaim with ⟨path, hPath, rfl⟩
    rcases List.mem_flatMap.mp hPath with ⟨entry, hEntry, hRead⟩
    exact ⟨entry, hEntry, hRead, rfl⟩
  · intro hEntry
    rcases hEntry with ⟨entry, hEntry, hRead, hName⟩
    exact
      ⟨claimed.1, List.mem_flatMap.mpr ⟨entry, hEntry, hRead⟩,
        Prod.ext rfl hName.symm⟩

------------------------------------------------------------
-- Exclusive Ownership
------------------------------------------------------------

/- One path, and at least one of the two is not a directory. -/
def SharesFile (entry other : Entry) : Prop :=
  entry.path = other.path ∧
    ¬ (entry.isDirectory = true ∧ other.isDirectory = true)

/-
  Archives that do not each name the other share no path that
  one of them has as something else than a directory.
-/
def Exclusive (debs : List Archive) : Prop :=
  ∀ deb ∈ debs, ∀ other ∈ debs,
    deb.name.bytes ≠ other.name.bytes →
    ¬ MayShare deb other →
      ∀ entry ∈ deb.entries, ∀ shared ∈ other.entries,
        ¬ SharesFile entry shared

/-
  A shared path that the check does not see: the two are not
  read as one path.
-/
def Unseen (entry other : Entry) : Prop :=
  SharesFile entry other ∧
    ∀ path ∈ entry.readPaths, path ∉ other.readPaths

/-
  With plain owners it is a directory in one of the two
  archives, or a path without a first word.
-/
theorem unseen_iff_of_plain
    {entry other : Entry}
    (hPlain : entry.Plain)
    (hPlain' : other.Plain) :
    Unseen entry other ↔
      SharesFile entry other ∧
        (entry.isDirectory ≠ other.isDirectory ∨
          entry.ownedPath = []) := by
  rw [Unseen, readPaths_of_plain hPlain,
    readPaths_of_plain hPlain']
  refine and_congr_right fun hShares => ?_
  have hPath : other.ownedPath = entry.ownedPath := by
    rw [Entry.ownedPath, Entry.ownedPath, hShares.1]
  have hNotBoth := hShares.2
  rw [hPath]
  by_cases hNil : entry.ownedPath = []
  · simp [hNil]
  · cases hMode : entry.isDirectory with
    | true =>
        cases hMode' : other.isDirectory with
        | true => exact absurd ⟨hMode, hMode'⟩ hNotBoth
        | false => simp
    | false =>
        cases hMode' : other.isDirectory with
        | true => simp
        | false => simp [hNil]

/- Archives that may not share have no such path in common. -/
def NoneUnseen (debs : List Archive) : Prop :=
  ∀ deb ∈ debs, ∀ other ∈ debs,
    deb.name.bytes ≠ other.name.bytes →
    ¬ MayShare deb other →
      ∀ entry ∈ deb.entries, ∀ shared ∈ other.entries,
        ¬ Unseen entry shared

/- A path that the check reads twice is claimed by one alone. -/
theorem mayShare_of_claimsShared
    {debs : List Archive}
    (hDistinct : Distinct debs)
    (hShared : ClaimsShared debs)
    {deb other : Archive}
    (hDeb : deb ∈ debs)
    (hOther : other ∈ debs)
    (hName : deb.name.bytes ≠ other.name.bytes)
    {entry shared : Entry}
    (hEntry : entry ∈ deb.entries)
    (hEntryShared : shared ∈ other.entries)
    {path : Bytes}
    (hRead : path ∈ entry.readPaths)
    (hReadShared : path ∈ shared.readPaths) :
    MayShare deb other := by
  have : Std.Symm (Owners.Shares (κ := Bytes)
      (mutuallyConflicting debs)) := by
    constructor
    intro one another hShares hKey
    have hBoth := hShares hKey.symm
    rw [mutuallyConflicting, Bool.and_comm] at hBoth
    exact hBoth
  have hMem {d : Archive} {e : Entry}
      (hD : d ∈ debs) (hE : e ∈ d.entries)
      (hR : path ∈ e.readPaths) :
      (path, d.name.bytes) ∈ debs.flatMap Archive.claims :=
    List.mem_flatMap.mpr ⟨d, hD, mem_claims.mpr ⟨e, hE, hR, rfl⟩⟩
  have hPair :=
    hShared.forall (hMem hDeb hEntry hRead)
      (hMem hOther hEntryShared hReadShared)
      (fun hEq => hName (Prod.mk.inj hEq).2) rfl
  rw [mutuallyConflicting_iff hDistinct hOther hDeb] at hPair
  exact hPair.symm

def dash : Word where
  bytes := [0x2d]
  ne_nil := List.cons_ne_nil _ _
  noBlank := List.forall_mem_singleton.mpr rfl

/- A text that is a word -/
def wordOf (text : String) : Word :=
  if hWord :
      ascii text ≠ [] ∧
        (ascii text).all (fun b => isBlank b = false) = true then
    { bytes := ascii text
      ne_nil := hWord.1
      noBlank := forall_mem_of_all hWord.2 }
  else dash

/- `srv/data`, with the letters of its mode -/
def dataEntry (mode : String) : Entry where
  mode := wordOf mode
  owner := ascii "root/root"
  padding := 9
  size := wordOf "0"
  date := wordOf "2026-09-20"
  time := wordOf "00:00"
  path := ascii "srv/data"
  target := none

/- An archive that has it and that conflicts with nothing -/
def dataArchive (name mode : String) : Archive where
  name := wordOf name
  provides := []
  conflicts := []
  entries := [dataEntry mode]

/- A directory in one archive, a file in the other -/
def dataPool : List Archive :=
  [ dataArchive "store" "drwxr-xr-x",
    dataArchive "stamp" "-rw-r--r--" ]

theorem distinct_dataPool : Distinct dataPool := by
  unfold Distinct
  decide +kernel

end Packages

end MicaBoards
