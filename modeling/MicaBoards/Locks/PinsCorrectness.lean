import MicaBoards.Locks.CanonicalOrder
import MicaBoards.Locks.PinGrammar
import MicaBoards.Locks.ReleaseLine

/-
  The rules of a locks directory, and the directories that the
  checker takes for valid.

  The checker cuts lines of pins at NUL bytes, reads file names
  by lines, takes a name that ends in a dot for one without,
  and leaves `upstream.lock` out of the locks but lets a pin
  name it.

  Main declarations:
    * `PinsRules`
    * `LooseRules`
    * `checkPins_eq_ok_iff`
    * `pinsCorrect_iff`
-/

------------------------------------------------------------
-- Names of Pins
------------------------------------------------------------

namespace MicaBoards

namespace Locks

open Text

variable {iconv : Iconv}

namespace Pin

variable (pin : Pin)

theorem dot_notMem_repository :
    dot ∉ pin.repository :=
  fun hMem =>
    (bytes_of_isRepository pin.repositoryForm dot hMem).1 rfl

theorem isRepository_of_scope
    {scope : Bytes}
    (hScope : pin.scope = some scope) :
    isRepository scope = true := by
  have hForm := pin.scopeForm
  rw [hScope] at hForm
  exact hForm

end Pin

/- The names that the checker takes for a pin's. -/
theorem looseName_iff
    {name : Bytes}
    {pin : Pin} :
    LooseName name pin ↔
      name = pin.name ∨
        (pin.scope = none ∧ name = pin.repository ++ [dot]) := by
  have hDot := pin.dot_notMem_repository
  have hBefore :
      ∀ behind, beforeFirst dot
        (pin.repository ++ dot :: behind) = pin.repository :=
    fun behind => beforeFirst_append hDot
  have hScope :
      ∀ behind, fileScope (pin.repository ++ dot :: behind) =
        behind := by
    intro behind
    unfold fileScope
    rw [hBefore, afterFirst_append hDot, if_neg (by simp)]
  constructor
  · intro hName
    by_cases hMem : dot ∈ name
    · have hCut := beforeFirst_append_afterFirst hMem
      rw [← hName.repository] at hCut
      have hFile := hName.scope
      rw [← hCut, hScope] at hFile
      cases hPin : pin.scope with
      | none =>
          right
          rw [hPin, Option.getD_none] at hFile
          rw [← hFile] at hCut
          exact ⟨rfl, hCut.symm⟩
      | some scope =>
          left
          rw [hPin, Option.getD_some] at hFile
          rw [← hFile] at hCut
          unfold Pin.name
          rw [hPin]
          exact hCut.symm
    · left
      have hPlain := beforeFirst_of_notMem hMem
      have hFile := hName.scope
      unfold fileScope at hFile
      rw [if_pos hPlain.symm] at hFile
      unfold Pin.name
      cases hPin : pin.scope with
      | none =>
          rw [hName.repository, hPlain]
          simp
      | some scope =>
          rw [hPin, Option.getD_some] at hFile
          exact absurd hFile (ne_nil_of_isRepository
            (pin.isRepository_of_scope hPin))
  · intro hName
    have hNone : fileScope pin.repository = [] := by
      unfold fileScope
      rw [if_pos (beforeFirst_of_notMem hDot).symm]
    rcases hName with rfl | ⟨hPin, rfl⟩
    · unfold Pin.name
      cases hPin : pin.scope with
      | none =>
          rw [Option.elim, List.append_nil]
          refine ⟨(beforeFirst_of_notMem hDot).symm, ?_⟩
          rw [hPin, hNone]
          rfl
      | some scope =>
          refine ⟨(hBefore scope).symm, ?_⟩
          rw [hPin]
          exact (hScope scope).symm
    · refine ⟨(hBefore []).symm, ?_⟩
      rw [hPin]
      exact (hScope []).symm

------------------------------------------------------------
-- Directories
------------------------------------------------------------

namespace Files

variable (files : Files)

theorem read_eq_some_iff
    {name text : Bytes} :
    files.read name = some text ↔
      (name, text) ∈ files.entries :=
  lookup_eq_some_iff_mem files.nodup

theorem mem_names_iff
    {name : Bytes} :
    name ∈ files.names ↔ ∃ text, files.read name = some text := by
  unfold names
  rw [List.mem_map]
  constructor
  · rintro ⟨⟨found, text⟩, hMem, rfl⟩
    exact ⟨text, files.read_eq_some_iff.mpr hMem⟩
  · rintro ⟨text, hRead⟩
    exact ⟨(name, text), files.read_eq_some_iff.mp hRead, rfl⟩

end Files

theorem isSuffixOf_iff
    {suffix name : Bytes} :
    suffix.isSuffixOf name = true ↔
      ∃ front, name = front ++ suffix := by
  rw [List.isSuffixOf_iff_suffix]
  constructor
  · rintro ⟨front, rfl⟩
    exact ⟨front, rfl⟩
  · rintro ⟨front, rfl⟩
    exact ⟨front, rfl⟩

theorem stripSuffix_append (suffix front : Bytes) :
    stripSuffix suffix (front ++ suffix) = front := by
  unfold stripSuffix
  rw [if_pos (isSuffixOf_iff.mpr ⟨front, rfl⟩),
    List.length_append, Nat.add_sub_cancel, List.take_left]

/- Names of one line are listed without their suffix. -/
theorem mem_listing_iff
    {suffix name : Bytes}
    {names : List Bytes}
    (hLf : ∀ name ∈ names, lf ∉ name)
    (hSuffix : ∀ name ∈ names,
      suffix.isSuffixOf name = true) :
    name ∈ listing suffix names ↔ name ++ suffix ∈ names := by
  unfold listing
  rw [textLines_lines hLf, List.mem_insertionSort, List.mem_map]
  constructor
  · rintro ⟨file, hFile, rfl⟩
    rcases isSuffixOf_iff.mp (hSuffix file hFile) with
      ⟨front, rfl⟩
    rw [stripSuffix_append]
    exact hFile
  · intro hMem
    exact ⟨name ++ suffix, hMem, stripSuffix_append _ _⟩

/- A name of one line is listed, whatever the others are. -/
theorem mem_listing_of_mem
    {suffix name : Bytes}
    {names : List Bytes}
    (hLf : lf ∉ name ++ suffix)
    (hMem : name ++ suffix ∈ names) :
    name ∈ listing suffix names := by
  have hLine :
      name ++ suffix ∈
        names.flatMap fun file => file.splitOn lf := by
    refine List.mem_flatMap.mpr ⟨_, hMem, ?_⟩
    rw [List.splitOn_eq_singleton hLf]
    exact List.mem_singleton_self _
  unfold listing
  rw [textLines_ended, List.mem_insertionSort, List.mem_map]
  exact ⟨name ++ suffix, hLine, stripSuffix_append _ _⟩

namespace LocksDir

variable (dir : LocksDir)

theorem mem_pinFiles_iff
    {name : Bytes} :
    name ++ pinSuffix ∈ dir.pinFiles ↔
      name ++ pinSuffix ∈ dir.pins.names := by
  unfold pinFiles
  rw [List.mem_filter]
  exact ⟨fun h => h.1,
    fun h => ⟨h, isSuffixOf_iff.mpr ⟨name, rfl⟩⟩⟩

theorem mem_lockFiles_iff
    {name : Bytes} :
    name ++ lockSuffix ∈ dir.lockFiles ↔
      name ++ lockSuffix ∈ dir.files.names ∧
        name ++ lockSuffix ≠ upstreamLock := by
  unfold lockFiles
  rw [List.mem_filter, Bool.and_eq_true, decide_eq_true_eq]
  exact ⟨fun h => ⟨h.1, h.2.2⟩,
    fun h => ⟨h.1, isSuffixOf_iff.mpr ⟨name, rfl⟩, h.2⟩⟩

/- No file name that counts has a line end. -/
structure PlainNames : Prop where
  pins : ∀ name ∈ dir.pinFiles, lf ∉ name
  locks : ∀ name ∈ dir.lockFiles, lf ∉ name

theorem mem_pinNames_iff
    (hPlain : dir.PlainNames)
    {name : Bytes} :
    name ∈ dir.pinNames ↔ name ++ pinSuffix ∈ dir.pins.names := by
  unfold pinNames
  rw [mem_listing_iff hPlain.pins, mem_pinFiles_iff]
  intro file hFile
  exact (List.mem_filter.mp hFile).2

theorem mem_lockNames_iff
    (hPlain : dir.PlainNames)
    {name : Bytes} :
    name ∈ dir.lockNames ↔
      name ++ lockSuffix ∈ dir.files.names ∧
        name ++ lockSuffix ≠ upstreamLock := by
  unfold lockNames
  rw [mem_listing_iff hPlain.locks, mem_lockFiles_iff]
  intro file hFile
  have hSuffix := (List.mem_filter.mp hFile).2
  rw [Bool.and_eq_true] at hSuffix
  exact hSuffix.1

end LocksDir

------------------------------------------------------------
-- Entries
------------------------------------------------------------

section Entries

variable {dir : LocksDir}
variable {name : Bytes}
variable {names : List Bytes}
variable {entry : Bytes × Pinned}
variable {entries : List (Bytes × Pinned)}

theorem checkPinFile_eq_ok_iff :
    checkPinFile iconv dir name = .ok entry ↔
      ∃ (text : Bytes) (pin : Pin),
        dir.pins.read (name ++ pinSuffix) = some text ∧
          LoosePinFile iconv text pin ∧ LooseName name pin ∧
          entry = (name, pin.pinned) := by
  unfold checkPinFile
  cases dir.pins.read (name ++ pinSuffix) with
  | none => simp
  | some text =>
      simp only
      rw [bind_eq_ok_iff]
      constructor
      · rintro ⟨pinned, hPin, hEntry⟩
        injection hEntry with hEntry
        rcases checkPin_eq_ok_iff.mp hPin with
          ⟨pin, hFile, hName, rfl⟩
        exact ⟨text, pin, rfl, hFile, hName, hEntry.symm⟩
      · rintro ⟨text', pin, hText, hFile, hName, rfl⟩
        injection hText with hText
        subst hText
        exact ⟨pin.pinned,
          checkPin_eq_ok_iff.mpr ⟨pin, hFile, hName, rfl⟩, rfl⟩

theorem exists_checkPinFiles_iff :
    (∃ entries, checkPinFiles iconv dir names = .ok entries) ↔
      ∀ name ∈ names, ∃ entry,
        checkPinFile iconv dir name = .ok entry := by
  induction names with
  | nil => simp [checkPinFiles]
  | cons name names ih =>
      rw [List.forall_mem_cons, ← ih]
      simp only [checkPinFiles, bind_eq_ok_iff]
      constructor
      · rintro ⟨_, entry, hEntry, entries, hEntries, _⟩
        exact ⟨⟨entry, hEntry⟩, entries, hEntries⟩
      · rintro ⟨⟨entry, hEntry⟩, entries, hEntries⟩
        exact ⟨_, entry, hEntry, entries, hEntries, rfl⟩

theorem mem_of_checkPinFiles
    (hEntries : checkPinFiles iconv dir names = .ok entries) :
    entry ∈ entries ↔
      ∃ name ∈ names,
        checkPinFile iconv dir name = .ok entry := by
  induction names generalizing entries with
  | nil =>
      injection hEntries with hEntries
      rw [← hEntries]
      simp
  | cons name names ih =>
      rw [checkPinFiles, bind_eq_ok_iff] at hEntries
      rcases hEntries with ⟨first, hFirst, hRest⟩
      rw [bind_eq_ok_iff] at hRest
      rcases hRest with ⟨rest, hRest, hEntries⟩
      injection hEntries with hEntries
      rw [← hEntries, List.mem_cons, ih hRest]
      constructor
      · rintro (rfl | ⟨other, hOther, hEntry⟩)
        · exact ⟨name, List.mem_cons_self, hFirst⟩
        · exact ⟨other, List.mem_cons_of_mem _ hOther, hEntry⟩
      · rintro ⟨other, hOther, hEntry⟩
        rcases List.mem_cons.mp hOther with rfl | hOther
        · rw [hFirst] at hEntry
          injection hEntry with hEntry
          exact Or.inl hEntry.symm
        · exact Or.inr ⟨other, hOther, hEntry⟩

theorem Pin.release_ne_nil (pin : Pin) :
    pin.release ≠ [] := by
  intro hNil
  have hForm := pin.releaseForm
  rw [hNil] at hForm
  exact absurd hForm (by decide)

/- A listed lock passes just when its name is a pin's. -/
theorem checkPinOf_eq_ok_iff
    (hEntries : checkPinFiles iconv dir names = .ok entries) :
    checkPinOf entries name = .ok () ↔ name ∈ names := by
  have hIn :
      ∀ pinned, (name, pinned) ∈ entries →
        name ∈ names ∧ pinned.release ≠ [] ∧ name ≠ [] := by
    intro pinned hMem
    rcases (mem_of_checkPinFiles hEntries).mp hMem with
      ⟨other, hOther, hFound⟩
    rcases checkPinFile_eq_ok_iff.mp hFound with
      ⟨_, pin, _, _, hLoose, hEntry⟩
    injection hEntry with hName hPinned
    rw [hName, hPinned]
    refine ⟨hOther, pin.release_ne_nil, ?_⟩
    rintro rfl
    exact ne_nil_of_isRepository pin.repositoryForm
      hLoose.repository
  unfold checkPinOf
  constructor
  · intro hCheck
    split_ifs at hCheck with hNil
    rw [require_eq_ok_iff] at hCheck
    cases hLookup : entries.lookup name with
    | none =>
        rw [hLookup] at hCheck
        exact absurd hCheck Bool.false_ne_true
    | some pinned => exact (hIn pinned (mem_of_lookup hLookup)).1
  · intro hMem
    rcases exists_checkPinFiles_iff.mp ⟨entries, hEntries⟩ name
        hMem with ⟨entry, hEntry⟩
    have hEntryIn :=
      (mem_of_checkPinFiles hEntries).mpr ⟨name, hMem, hEntry⟩
    rcases checkPinFile_eq_ok_iff.mp hEntry with
      ⟨_, pin, _, _, _, rfl⟩
    cases hLookup : entries.lookup name with
    | none =>
        have hNone := List.lookup_eq_none_iff.mp hLookup
          (name, pin.pinned) hEntryIn
        exact absurd hNone (by simp)
    | some pinned =>
        rcases hIn pinned (mem_of_lookup hLookup) with
          ⟨_, hRelease, hNil⟩
        rw [if_neg hNil, require_eq_ok_iff, Option.any_some,
          decide_eq_true_eq]
        exact hRelease

end Entries

------------------------------------------------------------
-- Locks of Pins
------------------------------------------------------------

/- A valid lock whose release row names the release of a pin. -/
structure LockOf
    (iconv : Iconv)
    (expand : Bytes → List Bytes)
    (lock : Bytes)
    (pin : Pin) : Prop where
  valid : checkLock iconv expand lock = .ok ()
  release : ∃ (first : Row) (rest : List Row),
    readRows iconv lock = .ok (first :: rest) ∧
      Release.ofRow first =
        ⟨pin.repository, pin.scope.getD [], pin.release⟩

theorem Pin.checkout_pinned (pin : Pin) :
    pin.pinned.checkout = [] ↔ pin.checkout = none := by
  have hForm := pin.checkoutForm
  unfold Pin.pinned
  cases hCheckout : pin.checkout with
  | none => simp
  | some checkout =>
      rw [hCheckout] at hForm
      have hNonempty : checkout ≠ [] := by
        rintro rfl
        exact absurd hForm (by decide)
      simp [hNonempty]

theorem isOk_eq_true_iff
    {check : Check Unit} :
    check.isOk = true ↔ check = .ok () := by
  cases check with
  | error failure => simp [Except.isOk, Except.toBool]
  | ok value => simp [Except.isOk, Except.toBool]

theorem checkLockOf_eq_ok_iff
    {grep : Grep}
    {expand : Bytes → List Bytes}
    {mode : PinsMode}
    {dir : LocksDir}
    {name lock : Bytes}
    {pin : Pin}
    (hRead : dir.files.read (name ++ lockSuffix) = some lock) :
    checkLockOf iconv grep expand mode dir (name, pin.pinned) =
        .ok () ↔
      LockOf iconv expand lock pin ∧ grep.binary lock = false ∧
        (mode = .ci → pin.checkout = none) := by
  unfold checkLockOf
  simp only [hRead, Option.getD_some]
  rw [require_bind_eq_ok_iff, require_bind_eq_ok_iff,
    require_bind_eq_ok_iff, require_bind_eq_ok_iff,
    require_eq_ok_iff, isOk_eq_true_iff]
  have hMode :
      (decide (pin.pinned.checkout = []) ||
          decide (mode ≠ .ci)) = true ↔
        (mode = .ci → pin.checkout = none) := by
    rw [Bool.or_eq_true, decide_eq_true_eq, decide_eq_true_eq,
      pin.checkout_pinned]
    tauto
  rw [hMode]
  simp only [decide_eq_true_eq]
  constructor
  · rintro ⟨hValid, hRepository, hScope, hRelease, hCi⟩
    rcases checkLockWith_eq_ok_iff.mp hValid with
      ⟨first, rest, hRows, hAccepted⟩
    cases hBinary : grep.binary lock with
    | true =>
        rw [readRelease_binary hBinary] at hRepository
        exact absurd hRepository.symm
          (ne_nil_of_isRepository pin.repositoryForm)
    | false =>
        have hLine :=
          readRelease_releaseLine hRows hAccepted hBinary
        rw [hLine] at hRepository hScope hRelease
        have hOf :
            Release.ofRow first =
              ⟨pin.pinned.repository, pin.pinned.scope,
                pin.pinned.release⟩ := by
          rw [← hRepository, ← hScope, ← hRelease]
        exact ⟨⟨hValid, first, rest, hRows, hOf⟩, rfl, hCi⟩
  · rintro ⟨⟨hValid, first, rest, hRows, hOf⟩, hBinary, hCi⟩
    rcases checkLockWith_eq_ok_iff.mp hValid with
      ⟨first', rest', hRows', hAccepted⟩
    rw [hRows] at hRows'
    injection hRows' with hRows'
    injection hRows' with hFirst hRest
    subst hFirst hRest
    rw [readRelease_releaseLine hRows hAccepted hBinary, hOf]
    exact ⟨hValid, rfl, rfl, rfl, hCi⟩

------------------------------------------------------------
-- Rules
------------------------------------------------------------

/- UTF-8, LF with a final LF, and no CR. -/
structure LfText (text : Bytes) : Prop where
  utf8 : isUtf8 text = true
  final : text.getLast? = some lf
  noReturn : cr ∉ text

theorem checkText_eq_ok_iff
    {text : Bytes}
    (hUtf8 : isUtf8 text = true) :
    checkText iconv text = .ok () ↔ LfText text := by
  unfold checkText
  rw [iconv.utf8 text hUtf8, require_bind_eq_ok_iff,
    require_bind_eq_ok_iff, require_eq_ok_iff,
    decide_eq_true_eq, decide_eq_true_eq]
  constructor
  · rintro ⟨_, hFinal, hReturn⟩
    exact ⟨hUtf8, hFinal, hReturn⟩
  · intro hText
    exact ⟨rfl, hText.final, hText.noReturn⟩

/- A text that is this pin, byte for byte. -/
structure PinFile (text : Bytes) (pin : Pin) : Prop where
  isText : LfText text
  noNul : 0 ∉ text
  lines : textLines text = pin.lines

/- The rules of a locks directory. -/
structure PinsRules
    (iconv : Iconv)
    (expand : Bytes → List Bytes)
    (mode : PinsMode)
    (dir : LocksDir) : Prop where
  pins : ∀ file ∈ dir.pinFiles, ∃ (text : Bytes) (pin : Pin),
    dir.pins.read file = some text ∧ PinFile text pin ∧
      file = pin.name ++ pinSuffix
  bijection : ∀ name : Bytes,
    name ++ pinSuffix ∈ dir.pins.names ↔
      name ++ lockSuffix ∈ dir.files.names ∧
        name ++ lockSuffix ≠ upstreamLock
  locks : ∀ (pin : Pin) (text lock : Bytes),
    dir.pins.read (pin.name ++ pinSuffix) = some text →
      PinFile text pin →
        dir.files.read (pin.name ++ lockSuffix) = some lock →
          LockOf iconv expand lock pin
  checkouts : mode = .ci → ∀ (pin : Pin) (text : Bytes),
    dir.pins.read (pin.name ++ pinSuffix) = some text →
      PinFile text pin → pin.checkout = none

/- A listed name, read as the checker reads it. -/
structure LooseEntry
    (iconv : Iconv)
    (expand : Bytes → List Bytes)
    (mode : PinsMode)
    (dir : LocksDir)
    (name : Bytes)
    (text lock : Bytes)
    (pin : Pin) : Prop where
  pinRead : dir.pins.read (name ++ pinSuffix) = some text
  lockRead : dir.files.read (name ++ lockSuffix) = some lock
  file : LoosePinFile iconv text pin
  name : LooseName name pin
  lock : LockOf iconv expand lock pin
  checkout : mode = .ci → pin.checkout = none

/- The rules, read as the checker reads them. -/
structure LooseRules
    (iconv : Iconv)
    (expand : Bytes → List Bytes)
    (mode : PinsMode)
    (dir : LocksDir) : Prop where
  pins : ∀ name ∈ dir.pinNames,
    ∃ (text lock : Bytes) (pin : Pin),
      LooseEntry iconv expand mode dir name text lock pin
  locks : ∀ name ∈ dir.lockNames, name ∈ dir.pinNames

/- The locks of the pins are text to `grep`. -/
def TextLocks (grep : Grep) (dir : LocksDir) : Prop :=
  ∀ name ∈ dir.pinNames, ∀ lock,
    dir.files.read (name ++ lockSuffix) = some lock →
      grep.binary lock = false

/- What is valid for the checker. -/
theorem checkPins_eq_ok_iff
    {grep : Grep}
    {expand : Bytes → List Bytes}
    {mode : PinsMode}
    {dir : LocksDir} :
    checkPins iconv grep expand mode dir = .ok () ↔
      LooseRules iconv expand mode dir ∧ TextLocks grep dir := by
  unfold checkPins
  rw [bind_eq_ok_iff]
  simp only [unit_bind_eq_ok_iff, forM_eq_ok_iff,
    require_eq_ok_iff]
  constructor
  · rintro ⟨entries, hEntries, hLocks, hPins, hReleases⟩
    have hEntry :
        ∀ name ∈ dir.pinNames,
          ∃ (text lock : Bytes) (pin : Pin),
            LooseEntry iconv expand mode dir name text lock pin ∧
              grep.binary lock = false := by
      intro name hName
      rcases exists_checkPinFiles_iff.mp ⟨entries, hEntries⟩
          name hName with ⟨entry, hEntry⟩
      have hIn :=
        (mem_of_checkPinFiles hEntries).mpr ⟨name, hName, hEntry⟩
      rcases checkPinFile_eq_ok_iff.mp hEntry with
        ⟨text, pin, hText, hFile, hLoose, rfl⟩
      rcases Option.isSome_iff_exists.mp (hLocks _ hIn) with
        ⟨lock, hLock⟩
      rcases (checkLockOf_eq_ok_iff hLock).mp
          (hReleases _ hIn) with ⟨hOf, hBinary, hCheckout⟩
      exact ⟨text, lock, pin,
        ⟨hText, hLock, hFile, hLoose, hOf, hCheckout⟩, hBinary⟩
    refine ⟨⟨?_, ?_⟩, ?_⟩
    · intro name hName
      rcases hEntry name hName with ⟨text, lock, pin, hLoose, _⟩
      exact ⟨text, lock, pin, hLoose⟩
    · intro name hName
      exact (checkPinOf_eq_ok_iff hEntries).mp (hPins name hName)
    · intro name hName lock hLock
      rcases hEntry name hName with
        ⟨_, lock', _, hLoose, hBinary⟩
      have hSame := hLoose.lockRead
      rw [hLock] at hSame
      injection hSame with hSame
      rw [hSame]
      exact hBinary
  · rintro ⟨hRules, hText⟩
    have hAll :
        ∀ name ∈ dir.pinNames, ∃ entry,
          checkPinFile iconv dir name = .ok entry := by
      intro name hName
      rcases hRules.pins name hName with ⟨text, _, pin, hLoose⟩
      exact ⟨_, checkPinFile_eq_ok_iff.mpr
        ⟨text, pin, hLoose.pinRead, hLoose.file, hLoose.name,
          rfl⟩⟩
    rcases exists_checkPinFiles_iff.mpr hAll with
      ⟨entries, hEntries⟩
    have hEach :
        ∀ entry ∈ entries,
          ∃ (text lock : Bytes) (pin : Pin),
            LooseEntry iconv expand mode dir entry.1 text lock pin ∧
              entry.2 = pin.pinned ∧
              grep.binary lock = false := by
      intro entry hIn
      rcases (mem_of_checkPinFiles hEntries).mp hIn with
        ⟨name, hName, hEntry⟩
      rcases hRules.pins name hName with
        ⟨text, lock, pin, hLoose⟩
      have hSame := checkPinFile_eq_ok_iff.mpr
        ⟨text, pin, hLoose.pinRead, hLoose.file, hLoose.name,
          rfl⟩
      rw [hEntry] at hSame
      injection hSame with hSame
      subst hSame
      exact ⟨text, lock, pin, hLoose, rfl,
        hText name hName lock hLoose.lockRead⟩
    refine ⟨entries, hEntries, ?_, ?_, ?_⟩
    · intro entry hIn
      rcases hEach entry hIn with ⟨_, _, _, hLoose, _⟩
      rw [hLoose.lockRead]
      rfl
    · intro name hName
      exact (checkPinOf_eq_ok_iff hEntries).mpr
        (hRules.locks name hName)
    · rintro ⟨name, pinned⟩ hIn
      rcases hEach (name, pinned) hIn with
        ⟨_, _, pin, hLoose, hPinned, hBinary⟩
      have hPinned' : pinned = pin.pinned := hPinned
      rw [hPinned', checkLockOf_eq_ok_iff hLoose.lockRead]
      exact ⟨hLoose.lock, hBinary, hLoose.checkout⟩

------------------------------------------------------------
-- Plain Directories
------------------------------------------------------------

/-
  What the checker does not see: NUL bytes in pins and what
  `iconv` takes beyond UTF-8, line ends in file names, a dot at
  the end of a pin's name, and that a pin names
  `upstream.lock`.
-/
structure PlainDir (dir : LocksDir) : Prop where
  names : dir.PlainNames
  utf8NoNul : ∀ file ∈ dir.pinFiles, ∀ text,
    dir.pins.read file = some text →
      isUtf8 text = true ∧ 0 ∉ text
  noDot : ∀ name : Bytes,
    (name ++ [dot]) ++ pinSuffix ∉ dir.pins.names
  noUpstream : ascii "upstream" ++ pinSuffix ∉ dir.pins.names

namespace Pin

variable (pin : Pin)

/- Neither a line end nor a dot at the end. -/
theorem name_form :
    lf ∉ pin.name ∧ pin.name.getLast? ≠ some dot := by
  have hRepository :=
    bytes_of_isRepository pin.repositoryForm
  unfold name
  cases hScope : pin.scope with
  | none =>
      rw [Option.elim, List.append_nil]
      exact ⟨fun hMem => (hRepository lf hMem).2.1 rfl,
        fun hLast => (hRepository dot
          (List.mem_of_getLast? hLast)).1 rfl⟩
  | some scope =>
      have hForm := pin.isRepository_of_scope hScope
      have hBytes := bytes_of_isRepository hForm
      rw [Option.elim]
      constructor
      · intro hMem
        rcases List.mem_append.mp hMem with hMem | hMem
        · exact (hRepository lf hMem).2.1 rfl
        · rcases List.mem_cons.mp hMem with hEq | hMem
          · exact absurd hEq (by decide)
          · exact (hBytes lf hMem).2.1 rfl
      · intro hLast
        rw [List.getLast?_append_of_ne_nil _
          (List.cons_ne_nil _ _)] at hLast
        cases scope with
        | nil => exact ne_nil_of_isRepository hForm rfl
        | cons b scope =>
            rw [List.getLast?_cons_cons] at hLast
            exact (hBytes dot (List.mem_of_getLast? hLast)).1 rfl

end Pin

theorem loosePinFile_iff
    {text : Bytes}
    {pin : Pin}
    (hUtf8 : isUtf8 text = true)
    (hNul : 0 ∉ text) :
    LoosePinFile iconv text pin ↔ PinFile text pin := by
  have hLines := mapfile_eq_textLines hNul
  have hText := @checkText_eq_ok_iff iconv text hUtf8
  constructor
  · intro hFile
    exact ⟨hText.mp hFile.isText, hNul,
      by rw [← hLines, hFile.lines]⟩
  · intro hFile
    exact ⟨hText.mpr hFile.isText,
      by rw [hLines, hFile.lines]⟩

theorem mem_pinFiles_of_mem
    {dir : LocksDir}
    {name : Bytes}
    (hMem : name ++ pinSuffix ∈ dir.pins.names) :
    name ++ pinSuffix ∈ dir.pinFiles :=
  dir.mem_pinFiles_iff.mpr hMem

/- A directory that keeps the rules hides nothing. -/
theorem PinsRules.plainDir
    {expand : Bytes → List Bytes}
    {mode : PinsMode}
    {dir : LocksDir}
    (hRules : PinsRules iconv expand mode dir) :
    PlainDir dir := by
  have hPins : ∀ file ∈ dir.pinFiles, lf ∉ file := by
    intro file hFile hMem
    rcases hRules.pins file hFile with ⟨_, pin, _, _, rfl⟩
    rcases List.mem_append.mp hMem with hMem | hMem
    · exact pin.name_form.1 hMem
    · exact absurd hMem (by decide)
  refine ⟨⟨hPins, ?_⟩, ?_, ?_, ?_⟩
  · intro file hFile hMem
    unfold LocksDir.lockFiles at hFile
    rw [List.mem_filter, Bool.and_eq_true, decide_eq_true_eq]
      at hFile
    rcases isSuffixOf_iff.mp hFile.2.1 with ⟨name, rfl⟩
    have hPin :=
      (hRules.bijection name).mpr ⟨hFile.1, hFile.2.2⟩
    have hNone := hPins _ (mem_pinFiles_of_mem hPin)
    rcases List.mem_append.mp hMem with hMem | hMem
    · exact hNone (List.mem_append_left _ hMem)
    · exact absurd hMem (by decide)
  · intro file hFile text hText
    rcases hRules.pins file hFile with
      ⟨text', _, hText', hPin, _⟩
    rw [hText] at hText'
    injection hText' with hSame
    rw [hSame]
    exact ⟨hPin.isText.utf8, hPin.noNul⟩
  · intro name hMem
    rcases hRules.pins _ (mem_pinFiles_of_mem hMem) with
      ⟨_, pin, _, _, hName⟩
    have hPin := List.append_cancel_right hName
    apply pin.name_form.2
    rw [← hPin]
    simp
  · intro hMem
    exact ((hRules.bijection _).mp hMem).2 (by decide)

/- A pin file of a plain directory holds the pin of its name. -/
theorem LooseRules.exists_entry
    {expand : Bytes → List Bytes}
    {mode : PinsMode}
    {dir : LocksDir}
    (hLoose : LooseRules iconv expand mode dir)
    (hPlain : PlainDir dir)
    {name : Bytes}
    (hName : name ++ pinSuffix ∈ dir.pins.names) :
    ∃ (text lock : Bytes) (pin : Pin),
      LooseEntry iconv expand mode dir name text lock pin ∧
        PinFile text pin ∧ name = pin.name := by
  have hListed := (dir.mem_pinNames_iff hPlain.names).mpr hName
  rcases hLoose.pins name hListed with
    ⟨text, lock, pin, hEntry⟩
  have hBoth := hPlain.utf8NoNul _ (mem_pinFiles_of_mem hName)
    text hEntry.pinRead
  refine ⟨text, lock, pin, hEntry,
    (loosePinFile_iff hBoth.1 hBoth.2).mp hEntry.file, ?_⟩
  rcases looseName_iff.mp hEntry.name with hPin | ⟨_, hPin⟩
  · exact hPin
  · rw [hPin] at hName
    exact absurd hName (hPlain.noDot _)

/- The pin of a file is the one that is read from it. -/
theorem LooseRules.entry_of_pinFile
    {expand : Bytes → List Bytes}
    {mode : PinsMode}
    {dir : LocksDir}
    (hLoose : LooseRules iconv expand mode dir)
    (hPlain : PlainDir dir)
    {pin : Pin}
    {text : Bytes}
    (hText : dir.pins.read (pin.name ++ pinSuffix) = some text)
    (hFile : PinFile text pin) :
    ∃ lock, LooseEntry iconv expand mode dir pin.name text lock
      pin := by
  have hName : pin.name ++ pinSuffix ∈ dir.pins.names :=
    dir.pins.mem_names_iff.mpr ⟨text, hText⟩
  rcases hLoose.exists_entry hPlain hName with
    ⟨text', lock, pin', hEntry, hFile', _⟩
  have hRead := hEntry.pinRead
  rw [hText] at hRead
  injection hRead with hRead
  subst hRead
  have hPin : pin = pin' := by
    apply Pin.lines_injective
    rw [← hFile.lines, hFile'.lines]
  subst hPin
  exact ⟨lock, hEntry⟩

theorem upstreamLock_eq :
    upstreamLock = ascii "upstream" ++ lockSuffix := by
  decide

/- The rules are the loose ones, for directories in plain. -/
theorem pinsRules_iff
    {expand : Bytes → List Bytes}
    {mode : PinsMode}
    {dir : LocksDir} :
    PinsRules iconv expand mode dir ↔
      LooseRules iconv expand mode dir ∧ PlainDir dir := by
  constructor
  · intro hRules
    have hPlain := hRules.plainDir
    refine ⟨⟨?_, ?_⟩, hPlain⟩
    · intro name hName
      rw [dir.mem_pinNames_iff hPlain.names] at hName
      rcases hRules.pins _ (mem_pinFiles_of_mem hName) with
        ⟨text, pin, hText, hFile, hSame⟩
      have hPin := List.append_cancel_right hSame
      rcases dir.files.mem_names_iff.mp
          ((hRules.bijection name).mp hName).1 with
        ⟨lock, hLock⟩
      subst hPin
      exact ⟨text, lock, pin, {
        pinRead := hText
        lockRead := hLock
        file :=
          (loosePinFile_iff hFile.isText.utf8
            hFile.noNul).mpr hFile
        name := looseName_iff.mpr (Or.inl rfl)
        lock := hRules.locks pin text lock hText hFile hLock
        checkout := fun hCi =>
          hRules.checkouts hCi pin text hText hFile }⟩
    · intro name hName
      rw [dir.mem_lockNames_iff hPlain.names] at hName
      rw [dir.mem_pinNames_iff hPlain.names]
      exact (hRules.bijection name).mpr hName
  · rintro ⟨hLoose, hPlain⟩
    refine ⟨?_, ?_, ?_, ?_⟩
    · intro file hFile
      rcases List.mem_filter.mp hFile with ⟨hMem, hSuffix⟩
      rcases isSuffixOf_iff.mp hSuffix with ⟨name, rfl⟩
      rcases hLoose.exists_entry hPlain hMem with
        ⟨text, _, pin, hLooseEntry, hPin, rfl⟩
      exact ⟨text, pin, hLooseEntry.pinRead, hPin, rfl⟩
    · intro name
      constructor
      · intro hName
        rcases hLoose.exists_entry hPlain hName with
          ⟨_, lock, _, hLooseEntry, _⟩
        refine ⟨dir.files.mem_names_iff.mpr
          ⟨lock, hLooseEntry.lockRead⟩, ?_⟩
        intro hUpstream
        rw [upstreamLock_eq] at hUpstream
        rw [List.append_cancel_right hUpstream] at hName
        exact hPlain.noUpstream hName
      · intro hName
        have hListed := hLoose.locks name
          ((dir.mem_lockNames_iff hPlain.names).mpr hName)
        exact (dir.mem_pinNames_iff hPlain.names).mp hListed
    · intro pin text lock hText hFile hLock
      rcases hLoose.entry_of_pinFile hPlain hText hFile with
        ⟨lock', hLooseEntry⟩
      have hRead := hLooseEntry.lockRead
      rw [hLock] at hRead
      injection hRead with hRead
      rw [hRead]
      exact hLooseEntry.lock
    · intro hCi pin text hText hFile
      rcases hLoose.entry_of_pinFile hPlain hText hFile with
        ⟨_, hLooseEntry⟩
      exact hLooseEntry.checkout hCi

------------------------------------------------------------
-- Correctness
------------------------------------------------------------

/- The checker answers valid just by the rules. -/
def PinsCorrect
    (iconv : Iconv)
    (grep : Grep)
    (expand : Bytes → List Bytes)
    (mode : PinsMode)
    (dir : LocksDir) : Prop :=
  checkPins iconv grep expand mode dir = .ok () ↔
    PinsRules iconv expand mode dir

/-
  It does, just for directories that break the loose rules, or
  that hide nothing from it while `grep` reads their locks, or
  that hide something while it does not.
-/
theorem pinsCorrect_iff
    (iconv : Iconv)
    (grep : Grep)
    (expand : Bytes → List Bytes)
    (mode : PinsMode)
    (dir : LocksDir) :
    PinsCorrect iconv grep expand mode dir ↔
      (LooseRules iconv expand mode dir →
        (PlainDir dir ↔ TextLocks grep dir)) := by
  unfold PinsCorrect
  rw [checkPins_eq_ok_iff, pinsRules_iff]
  tauto

/- A pin and a lock whose names end in a dot. -/
def dottedPin : Pin where
  repository := ascii "mica"
  scope := none
  release := ascii "20260101-0000"
  sums := List.replicate 64 0x30
  checkout := none
  repositoryForm := by decide
  scopeForm := rfl
  scopedForm := by decide
  releaseForm := Or.inr (by decide)
  sumsForm := by decide
  checkoutOffline := by decide
  checkoutForm := rfl

def dottedText : Bytes :=
  unlines dottedPin.lines

/- A lock with nothing but its release row. -/
def bareLock (repository release : String) : Bytes :=
  unlines [ascii "# mica-lock v1",
    ascii "release" ++ tab :: (ascii repository ++
      tab :: (ascii release ++ tab :: List.replicate 40 0x30))]

def dottedLock : Bytes :=
  bareLock "mica" "20260101-0000"

def dottedDir : LocksDir where
  files := ⟨[(ascii "mica..lock", dottedLock)], by simp⟩
  pins := ⟨[(ascii "mica..pin", dottedText)], by simp⟩

/- Here, `grep` takes each file with a NUL byte for binary. -/
def strictGrep : Grep where
  binary file := decide (0 ∈ file)
  text := by
    intro file hNul
    exact decide_eq_false hNul

theorem not_pinsCorrect_dottedDir :
    ¬ PinsCorrect strictIconv strictGrep (fun word => [word])
      .ci dottedDir := by
  intro hCorrect
  have hText : checkText strictIconv dottedText = .ok () :=
    checkText_of_all (by decide +kernel)
  have hLock : checkText strictIconv dottedLock = .ok () :=
    checkText_of_all (by decide +kernel)
  have hLockOf :
      LockOf strictIconv (fun word => [word]) dottedLock
        dottedPin := by
    constructor
    · unfold checkLock checkLockWith readRows
      rw [hLock]
      decide +kernel
    · refine ⟨[ascii "release", ascii "mica",
        ascii "20260101-0000", List.replicate 40 0x30], [], ?_,
        ?_⟩
      · unfold readRows
        rw [hLock]
        decide +kernel
      · decide +kernel
  have hNames : dottedDir.pinNames = [ascii "mica."] := by
    decide +kernel
  have hLoose :
      LooseRules strictIconv (fun word => [word]) .ci
        dottedDir := by
    constructor
    · intro name hName
      rw [hNames, List.mem_singleton] at hName
      rw [hName]
      exact ⟨dottedText, dottedLock, dottedPin, {
        pinRead := by decide +kernel
        lockRead := by decide +kernel
        file := ⟨hText, by decide +kernel⟩
        name := ⟨by decide +kernel, by decide +kernel⟩
        lock := hLockOf
        checkout := fun _ => rfl }⟩
    · decide +kernel
  have hTextLocks : TextLocks strictGrep dottedDir := by
    intro name hName lock hRead
    rw [hNames, List.mem_singleton] at hName
    have hFile :
        dottedDir.files.read (ascii "mica." ++ lockSuffix) =
          some dottedLock := by
      decide +kernel
    rw [hName, hFile] at hRead
    rw [← Option.some.inj hRead]
    decide +kernel
  have hRules :=
    hCorrect.mp (checkPins_eq_ok_iff.mpr ⟨hLoose, hTextLocks⟩)
  exact hRules.plainDir.noDot (ascii "mica") (by decide +kernel)

end Locks

end MicaBoards
