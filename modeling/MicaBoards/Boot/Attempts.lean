import MicaBoards.Foundations.Crc32
import MicaBoards.Boot.RunSteps

/-
  A deployment is launched at most as often as its tries
  allow, and never without a durable decrement, over runs of
  `mica_file_boot` in a row that are cut anywhere.

  Main declarations:
    * `cutSteps_kept`
    * `launches_bootRuns_le`
    * `AttemptsCorrect`
    * `attemptsCorrect_of_zeroTail`
-/

------------------------------------------------------------
-- One Cut Run
------------------------------------------------------------

namespace MicaBoards

namespace Boot

section Checksum

variable {crc32 : List UInt8 → UInt32}

variable {loader : Loader}

variable {disk : Disk}

variable {slot : Fin 2}

variable {records : MicaBootRecords}

/- The steps of a run that is cut are kept. -/
theorem cutSteps_kept
    (hState :
      EnvironmentState crc32 loader.toBoard disk slot records)
    {run : CutRun}
    (hReadable : ∀ t, run.1.readable t = true) :
    Trace.Holds (StepKept crc32 loader.toBoard records) []
      (cutSteps crc32 loader disk run) :=
  (micaFileBoot_steps hState hReadable).take run.2

/- A run that is cut launches a record at most once. -/
theorem launches_cutSteps_le
    (id : CString 64)
    (run : CutRun) :
    launches id (cutSteps crc32 loader disk run) ≤ 1 :=
  le_trans
    ((List.take_sublist _ _).countP_le)
    (launches_micaFileBoot_le crc32 loader run.1 id disk)

/- A step among some that launches. -/
theorem exists_launched_of_launches
    {id : CString 64}
    {steps : BootSteps}
    (hLaunches : 0 < launches id steps) :
    ∃ before record disk after,
      steps =
          before ++ (BootEvent.launched record, disk) :: after ∧
        record.id = id := by
  rcases List.countP_pos_iff.mp hLaunches with
    ⟨⟨event, disk⟩, hMem, hEvent⟩
  rcases List.append_of_mem hMem with ⟨before, after, hSteps⟩
  cases event with
  | launched record =>
      exact
        ⟨before, record, disk, after, hSteps,
          by simpa [BootEvent.launches] using hEvent⟩
  | _ => simp [BootEvent.launches] at hEvent

/-
  A run that is cut leaves the records it has read but for
  their tries, and pays for a launch with a try.
-/
theorem stepsDisk_cutSteps
    (hState :
      EnvironmentState crc32 loader.toBoard disk slot records)
    {run : CutRun}
    (hReadable : ∀ t, run.1.readable t = true) :
    ∃ slot' current,
      EnvironmentState crc32 loader.toBoard
        (stepsDisk disk (cutSteps crc32 loader disk run))
        slot' current ∧
      SameRecords records current ∧
      ∀ (i : Nat) (before after : MicaBootRecord),
        records[i]? = some before →
        current[i]? = some after →
        0 ≤ before.tries →
        0 ≤ after.tries ∧
          launches before.id
              (cutSteps crc32 loader disk run) +
            after.tries ≤ before.tries := by
  have hKept := cutSteps_kept hState hReadable
  rcases stepsDisk_kept hState hKept with
    ⟨⟨slot', current, hCurrent, hChanged⟩, hLater⟩
  refine
    ⟨slot', current, hCurrent, hChanged.sameRecords, ?_⟩
  intro i before after hBefore hAfter hTries
  rcases hChanged.tries_le hBefore hAfter hTries with
    ⟨hLow, hHigh⟩
  refine ⟨hLow, ?_⟩
  have hOne :=
    @launches_cutSteps_le crc32 loader disk before.id run
  rcases Nat.eq_zero_or_pos
      (launches before.id (cutSteps crc32 loader disk run)) with
    hNone | hSome
  · omega
  · -- the one launch has left the decrement on the disk
    rcases exists_launched_of_launches hSome with
      ⟨past, record, disk', rest, hSteps, hId⟩
    have hStep := Trace.holds_iff.mp hKept past _ rest hSteps
    have hLaunched := hStep.launched record rfl
    have hNe := hLaunched.tries i before hBefore hId.symm
    have hPos : 0 < before.tries := by omega
    have hMem :
        (BootEvent.launched record, disk') ∈
          cutSteps crc32 loader disk run := by
      simp [hSteps]
    rcases hLaunched.first with ⟨next, selected, hFirst, hSame⟩
    have hIndex :=
      hState.canonical.index_eq_of_id hBefore hFirst.entry
        (hId.symm.trans hSame.symm)
    subst hIndex
    have hSelected :=
      Option.some.inj (hFirst.entry.symm.trans hBefore)
    subst hSelected
    rcases hLater record disk' i selected hMem hFirst hPos with
      ⟨_, hDecrement⟩
    have hRecords := hDecrement.records_unique hCurrent
    rw [← hRecords, List.getElem?_set_self
      (List.getElem?_eq_some_iff.mp hBefore).1] at hAfter
    cases hAfter
    simp only [MicaBootRecord.withTries]
    omega

------------------------------------------------------------
-- Runs In A Row
------------------------------------------------------------

/- The disk between runs holds the records but for tries. -/
theorem runsDisk_state
    (hState :
      EnvironmentState crc32 loader.toBoard disk slot records)
    {runs : List CutRun}
    (hReadable : ∀ run ∈ runs, ∀ t, run.1.readable t = true) :
    ∃ slot' current,
      EnvironmentState crc32 loader.toBoard
        (runsDisk crc32 loader disk runs) slot' current ∧
      SameRecords records current := by
  induction runs generalizing disk slot records with
  | nil => exact ⟨slot, records, hState, rfl⟩
  | cons run runs ih =>
      rcases stepsDisk_cutSteps hState
          (hReadable run (by simp)) with
        ⟨middle, between, hBetween, hSame, _⟩
      rcases ih hBetween
          (fun run hRun => hReadable run (by simp [hRun])) with
        ⟨slot', current, hCurrent, hRest⟩
      exact ⟨slot', current, hCurrent, hSame.trans hRest⟩

/- A record is launched at most as often as it has tries. -/
theorem launches_bootRuns_le
    (hState :
      EnvironmentState crc32 loader.toBoard disk slot records)
    {runs : List CutRun}
    (hReadable : ∀ run ∈ runs, ∀ t, run.1.readable t = true)
    {i : Nat}
    {record : MicaBootRecord}
    (hRecord : records[i]? = some record)
    (hTries : 0 ≤ record.tries) :
    (launches record.id (bootRuns crc32 loader disk runs) :
        Int) ≤
      record.tries := by
  induction runs generalizing disk slot records record with
  | nil => simpa [bootRuns] using hTries
  | cons run runs ih =>
      rcases stepsDisk_cutSteps hState
          (hReadable run (by simp)) with
        ⟨middle, between, hBetween, hSame, hPaid⟩
      rcases hSame.withTries_eq hRecord with ⟨tries, hAfter⟩
      rcases hPaid i record _ hRecord hAfter hTries with
        ⟨hLow, hHigh⟩
      have hRest :=
        ih hBetween
          (fun run hRun => hReadable run (by simp [hRun]))
          hAfter hLow
      simp only [bootRuns, launches_append, Nat.cast_add]
      simp only [MicaBootRecord.withTries] at hRest hHigh
      omega

/-
  From a disk that holds `records`, over runs in a row that
  are cut anywhere: a record with tries is launched at most
  that often, between runs the disk holds the records but
  for their tries, and every step of a run is correct for
  the records the run has read.
-/
def AttemptsCorrect
    (crc32 : List UInt8 → UInt32)
    (loader : Loader)
    (disk : Disk)
    (records : MicaBootRecords) : Prop :=
  ∀ runs : List CutRun,
    (∀ run ∈ runs, ∀ t, run.1.readable t = true) →
    (∀ record ∈ records,
      0 < record.tries →
      (launches record.id (bootRuns crc32 loader disk runs) :
          Int) ≤
        record.tries) ∧
    ∀ before run after,
      runs = before ++ run :: after →
      ∃ slot read,
        readEnvironment crc32 loader.toBoard (fun _ => true)
            (runsDisk crc32 loader disk before) =
          some (slot, read) ∧
        SameRecords records read ∧
        Trace.Holds
          (StepCorrect crc32 loader.toBoard read) []
          (cutSteps crc32 loader
            (runsDisk crc32 loader disk before) run)

/-
  With an inactive copy that is zero from its second block
  on, runs of `mica_file_boot` are correct: launches are paid
  for with durable decrements.
-/
theorem attemptsCorrect_of_zeroTail
    (hReads :
      readEnvironment crc32 loader.toBoard (fun _ => true)
          disk =
        some (slot, records))
    (hTail :
      ZeroTail (dreadCopy loader.toBoard disk (1 - slot))) :
    AttemptsCorrect crc32 loader disk records := by
  have hState :
      EnvironmentState crc32 loader.toBoard disk slot records :=
    ⟨hReads, hTail⟩
  intro runs hReadable
  constructor
  · intro record hRecord hTries
    rcases List.mem_iff_getElem?.mp hRecord with ⟨i, hAt⟩
    exact launches_bootRuns_le hState hReadable hAt hTries.le
  · intro before run after hRuns
    subst hRuns
    rcases runsDisk_state hState
        (fun run hRun =>
          hReadable run (List.mem_append_left _ hRun)) with
      ⟨slot', read, hRead, hSame⟩
    refine ⟨slot', read, hRead.reads, hSame, ?_⟩
    exact
      (cutSteps_kept hRead (hReadable run (by simp))).mono
        fun past step hKept => hKept.correct

end Checksum

/- A disk with one copy, of a record with two tries. -/
theorem attemptsCorrect_of_zeroTail_trial :
    AttemptsCorrect (fun _ => 1) cx3576Loader
      (writtenDisk (fun _ => 1) cx3576
        (micaBootText [zeroRecord 2]))
      [zeroRecord 2] := by
  have hState :
      EnvironmentState (fun _ => 1) cx3576
        (writtenDisk (fun _ => 1) cx3576
          (micaBootText [zeroRecord 2]))
        0 [zeroRecord 2] :=
    environmentState_writtenDisk
      (micaBootRender_zeroRecord (by decide) (by decide))
      (by decide)
  exact attemptsCorrect_of_zeroTail hState.reads hState.zeroTail

------------------------------------------------------------
-- An Inactive Copy With A Tail
------------------------------------------------------------

open Crc32

/- The copy of a record with three tries, its last byte set. -/
def tailedCopy : List UInt8 :=
  (pendingCopy crc32 1
    (micaBootText [zeroRecord 3])).dropLast ++ [255]

/- A disk with two tries, and that copy in the other slot. -/
def tailedDisk : Disk :=
  (writtenDisk crc32 cx3576
    (micaBootText [zeroRecord 2])).write
      (cx3576.envBlocks 1 * blockBytes) tailedCopy

/- A record of zeros has a text that fits. -/
theorem micaBootText_zeroRecord_length_le
    {tries : Int}
    (hLow : -1 ≤ tries)
    (hHigh : tries ≤ 3) :
    (micaBootText [zeroRecord tries]).length ≤
      micaBootValueLimit :=
  length_le_of_micaBootRender
    (micaBootRender_zeroRecord hLow hHigh)

/- The tailed copy fills the copy on the disk. -/
theorem length_tailedCopy :
    tailedCopy.length = micaEnvSize := by
  have hSize : micaEnvSize = 65536 := rfl
  have hLength :=
    length_pendingCopy crc32 1
      (@micaBootText_zeroRecord_length_le 3 (by decide)
        (by decide))
  rw [tailedCopy, List.length_append, List.length_dropLast,
    hLength, hSize]
  rfl

/- The last byte of a body is zero. -/
theorem environmentBody_eq_append
    {text : List UInt8}
    (hText : text.length ≤ micaBootValueLimit) :
    environmentBody text =
      (environmentBody text).dropLast ++ [0] := by
  have hLimit : micaBootValueLimit = 512 := rfl
  have hSize : micaEnvSize = 65536 := rfl
  have hOffset : micaEnvValueOffset = 18 := rfl
  have hCount :
      micaEnvSize - micaEnvValueOffset - text.length =
        (micaEnvSize - micaEnvValueOffset - text.length - 1) +
          1 := by
    omega
  rw [environmentBody, hCount, List.replicate_succ',
    ← List.append_assoc, List.dropLast_concat]

/- The tailed copy: the checksum, flag and body of another. -/
theorem tailedCopy_eq :
    tailedCopy =
      le32 (crc32 ((environmentBody
          (micaBootText [zeroRecord 3])).take
            (micaEnvSize - 5))) ++
        1 :: ((environmentBody
          (micaBootText [zeroRecord 3])).dropLast ++
            [255]) := by
  have hText :=
    @micaBootText_zeroRecord_length_le 3 (by decide) (by decide)
  have hBody :
      environmentBody (micaBootText [zeroRecord 3]) ≠ [] := by
    rw [environmentBody_eq_append hText]
    simp
  rw [tailedCopy, pendingCopy_eq,
    List.dropLast_append_of_ne_nil (by simp),
    List.dropLast_cons_of_ne_nil hBody]
  simp

/- The checksum tells the tailed copy from the other. -/
theorem validEnvironment_tailedCopy :
    validEnvironment crc32 tailedCopy = false := by
  have hText :=
    @micaBootText_zeroRecord_length_le 3 (by decide) (by decide)
  have hLength := length_environmentBody hText
  have hBody := environmentBody_eq_append hText
  have hSize : micaEnvSize = 65536 := rfl
  apply decide_eq_false
  have hDrop :
      tailedCopy.drop 5 =
        (environmentBody
          (micaBootText [zeroRecord 3])).dropLast ++ [255] := by
    rw [tailedCopy_eq]
    rfl
  rw [hDrop, tailedCopy_eq, getUnalignedLe32_le32]
  rw [List.take_of_length_le hLength.le,
    List.take_of_length_le (by
      rw [List.length_append, List.length_dropLast, hLength,
        hSize]
      decide)]
  intro hSame
  rw [hBody, List.dropLast_concat] at hSame
  have hLast := crc32_append_singleton_injective _ hSame
  cases hLast

/- The copies of the disk. -/
theorem dreadCopy_tailedDisk :
    dreadCopy cx3576 tailedDisk 0 =
        pendingCopy crc32 0 (micaBootText [zeroRecord 2]) ∧
      dreadCopy cx3576 tailedDisk 1 = tailedCopy := by
  have hOther :=
    dreadCopy_write_other cx3576
      (writtenDisk crc32 cx3576 (micaBootText [zeroRecord 2]))
      0 length_tailedCopy
  constructor
  · rw [show (1 - 0 : Fin 2) = 1 from rfl] at hOther
    rw [tailedDisk, hOther]
    exact
      dreadCopy_writtenDisk_zero
        (micaBootText_zeroRecord_length_le (by decide)
          (by decide))
  · exact dreadCopy_write_self cx3576 _ 1 length_tailedCopy

/- The environment of the disk holds the two tries. -/
theorem readEnvironment_tailedDisk :
    readEnvironment crc32 cx3576 (fun _ => true) tailedDisk =
      some (0, [zeroRecord 2]) := by
  rcases dreadCopy_tailedDisk with ⟨hZero, hOne⟩
  have hRender :=
    @micaBootRender_zeroRecord 2 (by decide) (by decide)
  apply (selectEnvironment_eq_some_iff crc32).mpr
  simp only [dreadCopies_intact, hZero, hOne,
    validEnvironment_pendingCopy, validEnvironment_tailedCopy,
    Bool.and_true, Bool.and_false]
  exact ⟨rfl, decodeEnvironment_pendingCopy crc32 0 hRender⟩

/- The disk after the last block of the decrement alone. -/
def revivedDisk : Disk :=
  tailedDisk.tear blockBytes (fun block => block = 127)
    (cx3576.envBlocks 1 * blockBytes)
    (pendingCopy crc32 1 (micaBootText [zeroRecord 1]))

/- The block makes the tailed copy whole. -/
theorem dreadCopy_revivedDisk :
    dreadCopy cx3576 revivedDisk 1 =
      pendingCopy crc32 1 (micaBootText [zeroRecord 3]) := by
  have hThree :=
    length_pendingCopy crc32 1
      (@micaBootText_zeroRecord_length_le 3 (by decide)
        (by decide))
  have hPending :=
    length_pendingCopy crc32 1
      (@micaBootText_zeroRecord_length_le 1 (by decide)
        (by decide))
  have hZeroThree :=
    zeroTail_pendingCopy crc32 1
      (@micaBootRender_zeroRecord 3 (by decide) (by decide))
  have hZeroPending :=
    zeroTail_pendingCopy crc32 1
      (@micaBootRender_zeroRecord 1 (by decide) (by decide))
  have hSize : micaEnvSize = 65536 := rfl
  have hBlock : blockBytes = 512 := rfl
  conv_lhs => rw [dreadCopy, ← hPending]
  apply Device.read_tear_eq _ _ _ _ (by rw [hThree, hPending])
  intro i hi
  split_ifs with hLast
  · -- the landed block holds zeros in both copies
    have hFar : blockBytes ≤ i := by
      simp only [hBlock, decide_eq_true_eq] at hLast ⊢
      omega
    rw [hZeroThree.getElem?_eq hFar (by omega),
      ← List.getElem?_eq_getElem hi,
      hZeroPending.getElem?_eq hFar hi]
  · -- the others hold the tailed copy, its last byte apart
    have hShort : i < micaEnvSize - 1 := by
      simp only [hBlock, decide_eq_true_eq] at hLast
      omega
    have hInside : i < micaEnvSize := by omega
    rw [← getElem?_dreadCopy cx3576 tailedDisk 1 hInside,
      dreadCopy_tailedDisk.2, tailedCopy,
      List.getElem?_append_left (by
        rw [List.length_dropLast, hThree]
        exact hShort),
      List.getElem?_dropLast, if_pos (by rw [hThree]; exact hShort)]

/- After it the environment holds three tries. -/
theorem readEnvironment_revivedDisk :
    readEnvironment crc32 cx3576 (fun _ => true) revivedDisk =
      some (1, [zeroRecord 3]) := by
  have hOther :
      dreadCopy cx3576 revivedDisk 0 =
        pendingCopy crc32 0 (micaBootText [zeroRecord 2]) := by
    have hLength :=
      length_pendingCopy crc32 1
        (@micaBootText_zeroRecord_length_le 1 (by decide)
          (by decide))
    rw [← dreadCopy_tailedDisk.1]
    exact dreadCopy_tear_other cx3576 tailedDisk _ 0 hLength
  have hRender :=
    @micaBootRender_zeroRecord 3 (by decide) (by decide)
  apply @selectEnvironment_pendingCopy crc32
    (dreadCopies cx3576 (fun _ => true) revivedDisk) 0 _ _ _
    hRender
  · rw [dreadCopies_intact, dreadCopies_intact, hOther,
      environmentFlag_pendingCopy]
    exact dreadCopy_revivedDisk
  · rw [dreadCopies_intact, hOther]
    exact validEnvironment_pendingCopy crc32 _ _

/- The answers of a cx3576 that passes the first checks. -/
def readyPreflight : PreflightIo where
  verifySet := true
  recoveryKey := false
  storeIsEmmc := true
  bootIndex := 1
  watchdogFound := true
  watchdogStarted := true
  mmc := some
    { initialized := true
      isSd := false
      selected := true
      blockSize := 512
      partition := fun
        | 1 => some ⟨64, 36800, "firmware"⟩
        | 2 => some ⟨36864, 2097152, "system"⟩
        | 3 => some ⟨2134016, 524288, "data"⟩
        | _ => none }
  buffer := true

/- The checks pass. -/
theorem preflight_readyPreflight :
    preflight cx3576Loader readyPreflight = none := by
  decide

/- A boot whose decrement is cut after its last block. -/
def revivingIo : BootIo where
  preflight := readyPreflight
  readable _ := true
  attempt := .cut fun block => block = 127
  fit _ := ⟨false, none, false, none, false, 0⟩
  bootmReturns := false
  retire := .cut fun _ => false

/- The persist of the decrement makes one step. -/
theorem persistEnvironment_revivingIo :
    let persist :=
      persistEnvironment crc32 cx3576 revivingIo.attempt
        tailedDisk
        (dreadCopies cx3576 (fun _ => true) tailedDisk) 0
        [zeroRecord 1]
    persist.steps = [(.write, revivedDisk)] ∧
      persist.reply = .powerCut := by
  have hRender :=
    @micaBootRender_zeroRecord 1 (by decide) (by decide)
  have hFlag :
      environmentFlag
          (dreadCopies cx3576 (fun _ => true) tailedDisk 0) =
        0 := by
    rw [dreadCopies_intact, dreadCopy_tailedDisk.1,
      environmentFlag_pendingCopy]
  have hWrite : revivingIo.attempt.write = .powerCut := rfl
  have hLanded :
      revivingIo.attempt.landed = fun block => block = 127 :=
    rfl
  have hOne : (0 : UInt8) + 1 = 1 := by decide
  have hSlot : (1 - 0 : Fin 2) = 1 := rfl
  simp only [persistEnvironment, hRender, hFlag, hWrite, hOne,
    hSlot, hLanded, revivedDisk, and_self]

/- The run reads the records and is cut in the write. -/
theorem micaFileBoot_revivingIo
    {crc32 : List UInt8 → UInt32}
    {disk revived : Disk}
    (hReads :
      readEnvironment crc32 cx3576 (fun _ => true) disk =
        some (0, [zeroRecord 2]))
    (hPersist :
      let persist :=
        persistEnvironment crc32 cx3576 revivingIo.attempt
          disk (dreadCopies cx3576 (fun _ => true) disk) 0
          [zeroRecord 1]
      persist.steps = [(.write, revived)] ∧
        persist.reply = .powerCut) :
    micaFileBoot crc32 cx3576Loader revivingIo disk =
      [(.selected 0 [zeroRecord 2], disk)] ++
        [(.request .write, revived)] := by
  have hReadable : revivingIo.readable = fun _ => true := rfl
  have hBoard : cx3576Loader.toBoard = cx3576 := rfl
  have hPreflight :
      preflight cx3576Loader revivingIo.preflight = none :=
    preflight_readyPreflight
  have hNext : micaBootNext [zeroRecord 2] = some 0 := by
    decide
  have hEntry :
      ([zeroRecord 2] : MicaBootRecords)[0]? =
        some (zeroRecord 2) := rfl
  have hTries : 0 < (zeroRecord 2).tries := by decide
  have hSet :
      ([zeroRecord 2] : MicaBootRecords).set 0
          ((zeroRecord 2).withTries
            ((zeroRecord 2).tries - 1)) =
        [zeroRecord 1] := rfl
  rcases hPersist with ⟨hSteps, hReply⟩
  rw [readEnvironment] at hReads
  simp only [micaFileBoot, hPreflight, hReadable, hBoard,
    hReads, bootSelected, hNext, hEntry, hTries, if_true,
    hSet, persistSteps, hSteps, hReply, List.map_cons,
    List.map_nil, List.append_nil, List.singleton_append]

/- A run that leaves a record more tries is not correct. -/
theorem not_attemptsCorrect_of_tries_lt
    {crc32 : List UInt8 → UInt32}
    {loader : Loader}
    {disk revived : Disk}
    {slot slot' : Fin 2}
    {records current : MicaBootRecords}
    {run : CutRun}
    {past : BootSteps}
    {event : BootEvent}
    (hReadable : ∀ t, run.1.readable t = true)
    (hReads :
      readEnvironment crc32 loader.toBoard (fun _ => true)
          disk =
        some (slot, records))
    (hSteps :
      cutSteps crc32 loader disk run =
        past ++ [(event, revived)])
    (hRevived :
      readEnvironment crc32 loader.toBoard (fun _ => true)
          revived =
        some (slot', current))
    {i : Nat}
    {before after : MicaBootRecord}
    (hBefore : records[i]? = some before)
    (hAfter : current[i]? = some after)
    (hTries : 0 ≤ before.tries)
    (hMore : before.tries < after.tries) :
    ¬ AttemptsCorrect crc32 loader disk records := by
  intro hCorrect
  rcases (hCorrect [run] (by simpa using hReadable)).2 [] run []
      rfl with
    ⟨_, read, hRead, _, hHolds⟩
  rw [runsDisk, List.foldl_nil, hReads] at hRead
  rw [runsDisk, List.foldl_nil] at hHolds
  cases hRead
  have hStep := Trace.holds_iff.mp hHolds _ _ [] hSteps
  rcases hStep.holds with ⟨_, found, hFound, hChanged⟩
  rw [hRevived] at hFound
  cases hFound
  have hLe := (hChanged.tries_le hBefore hAfter hTries).2
  omega

/-
  One cut persist gives the record its third try back: on
  this disk the runs are not correct.
-/
theorem not_attemptsCorrect_tailedDisk :
    readEnvironment crc32 cx3576 (fun _ => true) tailedDisk =
        some (0, [zeroRecord 2]) ∧
      ¬ AttemptsCorrect crc32 cx3576Loader tailedDisk
        [zeroRecord 2] := by
  refine ⟨readEnvironment_tailedDisk, ?_⟩
  have hTrace :=
    micaFileBoot_revivingIo readEnvironment_tailedDisk
      persistEnvironment_revivingIo
  have hSteps :
      cutSteps crc32 cx3576Loader tailedDisk (revivingIo, 2) =
        [(.selected 0 [zeroRecord 2], tailedDisk)] ++
          [(.request .write, revivedDisk)] := by
    simp only [cutSteps, hTrace]
    exact List.take_of_length_le (by simp)
  exact
    @not_attemptsCorrect_of_tries_lt crc32 cx3576Loader _ _ _ _
      _ _ (revivingIo, 2) _ _ (fun _ => rfl)
      readEnvironment_tailedDisk hSteps
      readEnvironment_revivedDisk 0 (zeroRecord 2)
      (zeroRecord 3) rfl rfl (by decide) (by decide)

end Boot

end MicaBoards
