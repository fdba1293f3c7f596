import MicaBoards.Foundations.Descent
import MicaBoards.Boot.RunSteps

/-
  The reset loop of `mica_file_boot` is bounded.

  A run that reaches the reset has paid for it with a try or
  with a permanent entry, and no list it persists is refused.

  Main declarations:
    * `attemptsLeft`
    * `micaBootRender_withTries`
    * `attemptsLeft_lt_of_reset`
    * `resetLoop_bounded`
-/

------------------------------------------------------------
-- The Measure
------------------------------------------------------------

namespace MicaBoards

namespace Boot

/- What a record is worth: its tries, or 1 if permanent. -/
def MicaBootRecord.attempts (record : MicaBootRecord) : Nat :=
  if record.tries < 0 then 1 else record.tries.toNat

/- The positive tries and the permanent entries. -/
def attemptsLeft (records : MicaBootRecords) : Nat :=
  (records.map MicaBootRecord.attempts).sum

/- Setting an entry exchanges what it is worth. -/
theorem attemptsLeft_set
    {records : MicaBootRecords}
    {next : Nat}
    {selected : MicaBootRecord}
    (hEntry : records[next]? = some selected)
    (record : MicaBootRecord) :
    attemptsLeft (records.set next record) +
        selected.attempts =
      attemptsLeft records + record.attempts := by
  induction records generalizing next with
  | nil => cases hEntry
  | cons first records ih =>
      cases next with
      | zero =>
          cases hEntry
          simp only [attemptsLeft, List.set_cons_zero,
            List.map_cons, List.sum_cons]
          omega
      | succ next =>
          have hRest := ih hEntry
          simp only [attemptsLeft, List.set_cons_succ,
            List.map_cons, List.sum_cons] at hRest ⊢
          omega

/- A decrement costs one. -/
theorem attemptsLeft_attempt
    {records : MicaBootRecords}
    {next : Nat}
    {selected : MicaBootRecord}
    (hEntry : records[next]? = some selected)
    (hTries : 0 < selected.tries) :
    attemptsLeft
        (records.set next
          (selected.withTries (selected.tries - 1))) <
      attemptsLeft records := by
  have hSet :=
    attemptsLeft_set hEntry
      (selected.withTries (selected.tries - 1))
  have hOld : selected.attempts = selected.tries.toNat := by
    rw [MicaBootRecord.attempts, if_neg (by omega)]
  have hNew :
      (selected.withTries (selected.tries - 1)).attempts =
        (selected.tries - 1).toNat := by
    rw [MicaBootRecord.attempts,
      if_neg (by simp only [MicaBootRecord.withTries]; omega)]
    rfl
  omega

/- A retirement costs one. -/
theorem attemptsLeft_retire
    {records : MicaBootRecords}
    {next : Nat}
    {selected : MicaBootRecord}
    (hEntry : records[next]? = some selected)
    (hTries : selected.tries < 0) :
    attemptsLeft
        (records.set next (selected.withTries 0)) <
      attemptsLeft records := by
  have hSet := attemptsLeft_set hEntry (selected.withTries 0)
  have hOld : selected.attempts = 1 := by
    rw [MicaBootRecord.attempts, if_pos hTries]
  have hNew : (selected.withTries 0).attempts = 0 := rfl
  omega

------------------------------------------------------------
-- Lists With Other Tries
------------------------------------------------------------

/- Other tries in range keep a list canonical. -/
theorem Canonical.set_withTries
    {records : MicaBootRecords}
    (hCanonical : Canonical records)
    {next : Nat}
    {selected : MicaBootRecord}
    (hEntry : records[next]? = some selected)
    {tries : Int}
    (hLow : -1 ≤ tries)
    (hHigh : tries ≤ 3) :
    Canonical
      (records.set next (selected.withTries tries)) where
  nonempty := by simpa using hCanonical.nonempty
  length_le := by simpa using hCanonical.length_le
  record := by
    intro record hRecord
    rcases List.mem_or_eq_of_mem_set hRecord with hOld | rfl
    · exact hCanonical.record record hOld
    · have hSelected :=
        hCanonical.record selected (List.mem_of_getElem? hEntry)
      exact
        ⟨hSelected.id, hSelected.kernel,
          hSelected.generation_pos, hSelected.generation_le,
          hLow, hHigh⟩
  ordered := by
    have hOrdered :
        (records.map fun record =>
            record.withTries 0).Pairwise
          MicaBootRecord.Follows := by
      rw [List.pairwise_map]
      exact hCanonical.ordered
    rw [sameRecords_set hEntry tries, List.pairwise_map]
      at hOrdered
    exact hOrdered

/-
  The list a run persists is rendered, and its text fits a
  copy of the environment.
-/
theorem micaBootRender_withTries
    {records : MicaBootRecords}
    (hCanonical : Canonical records)
    {next : Nat}
    {selected : MicaBootRecord}
    (hEntry : records[next]? = some selected)
    {tries : Int}
    (hLow : -1 ≤ tries)
    (hHigh : tries ≤ 3) :
    ∃ text,
      micaBootRender
          (records.set next (selected.withTries tries)) =
        some text ∧
      text.length ≤ micaBootValueLimit ∧
      micaEnvValueOffset + text.length + 1 < micaEnvSize := by
  have hSet := hCanonical.set_withTries hEntry hLow hHigh
  have hLength := micaBootText_length_le hSet
  have hLimit : micaBootValueLimit = 512 := rfl
  have hSize : micaEnvSize = 65536 := rfl
  have hOffset : micaEnvValueOffset = 18 := rfl
  exact
    ⟨_, micaBootRender_eq_some_iff.mpr ⟨hSet, rfl⟩,
      by omega, by omega⟩

------------------------------------------------------------
-- A Persist That Succeeds
------------------------------------------------------------

section Checksum

variable {crc32 : List UInt8 → UInt32}

variable {board : Board}

variable {readable : Fin 2 → Bool}

variable {disk : Disk}

variable {slot : Fin 2}

variable {records : MicaBootRecords}

/- The selected copy has been read and is valid. -/
theorem readEnvironment_valid
    (hReads :
      readEnvironment crc32 board readable disk =
        some (slot, records)) :
    dreadCopies board readable disk slot =
        dreadCopy board disk slot ∧
      validEnvironment crc32 (dreadCopy board disk slot) =
        true ∧
      Canonical records := by
  rcases (selectEnvironment_eq_some_iff crc32).mp hReads with
    ⟨hSlot, hDecode⟩
  have hBoth :=
    @valid_of_micaBootSlot
      (fun t => readable t && validEnvironment crc32
        (dreadCopies board readable disk t))
      _ _ _ hSlot
  rw [Bool.and_eq_true] at hBoth
  have hCopy :
      dreadCopies board readable disk slot =
        dreadCopy board disk slot :=
    if_pos hBoth.1
  rw [hCopy] at hBoth
  exact
    ⟨hCopy, hBoth.2, canonical_of_decodeEnvironment hDecode⟩

/-
  A persist that succeeds leaves its records in the other
  copy, whatever that held.
-/
theorem readEnvironment_persist_done
    {io : PersistIo}
    {records' : MicaBootRecords}
    (hReads :
      readEnvironment crc32 board readable disk =
        some (slot, records))
    (hDone :
      (persistEnvironment crc32 board io disk
        (dreadCopies board readable disk) slot
        records').reply = .done) :
    readEnvironment crc32 board (fun _ => true)
        ((persistEnvironment crc32 board io disk
          (dreadCopies board readable disk) slot
          records').disk disk) =
      some (1 - slot, records') := by
  rcases readEnvironment_valid hReads with ⟨hCopy, hValid, _⟩
  rcases persistEnvironment_done hDone with
    ⟨hDurable, hRender⟩
  rcases Option.isSome_iff_exists.mp hRender with
    ⟨text, hRender⟩
  have hText := length_le_of_micaBootRender hRender
  have hLength :=
    length_pendingCopy crc32
      (environmentFlag (dreadCopy board disk slot) + 1) hText
  have hSame := dreadCopy_write_other board disk slot hLength
  rw [persistEnvironment_disk_of_durable crc32 hDurable disk _
    slot hRender, hCopy]
  apply selectEnvironment_pendingCopy crc32 _ hRender
  · rw [dreadCopies_intact, dreadCopies_intact, hSame]
    exact dreadCopy_write_self board disk (1 - slot) hLength
  · rw [dreadCopies_intact, hSame]
    exact hValid

/- The device does what a persist asks it for. -/
def PersistIo.Succeeds (io : PersistIo) : Prop :=
  io.write = .done ∧ io.flush = .done ∧ io.readback = .done

/- Then a persist of a list that is rendered succeeds. -/
theorem persistEnvironment_reply_of_succeeds
    {io : PersistIo}
    (hIo : io.Succeeds)
    (copies : Copies)
    {text : List UInt8}
    (hRender : micaBootRender records = some text) :
    (persistEnvironment crc32 board io disk copies slot
        records).reply =
      .done := by
  rcases hIo with ⟨hWrite, hFlush, hReadback⟩
  have hText := length_le_of_micaBootRender hRender
  have hLength :=
    length_pendingCopy crc32
      (environmentFlag (copies slot) + 1) hText
  have hCompare :=
    dreadCopy_write_self board disk (1 - slot) hLength
  cases hBoard : board.flushes with
  | false =>
      simp [persistEnvironment, hRender, hWrite, hBoard,
        hReadback, hCompare]
  | true =>
      simp [persistEnvironment, hRender, hWrite, hBoard,
        hFlush, hReadback, hCompare]

------------------------------------------------------------
-- Runs That Reset
------------------------------------------------------------

/- The last event of some steps. -/
def EndsWith (event : BootEvent) (steps : BootSteps) : Prop :=
  ∃ before disk, steps = before ++ [(event, disk)]

/- Steps before them leave the last event. -/
theorem EndsWith.append_left
    {event : BootEvent}
    {back : BootSteps}
    (hBack : EndsWith event back)
    (front : BootSteps) :
    EndsWith event (front ++ back) := by
  rcases hBack with ⟨before, disk, rfl⟩
  exact ⟨front ++ before, disk, by rw [List.append_assoc]⟩

/- So does one step before them. -/
theorem EndsWith.cons
    {event : BootEvent}
    {back : BootSteps}
    (hBack : EndsWith event back)
    (step : BootEvent × Disk) :
    EndsWith event (step :: back) :=
  hBack.append_left [step]

/- A step alone is the last. -/
theorem endsWith_singleton
    (event : BootEvent)
    (disk : Disk) :
    EndsWith event [(event, disk)] :=
  ⟨[], disk, rfl⟩

/- The last step leaves the disk. -/
theorem EndsWith.mem
    {event : BootEvent}
    {steps : BootSteps}
    (hEnds : EndsWith event steps)
    (disk : Disk) :
    (event, stepsDisk disk steps) ∈ steps := by
  rcases hEnds with ⟨before, last, rfl⟩
  simp [stepsDisk]

variable {loader : Loader}

variable {io : BootIo}

/- A reset comes after a persist that has succeeded. -/
theorem reset_mem_persistSteps
    {persist : Persist}
    {failure : String}
    {rest : Disk → BootSteps}
    {final : Disk}
    (hReset :
      (BootEvent.reset, final) ∈
        persistSteps persist disk records failure rest) :
    persist.reply = .done ∧
      (BootEvent.reset, final) ∈
        rest (persist.disk disk) := by
  rw [persistSteps] at hReset
  rcases List.mem_append.mp hReset with hRequest | hRest
  · rcases List.mem_map.mp hRequest with ⟨_, _, hStep⟩
    cases hStep
  · cases hReply : persist.reply with
    | powerCut => simp [hReply] at hRest
    | failed => simp [hReply] at hRest
    | done =>
        simp only [hReply, List.mem_cons, Prod.mk.injEq,
          reduceCtorEq, false_and, false_or] at hRest
        exact ⟨rfl, hRest⟩

/- A reset comes after the image has failed. -/
theorem reset_mem_bootLaunch
    {copies : Copies}
    {next : Nat}
    {selected : MicaBootRecord}
    {final : Disk}
    (hReset :
      (BootEvent.reset, final) ∈
        bootLaunch crc32 loader io copies slot records next
          selected disk) :
    (BootEvent.reset, final) ∈
      bootRetire crc32 loader io copies slot records next
        selected disk := by
  unfold bootLaunch at hReset
  split_ifs at hReset with hFit hReturns
  · simpa using hReset
  · simp at hReset
  · simpa using hReset

/-
  A run that reaches the reset leaves a list that is worth
  less than the one it has read.
-/
theorem attemptsLeft_lt_of_reset
    (hReads :
      readEnvironment crc32 loader.toBoard io.readable disk =
        some (slot, records))
    {final : Disk}
    (hReset :
      (BootEvent.reset, final) ∈
        micaFileBoot crc32 loader io disk) :
    ∃ slot' current,
      readEnvironment crc32 loader.toBoard (fun _ => true)
          final =
        some (slot', current) ∧
      attemptsLeft current < attemptsLeft records := by
  have hSelect :
      selectEnvironment crc32 io.readable
          (dreadCopies loader.toBoard io.readable disk) =
        some (slot, records) :=
    hReads
  unfold micaFileBoot at hReset
  cases hPreflight : preflight loader io.preflight with
  | some reason => simp [hPreflight] at hReset
  | none =>
      simp only [hPreflight, hSelect, List.mem_cons,
        Prod.mk.injEq, reduceCtorEq, false_and,
        false_or] at hReset
      unfold bootSelected at hReset
      cases hNext : micaBootNext records with
      | none => simp [hNext] at hReset
      | some next =>
          rcases firstTries_of_micaBootNext hNext with
            ⟨selected, hFirst⟩
          have hEntry := hFirst.entry
          simp only [hNext, hEntry] at hReset
          split_ifs at hReset with hTries
          · rcases reset_mem_persistSteps hReset with
              ⟨hDone, hLaunch⟩
            have hRetire := reset_mem_bootLaunch hLaunch
            rw [bootRetire, if_neg (by
              simp only [MicaBootRecord.withTries]
              omega)] at hRetire
            cases List.mem_singleton.mp hRetire
            exact
              ⟨_, _, readEnvironment_persist_done hReads hDone,
                attemptsLeft_attempt hEntry hTries⟩
          · have hNeg : selected.tries < 0 := by
              have hNe := hFirst.tries
              omega
            have hRetire := reset_mem_bootLaunch hReset
            rw [bootRetire, if_pos hNeg] at hRetire
            rcases reset_mem_persistSteps hRetire with
              ⟨hDone, hLast⟩
            cases List.mem_singleton.mp hLast
            exact
              ⟨_, _, readEnvironment_persist_done hReads hDone,
                attemptsLeft_retire hEntry hNeg⟩

------------------------------------------------------------
-- Runs On A Device That Works
------------------------------------------------------------

/- The list a run persists is persisted. -/
theorem persistEnvironment_withTries_reply
    {persistIo : PersistIo}
    (hIo : persistIo.Succeeds)
    (hCanonical : Canonical records)
    {next : Nat}
    {selected : MicaBootRecord}
    (hEntry : records[next]? = some selected)
    {tries : Int}
    (hLow : -1 ≤ tries)
    (hHigh : tries ≤ 3)
    (copies : Copies) :
    (persistEnvironment crc32 board persistIo disk copies slot
        (records.set next
          (selected.withTries tries))).reply =
      .done := by
  rcases micaBootRender_withTries hCanonical hEntry hLow hHigh
    with ⟨text, hRender, _⟩
  exact persistEnvironment_reply_of_succeeds hIo copies hRender

/- What follows a persist that succeeds ends the run. -/
theorem endsWith_persistSteps
    {event : BootEvent}
    {persist : Persist}
    {failure : String}
    {rest : Disk → BootSteps}
    (hDone : persist.reply = .done)
    (hRest : EndsWith event (rest (persist.disk disk))) :
    EndsWith event
      (persistSteps persist disk records failure rest) := by
  rw [persistSteps]
  apply EndsWith.append_left
  simp only [hDone]
  exact hRest.cons _

/- A recovery is not that of a persist that succeeds. -/
theorem recovery_mem_persistSteps
    {reason : String}
    {persist : Persist}
    {failure : String}
    {rest : Disk → BootSteps}
    {final : Disk}
    (hDone : persist.reply = .done)
    (hRecovery :
      (BootEvent.recovery reason, final) ∈
        persistSteps persist disk records failure rest) :
    (BootEvent.recovery reason, final) ∈
      rest (persist.disk disk) := by
  rw [persistSteps] at hRecovery
  rcases List.mem_append.mp hRecovery with hRequest | hRest
  · rcases List.mem_map.mp hRequest with ⟨_, _, hStep⟩
    cases hStep
  · simpa [hDone] using hRest

/- Retiring ends in the reset. -/
theorem bootRetire_of_succeeds
    (hRetire : io.retire.Succeeds)
    (hCanonical : Canonical records)
    {next : Nat}
    {selected : MicaBootRecord}
    (hEntry : records[next]? = some selected)
    (copies : Copies) :
    EndsWith .reset
        (bootRetire crc32 loader io copies slot records next
          selected disk) ∧
      ∀ reason final,
        (BootEvent.recovery reason, final) ∉
          bootRetire crc32 loader io copies slot records next
            selected disk := by
  unfold bootRetire
  split_ifs with hTries
  · have hDone :=
      @persistEnvironment_withTries_reply crc32 loader.toBoard
        disk slot _ _ hRetire hCanonical _ _ hEntry 0
        (by decide) (by decide) copies
    constructor
    · exact
        endsWith_persistSteps hDone
          (endsWith_singleton _ _)
    · intro reason final hRecovery
      simpa using recovery_mem_persistSteps hDone hRecovery
  · exact ⟨endsWith_singleton _ _, by simp⟩

/- An image that fails ends in the reset. -/
theorem bootLaunch_of_succeeds
    (hRetire : io.retire.Succeeds)
    (hCanonical : Canonical records)
    {next : Nat}
    {selected : MicaBootRecord}
    (hEntry : records[next]? = some selected)
    (copies : Copies) :
    (io.bootmReturns = true →
        EndsWith .reset
          (bootLaunch crc32 loader io copies slot records next
            selected disk)) ∧
      ∀ reason final,
        (BootEvent.recovery reason, final) ∉
          bootLaunch crc32 loader io copies slot records next
            selected disk := by
  rcases @bootRetire_of_succeeds crc32 disk slot _ loader io
      hRetire hCanonical _ _ hEntry copies with
    ⟨hEnds, hRecovery⟩
  unfold bootLaunch
  split_ifs with hFit hReturns
  · exact
      ⟨fun _ => (hEnds.cons _).cons _, by simpa using hRecovery⟩
  · exact ⟨fun h => absurd h hReturns, by simp⟩
  · exact ⟨fun _ => hEnds.cons _, by simpa using hRecovery⟩

/- The run after the records have been read. -/
theorem bootSelected_of_succeeds
    (hAttempt : io.attempt.Succeeds)
    (hRetire : io.retire.Succeeds)
    (hCanonical : Canonical records)
    (copies : Copies) :
    (io.bootmReturns = true →
        EndsWith .reset
            (bootSelected crc32 loader io copies slot records
              disk) ∨
          EndsWith (.recovery "all deployments exhausted")
            (bootSelected crc32 loader io copies slot records
              disk)) ∧
      ∀ reason final,
        (BootEvent.recovery reason, final) ∈
          bootSelected crc32 loader io copies slot records
            disk →
        reason = "all deployments exhausted" := by
  unfold bootSelected
  cases hNext : micaBootNext records with
  | none =>
      exact ⟨fun _ => Or.inr (endsWith_singleton _ _), by simp⟩
  | some next =>
      rcases firstTries_of_micaBootNext hNext with
        ⟨selected, hFirst⟩
      have hEntry := hFirst.entry
      have hRange :=
        (hCanonical.record selected
          (List.mem_of_getElem? hEntry)).tries
      simp only [hEntry]
      split_ifs with hTries
      · have hLow : -1 ≤ selected.tries - 1 := by omega
        have hHigh : selected.tries - 1 ≤ 3 := by
          have hMax := hRange.2
          omega
        have hDone :=
          @persistEnvironment_withTries_reply crc32
            loader.toBoard disk slot _ _ hAttempt hCanonical
            _ _ hEntry _ hLow hHigh copies
        have hSet :=
          hCanonical.set_withTries hEntry hLow hHigh
        have hSelf :
            (records.set next
                (selected.withTries
                  (selected.tries - 1)))[next]? =
              some
                (selected.withTries (selected.tries - 1)) :=
          List.getElem?_set_self
            (List.getElem?_eq_some_iff.mp hEntry).1
        constructor
        · intro hReturns
          left
          apply endsWith_persistSteps hDone
          exact
            (bootLaunch_of_succeeds hRetire hSet hSelf _).1
              hReturns
        · intro reason final hRecovery
          exact absurd
            (recovery_mem_persistSteps hDone hRecovery)
            ((bootLaunch_of_succeeds hRetire hSet hSelf _).2
              reason final)
      · rcases @bootLaunch_of_succeeds crc32 disk slot _ loader
            io hRetire hCanonical _ _ hEntry copies with
          ⟨hEnds, hRecovery⟩
        exact
          ⟨fun hReturns => Or.inl (hEnds hReturns),
            fun reason final hMem =>
              absurd hMem (hRecovery reason final)⟩

/-
  With writes and reads that succeed, no run ends in the
  recovery of a persist that has failed.
-/
theorem recovery_reason_of_succeeds
    (hAttempt : io.attempt.Succeeds)
    (hRetire : io.retire.Succeeds)
    {reason : String}
    {final : Disk}
    (hRecovery :
      (BootEvent.recovery reason, final) ∈
        micaFileBoot crc32 loader io disk) :
    preflight loader io.preflight = some reason ∨
      reason = "redundant environment invalid" ∨
      reason = "all deployments exhausted" := by
  unfold micaFileBoot at hRecovery
  cases hPreflight : preflight loader io.preflight with
  | some found =>
      simp only [hPreflight, List.mem_singleton,
        Prod.mk.injEq, BootEvent.recovery.injEq] at hRecovery
      rw [hRecovery.1]
      exact Or.inl rfl
  | none =>
      right
      simp only [hPreflight] at hRecovery
      split at hRecovery
      · simp only [List.mem_singleton, Prod.mk.injEq,
          BootEvent.recovery.injEq] at hRecovery
        exact Or.inl hRecovery.1
      · rename_i slot records hSelect
        simp only [List.mem_cons, Prod.mk.injEq, reduceCtorEq,
          false_and, false_or] at hRecovery
        have hCanonical := (readEnvironment_valid hSelect).2.2
        exact Or.inr
          ((bootSelected_of_succeeds hAttempt hRetire
            hCanonical _).2 reason final hRecovery)

------------------------------------------------------------
-- The Loop
------------------------------------------------------------

/- The disk before each run of a sequence that is not cut. -/
def resetDisk
    (crc32 : List UInt8 → UInt32)
    (loader : Loader)
    (ios : Nat → BootIo)
    (disk : Disk) : Nat → Disk
| 0 => disk
| k + 1 =>
    let before := resetDisk crc32 loader ios disk k
    stepsDisk before
      (micaFileBoot crc32 loader (ios k) before)

/- The steps of the run `k` of such a sequence. -/
def resetRun
    (crc32 : List UInt8 → UInt32)
    (loader : Loader)
    (ios : Nat → BootIo)
    (disk : Disk)
    (k : Nat) : BootSteps :=
  micaFileBoot crc32 loader (ios k)
    (resetDisk crc32 loader ios disk k)

/- The first checks pass, the device works, bootm returns. -/
structure BootIo.Fails
    (loader : Loader)
    (io : BootIo) : Prop where
  checks : Boot.preflight loader io.preflight = none
  readable : ∀ t, io.readable t = true
  attempt : io.attempt.Succeeds
  retire : io.retire.Succeeds
  returns : io.bootmReturns = true

/- The disk of the index holds a list of that worth. -/
def RankedDisk
    (crc32 : List UInt8 → UInt32)
    (loader : Loader)
    (ios : Nat → BootIo)
    (disk : Disk)
    (k rank : Nat) : Prop :=
  ∃ slot records,
    readEnvironment crc32 loader.toBoard (fun _ => true)
        (resetDisk crc32 loader ios disk k) =
      some (slot, records) ∧
    attemptsLeft records = rank

/- A run that resets leaves a list of lower worth. -/
theorem rankedDisk_succ
    {ios : Nat → BootIo}
    {k rank : Nat}
    (hReadable : ∀ t, (ios k).readable t = true)
    (hRanked : RankedDisk crc32 loader ios disk k rank)
    (hResets :
      EndsWith .reset
        (resetRun crc32 loader ios disk k)) :
    ∃ lower < rank,
      RankedDisk crc32 loader ios disk (k + 1) lower := by
  rcases hRanked with ⟨slot, records, hReads, rfl⟩
  have hIntact : (ios k).readable = fun _ => true :=
    funext hReadable
  rw [← hIntact] at hReads
  rcases attemptsLeft_lt_of_reset hReads (hResets.mem _) with
    ⟨slot', current, hCurrent, hLess⟩
  exact ⟨_, hLess, slot', current, hCurrent, rfl⟩

/- A run in which the image fails resets or gives up. -/
theorem endsWith_of_fails
    {ios : Nat → BootIo}
    {k rank : Nat}
    (hFails : (ios k).Fails loader)
    (hRanked : RankedDisk crc32 loader ios disk k rank) :
    EndsWith .reset (resetRun crc32 loader ios disk k) ∨
      EndsWith (.recovery "all deployments exhausted")
        (resetRun crc32 loader ios disk k) := by
  rcases hRanked with ⟨slot, records, hReads, rfl⟩
  have hIntact : (ios k).readable = fun _ => true :=
    funext hFails.readable
  rw [← hIntact] at hReads
  have hCanonical := (readEnvironment_valid hReads).2.2
  unfold resetRun micaFileBoot
  rw [readEnvironment] at hReads
  simp only [hFails.checks, hReads]
  rcases (bootSelected_of_succeeds hFails.attempt
      hFails.retire hCanonical _).1 hFails.returns with
    hReset | hExhausted
  · exact Or.inl (hReset.cons _)
  · exact Or.inr (hExhausted.cons _)

/-
  The reset loop is bounded. A run that resets leaves a list
  worth less than it has read. A list with the tries a run
  sets is rendered and fits, so that no persist fails on a
  device that works. When every image fails, the board gives
  up within as many resets as the list is worth, and no
  sequence of runs resets forever.
-/
theorem resetLoop_bounded
    (crc32 : List UInt8 → UInt32)
    (loader : Loader) :
    (∀ io disk slot records,
      readEnvironment crc32 loader.toBoard io.readable disk =
        some (slot, records) →
      EndsWith .reset (micaFileBoot crc32 loader io disk) →
      ∃ slot' current,
        readEnvironment crc32 loader.toBoard (fun _ => true)
            (stepsDisk disk
              (micaFileBoot crc32 loader io disk)) =
          some (slot', current) ∧
        attemptsLeft current < attemptsLeft records) ∧
    (∀ text records next selected,
      micaBootParse text = some records →
      FirstTries records next selected →
      ∃ text',
        micaBootRender
            (records.set next
              (selected.withTries
                (if 0 < selected.tries then
                  selected.tries - 1 else 0))) =
          some text' ∧
        text'.length ≤ micaBootValueLimit ∧
        micaEnvValueOffset + text'.length + 1 <
          micaEnvSize) ∧
    (∀ io disk reason final,
      io.attempt.Succeeds → io.retire.Succeeds →
      (BootEvent.recovery reason, final) ∈
        micaFileBoot crc32 loader io disk →
      preflight loader io.preflight = some reason ∨
        reason = "redundant environment invalid" ∨
        reason = "all deployments exhausted") ∧
    (∀ ios disk slot records,
      readEnvironment crc32 loader.toBoard (fun _ => true)
          disk =
        some (slot, records) →
      (∀ k, (ios k).Fails loader) →
      ∃ k ≤ attemptsLeft records,
        EndsWith (.recovery "all deployments exhausted")
          (resetRun crc32 loader ios disk k) ∧
        ∀ j < k,
          EndsWith .reset
            (resetRun crc32 loader ios disk j)) ∧
    (∀ ios disk slot records,
      readEnvironment crc32 loader.toBoard (fun _ => true)
          disk =
        some (slot, records) →
      (∀ k t, (ios k).readable t = true) →
      ¬ ∀ k,
        EndsWith .reset
          (resetRun crc32 loader ios disk k)) := by
  refine ⟨?_, ?_, ?_, ?_, ?_⟩
  · intro io disk slot records hReads hResets
    exact attemptsLeft_lt_of_reset hReads (hResets.mem disk)
  · intro text records next selected hParse hFirst
    have hCanonical := (micaBootParse_eq_some_iff.mp hParse).2
    have hRange :=
      (hCanonical.record selected
        (List.mem_of_getElem? hFirst.entry)).tries
    have hMax := hRange.2
    apply micaBootRender_withTries hCanonical hFirst.entry
    · split_ifs <;> omega
    · split_ifs <;> omega
  · intro io disk reason final hAttempt hRetire hRecovery
    exact recovery_reason_of_succeeds hAttempt hRetire hRecovery
  · intro ios disk slot records hReads hFails
    have hStart :
        RankedDisk crc32 loader ios disk 0
          (attemptsLeft records) :=
      ⟨slot, records, hReads, rfl⟩
    have hStep :
        ∀ k rank,
          RankedDisk crc32 loader ios disk k rank →
          EndsWith (.recovery "all deployments exhausted")
              (resetRun crc32 loader ios disk k) ∨
            EndsWith .reset
                (resetRun crc32 loader ios disk k) ∧
              ∃ lower < rank,
                RankedDisk crc32 loader ios disk (k + 1)
                  lower := by
      intro k rank hRanked
      rcases endsWith_of_fails (hFails k) hRanked with
        hReset | hExhausted
      · exact Or.inr
          ⟨hReset,
            rankedDisk_succ (hFails k).readable hRanked
              hReset⟩
      · exact Or.inl hExhausted
    simpa using Descent.exists_stop_of_rank hStep hStart
  · intro ios disk slot records hReads hReadable hAll
    have hStart :
        RankedDisk crc32 loader ios disk 0
          (attemptsLeft records) :=
      ⟨slot, records, hReads, rfl⟩
    exact
      Descent.not_forall_continue_of_rank
        (fun k rank hRanked hReset =>
          rankedDisk_succ (hReadable k) hRanked hReset)
        hStart (fun k _ => hAll k)

end Checksum

end Boot

end MicaBoards
