import MicaBoards.Foundations.Trace
import MicaBoards.Boot.CrashAtomicity
import MicaBoards.Boot.FileBoot

/-
  What one run of `mica_file_boot` does to the disk.

  Each step of a run is checked against the records the run
  has read: which records the disk may hold after it, and
  what a launch must have been preceded by. A run launches
  at most once, and a launch of a record with tries leaves
  it with one less.

  Main declarations:
    * `FirstTries` and `Changed`
    * `LaunchAllowed` and `StepCorrect`
    * `micaFileBoot_steps`
    * `launches_micaFileBoot_le`
    * `stepsDisk_kept`
-/

------------------------------------------------------------
-- The Selected Record
------------------------------------------------------------

namespace MicaBoards

namespace Boot

/- The first record whose tries are not 0. -/
structure FirstTries
    (records : MicaBootRecords)
    (next : Nat)
    (selected : MicaBootRecord) : Prop where
  entry : records[next]? = some selected
  tries : selected.tries ≠ 0
  earlier : ∀ j < next, ∀ record,
    records[j]? = some record → record.tries = 0

/- `mica_boot_next` finds the first record with tries. -/
theorem firstTries_of_micaBootNext
    {records : MicaBootRecords}
    {next : Nat}
    (hNext : micaBootNext records = some next) :
    ∃ selected, FirstTries records next selected := by
  rcases List.findIdx?_eq_some_iff_getElem.mp hNext with
    ⟨hLength, hTries, hEarlier⟩
  refine ⟨records[next], ?_, by simpa using hTries, ?_⟩
  · exact List.getElem?_eq_getElem hLength
  · intro j hj record hRecord
    rcases List.getElem?_eq_some_iff.mp hRecord with
      ⟨hShort, rfl⟩
    simpa using hEarlier j hj

/- There is one first record with tries. -/
theorem FirstTries.unique
    {records : MicaBootRecords}
    {i j : Nat}
    {left right : MicaBootRecord}
    (hLeft : FirstTries records i left)
    (hRight : FirstTries records j right) :
    i = j ∧ left = right := by
  have hIndex : i = j := by
    rcases Nat.lt_trichotomy i j with hLt | hEq | hGt
    · exact absurd (hRight.earlier i hLt left hLeft.entry)
        hLeft.tries
    · exact hEq
    · exact absurd (hLeft.earlier j hGt right hRight.entry)
        hRight.tries
  subst hIndex
  refine ⟨rfl, ?_⟩
  exact Option.some.inj (hLeft.entry.symm.trans hRight.entry)

/- The ids of canonical records differ. -/
theorem Canonical.index_eq_of_id
    {records : MicaBootRecords}
    (hCanonical : Canonical records)
    {i j : Nat}
    {left right : MicaBootRecord}
    (hLeft : records[i]? = some left)
    (hRight : records[j]? = some right)
    (hId : left.id = right.id) :
    i = j := by
  have hOrdered :=
    List.pairwise_iff_getElem.mp hCanonical.ordered
  rcases List.getElem?_eq_some_iff.mp hLeft with ⟨hi, rfl⟩
  rcases List.getElem?_eq_some_iff.mp hRight with ⟨hj, rfl⟩
  rcases Nat.lt_trichotomy i j with hLt | hEq | hGt
  · exact absurd hId (hOrdered i j hi hj hLt).1
  · exact hEq
  · exact absurd hId.symm (hOrdered j i hj hi hGt).1

/- The tries of a canonical record that has none. -/
theorem Canonical.tries_eq_of_neg
    {records : MicaBootRecords}
    (hCanonical : Canonical records)
    {i : Nat}
    {record : MicaBootRecord}
    (hRecord : records[i]? = some record)
    (hNeg : record.tries < 0) :
    record.tries = -1 := by
  have hTries :=
    (hCanonical.record record
      (List.mem_of_getElem? hRecord)).tries
  have hLow := hTries.1
  omega

------------------------------------------------------------
-- What A Run May Do
------------------------------------------------------------

/- The image came back from bootm or could not be loaded. -/
def ImageFailed (past : BootSteps) : Prop :=
  ∃ step ∈ past, step.1 = .returned ∨ step.1 = .unavailable

/-
  The records a run that has read `records` may leave after
  the steps `past`.
-/
inductive Changed
    (records : MicaBootRecords)
    (past : BootSteps) :
    MicaBootRecords → Prop where
| same : Changed records past records
| attempt
    {next : Nat}
    {selected : MicaBootRecord}
    (hFirst : FirstTries records next selected)
    (hTries : 0 < selected.tries) :
    Changed records past
      (records.set next
        (selected.withTries (selected.tries - 1)))
| retire
    {next : Nat}
    {selected : MicaBootRecord}
    (hFirst : FirstTries records next selected)
    (hTries : selected.tries = -1)
    (hFailed : ImageFailed past) :
    Changed records past
      (records.set next (selected.withTries 0))

section Checksum

variable (crc32 : List UInt8 → UInt32)

variable (board : Board)

/-
  After the steps `past` of a run that has read `records`
  the record may be handed to bootm: it is the first of
  those read with tries, and if they were positive a persist
  of the decrement has completed.
-/
structure LaunchAllowed
    (records : MicaBootRecords)
    (past : BootSteps)
    (launched : MicaBootRecord) : Prop where
  first : ∃ next selected,
    FirstTries records next selected ∧
      selected.id = launched.id
  tries : ∀ (i : Nat) (selected : MicaBootRecord),
    records[i]? = some selected →
    selected.id = launched.id →
    selected.tries ≠ 0
  attempt : ∀ (i : Nat) (selected : MicaBootRecord),
    records[i]? = some selected →
    selected.id = launched.id →
    0 < selected.tries →
    ∃ (slot : Fin 2) (disk : Disk),
      (BootEvent.persisted
          (records.set i
            (selected.withTries (selected.tries - 1))),
        disk) ∈ past ∧
      readEnvironment crc32 board (fun _ => true) disk =
        some (slot,
          records.set i
            (selected.withTries (selected.tries - 1)))

/-
  A step of a run that has read `records`, after the steps
  `past`.
-/
structure StepCorrect
    (records : MicaBootRecords)
    (past : BootSteps)
    (step : BootEvent × Disk) : Prop where
  selected : ∀ slot read,
    step.1 = .selected slot read → read = records
  holds : ∃ slot current,
    readEnvironment crc32 board (fun _ => true) step.2 =
        some (slot, current) ∧
      Changed records past current
  launched : ∀ record,
    step.1 = .launched record →
    LaunchAllowed crc32 board records past record

/-
  What the steps keep of the disk: its state, and after the
  launch of a record with tries its decrement.
-/
structure StepKept
    (records : MicaBootRecords)
    (past : BootSteps)
    (step : BootEvent × Disk) : Prop where
  selected : ∀ slot read,
    step.1 = .selected slot read → read = records
  holds : ∃ slot current,
    EnvironmentState crc32 board step.2 slot current ∧
      Changed records past current
  launched : ∀ record,
    step.1 = .launched record →
    LaunchAllowed crc32 board records past record
  later : ∀ record disk next selected,
    (BootEvent.launched record, disk) ∈ past ++ [step] →
    FirstTries records next selected →
    0 < selected.tries →
    ∃ slot,
      EnvironmentState crc32 board step.2 slot
        (records.set next
          (selected.withTries (selected.tries - 1)))

/- A kept step is correct. -/
theorem StepKept.correct
    {records : MicaBootRecords}
    {past : BootSteps}
    {step : BootEvent × Disk}
    (hKept : StepKept crc32 board records past step) :
    StepCorrect crc32 board records past step := by
  rcases hKept.holds with ⟨slot, current, hState, hChanged⟩
  exact
    ⟨hKept.selected, ⟨slot, current, hState.reads, hChanged⟩,
      hKept.launched⟩

end Checksum

------------------------------------------------------------
-- The Steps Of A Persist
------------------------------------------------------------

/-
  A property of the steps of a persist and of what follows
  it, from an invariant of the steps before them that the
  requests keep.
-/
theorem holds_persistSteps
    {P : BootSteps → BootEvent × Disk → Prop}
    {I : BootSteps → Prop}
    {persist : Persist}
    {disk : Disk}
    {records : MicaBootRecords}
    {failure : String}
    {rest : Disk → BootSteps}
    {past : BootSteps}
    (hRequest : ∀ past step,
      I past → step ∈ persist.steps →
      P past (.request step.1, step.2) ∧
        I (past ++ [(.request step.1, step.2)]))
    (hFailed : ∀ past,
      I past → persist.reply = .failed →
      P past (.recovery failure, persist.disk disk))
    (hDone : ∀ past,
      I past → persist.reply = .done →
      Trace.Holds P past
        ((.persisted records, persist.disk disk) ::
          rest (persist.disk disk)))
    (hPast : I past) :
    Trace.Holds P past
      (persistSteps persist disk records failure rest) := by
  have hRequests :
      ∀ past step,
        I past →
        step ∈ persist.steps.map
          (fun step => (BootEvent.request step.1, step.2)) →
        P past step ∧ I (past ++ [step]) := by
    intro past step hPast hStep
    rcases List.mem_map.mp hStep with ⟨request, hMem, rfl⟩
    exact hRequest past request hPast hMem
  rcases Trace.holds_of_invariant hRequests hPast with
    ⟨hFirst, hNext⟩
  unfold persistSteps
  apply Trace.holds_append.mpr
  refine ⟨hFirst, ?_⟩
  cases hReply : persist.reply with
  | powerCut => exact Trace.holds_nil _
  | failed => exact ⟨hFailed _ hNext hReply, trivial⟩
  | done => exact hDone _ hNext hReply

------------------------------------------------------------
-- The Steps Of A Run
------------------------------------------------------------

section Checksum

variable {crc32 : List UInt8 → UInt32}

variable {board : Board}

variable {records : MicaBootRecords}

/- No step hands a record to bootm. -/
def Unlaunched (past : BootSteps) : Prop :=
  ∀ record disk, (BootEvent.launched record, disk) ∉ past

/- One more step that is no launch. -/
theorem Unlaunched.append
    {past : BootSteps}
    (hPast : Unlaunched past)
    {step : BootEvent × Disk}
    (hStep : ∀ record, step.1 ≠ .launched record) :
    Unlaunched (past ++ [step]) := by
  intro record disk hMem
  rcases List.mem_append.mp hMem with hOld | hNew
  · exact hPast record disk hOld
  · rw [List.mem_singleton] at hNew
    exact hStep record (by rw [← hNew])

/-
  A step before any launch, that neither reads nor launches,
  is kept when the disk holds records the run may leave.
-/
theorem StepKept.of_unlaunched
    {past : BootSteps}
    {event : BootEvent}
    {disk : Disk}
    (hPast : Unlaunched past)
    (hSelected : ∀ slot read, event ≠ .selected slot read)
    (hLaunched : ∀ record, event ≠ .launched record)
    (hHolds : ∃ slot current,
      EnvironmentState crc32 board disk slot current ∧
        Changed records past current) :
    StepKept crc32 board records past (event, disk) where
  selected slot read hEvent :=
    absurd hEvent (hSelected slot read)
  holds := hHolds
  launched record hEvent := absurd hEvent (hLaunched record)
  later record disk' _ _ hMem :=
    absurd hMem
      (@Unlaunched.append past hPast (event, disk) hLaunched
        record disk')

/-
  A step of the run of a record without tries, that does not
  read, is kept when the disk holds records the run may
  leave and the record is the one handed to bootm.
-/
theorem StepKept.of_permanent
    {past : BootSteps}
    {event : BootEvent}
    {disk : Disk}
    {next : Nat}
    {selected : MicaBootRecord}
    (hCanonical : Canonical records)
    (hFirst : FirstTries records next selected)
    (hTries : selected.tries < 0)
    (hSelected : ∀ slot read, event ≠ .selected slot read)
    (hLaunched : ∀ record,
      event = .launched record → record = selected)
    (hHolds : ∃ slot current,
      EnvironmentState crc32 board disk slot current ∧
        Changed records past current) :
    StepKept crc32 board records past (event, disk) where
  selected slot read hEvent :=
    absurd hEvent (hSelected slot read)
  holds := hHolds
  launched record hEvent := by
    have hSame := hLaunched record hEvent
    subst hSame
    have hIndex :
        ∀ (i : Nat) (read : MicaBootRecord),
          records[i]? = some read →
          read.id = record.id →
          read = record := by
      intro i read hRead hId
      have hNext :=
        hCanonical.index_eq_of_id hRead hFirst.entry hId
      subst hNext
      exact Option.some.inj (hRead.symm.trans hFirst.entry)
    refine ⟨⟨next, record, hFirst, rfl⟩, ?_, ?_⟩
    · intro i read hRead hId
      rw [hIndex i read hRead hId]
      exact hFirst.tries
    · intro i read hRead hId hPos
      rw [hIndex i read hRead hId] at hPos
      omega
  later record disk' next' selected' _ hFirst' hPos := by
    rw [(hFirst'.unique hFirst).2] at hPos
    omega

/-
  Once the decrement has been persisted, a step that leaves
  the disk as it is and does not read is kept.
-/
theorem StepKept.of_attempted
    {past : BootSteps}
    {event : BootEvent}
    {slot : Fin 2}
    {disk : Disk}
    {next : Nat}
    {selected : MicaBootRecord}
    (hCanonical : Canonical records)
    (hFirst : FirstTries records next selected)
    (hTries : 0 < selected.tries)
    (hState :
      EnvironmentState crc32 board disk slot
        (records.set next
          (selected.withTries (selected.tries - 1))))
    (hPersisted :
      event = .persisted
          (records.set next
            (selected.withTries (selected.tries - 1))) ∨
        (BootEvent.persisted
            (records.set next
              (selected.withTries (selected.tries - 1))),
          disk) ∈ past ∧
        ∀ record,
          event = .launched record →
            record.id = selected.id)
    (hSelected : ∀ slot read, event ≠ .selected slot read) :
    StepKept crc32 board records past (event, disk) where
  selected slot read hEvent :=
    absurd hEvent (hSelected slot read)
  holds := ⟨slot, _, hState, .attempt hFirst hTries⟩
  launched record hEvent := by
    rcases hPersisted with hPersisted | ⟨hPersisted, hId⟩
    · simp only at hEvent
      rw [hPersisted] at hEvent
      cases hEvent
    have hId := hId record hEvent
    have hIndex :
        ∀ (i : Nat) (read : MicaBootRecord),
          records[i]? = some read →
          read.id = record.id →
          i = next ∧ read = selected := by
      intro i read hRead hRecord
      have hNext :=
        hCanonical.index_eq_of_id hRead hFirst.entry
          (hRecord.trans hId)
      subst hNext
      exact
        ⟨rfl, Option.some.inj (hRead.symm.trans hFirst.entry)⟩
    refine ⟨⟨next, selected, hFirst, hId.symm⟩, ?_, ?_⟩
    · intro i read hRead hRecord
      rw [(hIndex i read hRead hRecord).2]
      exact hFirst.tries
    · intro i read hRead hRecord _
      rcases hIndex i read hRead hRecord with ⟨rfl, rfl⟩
      exact ⟨slot, disk, hPersisted, hState.reads⟩
  later record disk' next' selected' _ hFirst' _ := by
    rcases hFirst'.unique hFirst with ⟨rfl, rfl⟩
    exact ⟨slot, hState⟩

variable {loader : Loader}

variable {io : BootIo}

variable {slot : Fin 2}

variable {disk : Disk}

variable {next : Nat}

variable {selected : MicaBootRecord}

/- The retirement of a permanent record. -/
theorem holds_bootRetire
    {past : BootSteps}
    (hState :
      EnvironmentState crc32 loader.toBoard disk slot records)
    (hFirst : FirstTries records next selected)
    (hTries : selected.tries < 0)
    (hPast : ImageFailed past) :
    Trace.Holds (StepKept crc32 loader.toBoard records) past
      (bootRetire crc32 loader io
        (dreadCopies loader.toBoard (fun _ => true) disk)
        slot records next selected disk) := by
  have hCanonical := hState.canonical
  have hOne := hCanonical.tries_eq_of_neg hFirst.entry hTries
  have hAppend :
      ∀ past (step : BootEvent × Disk),
        ImageFailed past → ImageFailed (past ++ [step]) := by
    rintro past step ⟨failed, hMem, hEvent⟩
    exact ⟨failed, List.mem_append_left _ hMem, hEvent⟩
  have hChanged :
      ∀ past current,
        ImageFailed past →
        current = records ∨
          current =
            records.set next (selected.withTries 0) →
        Changed records past current := by
    rintro past current hPast (rfl | rfl)
    · exact .same
    · exact .retire hFirst hOne hPast
  unfold bootRetire
  rw [if_pos hTries]
  apply holds_persistSteps _ _ _ hPast
  · intro past step hPast hStep
    refine ⟨?_, hAppend _ _ hPast⟩
    rcases hState.persist_steps io.retire step hStep with
      ⟨slot', current, hCurrent, hEither⟩
    exact
      .of_permanent hCanonical hFirst hTries (by simp)
        (by simp)
        ⟨slot', current, hCurrent,
          hChanged past current hPast hEither⟩
  · intro past hPast _
    rcases hState.persist_disk io.retire _ with
      ⟨slot', current, hCurrent, hEither⟩
    exact
      .of_permanent hCanonical hFirst hTries (by simp)
        (by simp)
        ⟨slot', current, hCurrent,
          hChanged past current hPast hEither⟩
  · intro past hPast hDone
    have hCurrent := hState.persist_done hDone
    refine ⟨?_, ?_, trivial⟩
    · exact
        .of_permanent hCanonical hFirst hTries (by simp)
          (by simp)
          ⟨_, _, hCurrent, hChanged _ _ hPast (Or.inr rfl)⟩
    · exact
        .of_permanent hCanonical hFirst hTries (by simp)
          (by simp)
          ⟨_, _, hCurrent,
            hChanged _ _ (hAppend _ _ hPast) (Or.inr rfl)⟩

/- The launch of a permanent record. -/
theorem holds_bootLaunch_permanent
    {past : BootSteps}
    (hState :
      EnvironmentState crc32 loader.toBoard disk slot records)
    (hFirst : FirstTries records next selected)
    (hTries : selected.tries < 0) :
    Trace.Holds (StepKept crc32 loader.toBoard records) past
      (bootLaunch crc32 loader io
        (dreadCopies loader.toBoard (fun _ => true) disk)
        slot records next selected disk) := by
  have hKept :
      ∀ past event,
        (∀ slot read, event ≠ .selected slot read) →
        (∀ record,
          event = .launched record → record = selected) →
        StepKept crc32 loader.toBoard records past
          (event, disk) :=
    fun past event hSelected hLaunched =>
      .of_permanent hState.canonical hFirst hTries hSelected
        hLaunched ⟨slot, records, hState, .same⟩
  unfold bootLaunch
  split_ifs with hFit hReturns
  · refine ⟨hKept _ _ (by simp) (by simp), ?_⟩
    refine ⟨hKept _ _ (by simp) (by simp), ?_⟩
    exact
      holds_bootRetire hState hFirst hTries
        ⟨(.returned, disk), by simp, Or.inl rfl⟩
  · exact ⟨hKept _ _ (by simp) (by simp), trivial⟩
  · refine ⟨hKept _ _ (by simp) (by simp), ?_⟩
    exact
      holds_bootRetire hState hFirst hTries
        ⟨(.unavailable, disk), by simp, Or.inr rfl⟩

/- The launch of a record whose decrement is persisted. -/
theorem holds_bootLaunch_attempted
    {past : BootSteps}
    {copies : Copies}
    {slot' : Fin 2}
    (hCanonical : Canonical records)
    (hFirst : FirstTries records next selected)
    (hTries : 0 < selected.tries)
    (hState :
      EnvironmentState crc32 loader.toBoard disk slot'
        (records.set next
          (selected.withTries (selected.tries - 1))))
    (hPast :
      (BootEvent.persisted
          (records.set next
            (selected.withTries (selected.tries - 1))),
        disk) ∈ past) :
    Trace.Holds (StepKept crc32 loader.toBoard records) past
      (bootLaunch crc32 loader io copies slot
        (records.set next
          (selected.withTries (selected.tries - 1)))
        next (selected.withTries (selected.tries - 1))
        disk) := by
  have hKept :
      ∀ past event,
        (BootEvent.persisted
            (records.set next
              (selected.withTries (selected.tries - 1))),
          disk) ∈ past →
        (∀ slot read, event ≠ .selected slot read) →
        (∀ record,
          event = .launched record →
            record.id = selected.id) →
        StepKept crc32 loader.toBoard records past
          (event, disk) :=
    fun past event hPast hSelected hLaunched =>
      .of_attempted hCanonical hFirst hTries hState
        (Or.inr ⟨hPast, hLaunched⟩) hSelected
  have hReset :
      bootRetire crc32 loader io copies slot
          (records.set next
            (selected.withTries (selected.tries - 1)))
          next (selected.withTries (selected.tries - 1))
          disk =
        [(.reset, disk)] := by
    rw [bootRetire, if_neg]
    simp only [MicaBootRecord.withTries]
    omega
  have hLaunch :
      ∀ record,
        BootEvent.launched
            (selected.withTries (selected.tries - 1)) =
          .launched record →
        record.id = selected.id := by
    intro record hRecord
    cases hRecord
    rfl
  unfold bootLaunch
  rw [hReset]
  split_ifs with hFit hReturns
  · exact
      ⟨hKept _ _ hPast (by simp) hLaunch,
        hKept _ _ (by simp [hPast]) (by simp) (by simp),
        hKept _ _ (by simp [hPast]) (by simp) (by simp),
        trivial⟩
  · exact ⟨hKept _ _ hPast (by simp) hLaunch, trivial⟩
  · exact
      ⟨hKept _ _ hPast (by simp) (by simp),
        hKept _ _ (by simp [hPast]) (by simp) (by simp),
        trivial⟩

/- The steps after the records have been read. -/
theorem holds_bootSelected
    {past : BootSteps}
    (hState :
      EnvironmentState crc32 loader.toBoard disk slot records)
    (hPast : Unlaunched past) :
    Trace.Holds (StepKept crc32 loader.toBoard records) past
      (bootSelected crc32 loader io
        (dreadCopies loader.toBoard (fun _ => true) disk)
        slot records disk) := by
  have hCanonical := hState.canonical
  unfold bootSelected
  cases hNext : micaBootNext records with
  | none =>
      exact
        ⟨.of_unlaunched hPast (by simp) (by simp)
          ⟨slot, records, hState, .same⟩, trivial⟩
  | some next =>
      rcases firstTries_of_micaBootNext hNext with
        ⟨selected, hFirst⟩
      simp only [hFirst.entry]
      split_ifs with hTries
      · have hChanged :
            ∀ past current,
              current = records ∨
                current =
                  records.set next
                    (selected.withTries
                      (selected.tries - 1)) →
              Changed records past current := by
          rintro past current (rfl | rfl)
          · exact .same
          · exact .attempt hFirst hTries
        apply holds_persistSteps _ _ _ hPast
        · intro past step hPast hStep
          refine ⟨?_, hPast.append (by simp)⟩
          rcases hState.persist_steps io.attempt step hStep with
            ⟨slot', current, hCurrent, hEither⟩
          exact
            .of_unlaunched hPast (by simp) (by simp)
              ⟨slot', current, hCurrent,
                hChanged past current hEither⟩
        · intro past hPast _
          rcases hState.persist_disk io.attempt _ with
            ⟨slot', current, hCurrent, hEither⟩
          exact
            .of_unlaunched hPast (by simp) (by simp)
              ⟨slot', current, hCurrent,
                hChanged past current hEither⟩
        · intro past hPast hDone
          have hCurrent := hState.persist_done hDone
          exact
            ⟨.of_attempted hCanonical hFirst hTries hCurrent
              (Or.inl rfl) (by simp),
              holds_bootLaunch_attempted hCanonical hFirst
                hTries hCurrent (by simp)⟩
      · have hNeg : selected.tries < 0 := by
          have hNe := hFirst.tries
          omega
        exact holds_bootLaunch_permanent hState hFirst hNeg

/- The steps of a run, on a disk that can be read. -/
theorem micaFileBoot_steps
    (hState :
      EnvironmentState crc32 loader.toBoard disk slot records)
    (hReadable : ∀ t, io.readable t = true) :
    Trace.Holds (StepKept crc32 loader.toBoard records) []
      (micaFileBoot crc32 loader io disk) := by
  have hPast : Unlaunched [] := by simp [Unlaunched]
  have hSame :
      ∃ slot current,
        EnvironmentState crc32 loader.toBoard disk slot
            current ∧
          Changed records [] current :=
    ⟨slot, records, hState, .same⟩
  have hIntact : io.readable = fun _ => true :=
    funext hReadable
  have hSelect :
      selectEnvironment crc32 (fun _ => true)
          (dreadCopies loader.toBoard (fun _ => true) disk) =
        some (slot, records) :=
    hState.reads
  unfold micaFileBoot
  cases hPreflight : preflight loader io.preflight with
  | some reason =>
      exact
        ⟨.of_unlaunched hPast (by simp) (by simp) hSame,
          trivial⟩
  | none =>
      simp only [hIntact, hSelect]
      refine ⟨⟨?_, hSame, by simp, by simp⟩, ?_⟩
      · intro slot' read hRead
        cases hRead
        rfl
      · exact
          holds_bootSelected hState (hPast.append (by simp))

end Checksum

------------------------------------------------------------
-- Launches Of One Run
------------------------------------------------------------

/- The event hands the record of the id to bootm. -/
def BootEvent.launches
    (id : CString 64) : BootEvent → Bool
| .launched record => record.id = id
| _ => false

/- How often the record of the id is handed to bootm. -/
def launches (id : CString 64) (steps : BootSteps) : Nat :=
  steps.countP (fun step => step.1.launches id)

@[simp] theorem launches_nil (id : CString 64) :
    launches id [] = 0 := rfl

@[simp] theorem launches_cons
    (id : CString 64)
    (step : BootEvent × Disk)
    (rest : BootSteps) :
    launches id (step :: rest) =
      launches id rest +
        if step.1.launches id then 1 else 0 :=
  List.countP_cons

@[simp] theorem launches_append
    (id : CString 64)
    (front back : BootSteps) :
    launches id (front ++ back) =
      launches id front + launches id back :=
  List.countP_append

section Checksum

variable (crc32 : List UInt8 → UInt32)

variable (loader : Loader)

variable (io : BootIo)

/- A persist launches nothing but what follows it. -/
theorem launches_persistSteps_le
    {id : CString 64}
    {bound : Nat}
    (persist : Persist)
    (disk : Disk)
    (records : MicaBootRecords)
    (failure : String)
    {rest : Disk → BootSteps}
    (hRest : ∀ disk, launches id (rest disk) ≤ bound) :
    launches id
        (persistSteps persist disk records failure rest) ≤
      bound := by
  have hRequests :
      launches id
          (persist.steps.map fun step =>
            (BootEvent.request step.1, step.2)) =
        0 := by
    simp [launches, List.countP_map, BootEvent.launches,
      List.countP_eq_zero]
  rw [persistSteps, launches_append, hRequests, Nat.zero_add]
  cases persist.reply with
  | powerCut => simp
  | failed => simp [BootEvent.launches]
  | done => simpa [BootEvent.launches] using hRest _

/- Retiring launches nothing. -/
theorem launches_bootRetire
    (id : CString 64)
    (copies : Copies)
    (slot : Fin 2)
    (records : MicaBootRecords)
    (next : Nat)
    (selected : MicaBootRecord)
    (disk : Disk) :
    launches id
        (bootRetire crc32 loader io copies slot records next
          selected disk) =
      0 := by
  rw [← Nat.le_zero, bootRetire]
  split_ifs
  · apply launches_persistSteps_le
    simp [BootEvent.launches]
  · simp [BootEvent.launches]

/- A launch is the only one of its run. -/
theorem launches_bootLaunch_le
    (id : CString 64)
    (copies : Copies)
    (slot : Fin 2)
    (records : MicaBootRecords)
    (next : Nat)
    (selected : MicaBootRecord)
    (disk : Disk) :
    launches id
        (bootLaunch crc32 loader io copies slot records next
          selected disk) ≤
      1 := by
  have hRetire :=
    launches_bootRetire crc32 loader io id copies slot records
      next selected disk
  have hOne :
      (if decide (selected.id = id) then 1 else 0) ≤ 1 := by
    split_ifs <;> simp
  unfold bootLaunch
  split_ifs
  · simpa [hRetire, BootEvent.launches] using hOne
  · simpa [BootEvent.launches] using hOne
  · simp [hRetire, BootEvent.launches]

/- A run launches a record at most once. -/
theorem launches_micaFileBoot_le
    (id : CString 64)
    (disk : Disk) :
    launches id (micaFileBoot crc32 loader io disk) ≤ 1 := by
  have hSelected :
      ∀ copies slot records,
        launches id
            (bootSelected crc32 loader io copies slot records
              disk) ≤
          1 := by
    intro copies slot records
    unfold bootSelected
    split
    · simp [BootEvent.launches]
    · split
      · simp
      · split_ifs
        · apply launches_persistSteps_le
          intro disk
          exact
            launches_bootLaunch_le crc32 loader io id _ slot _
              _ _ disk
        · exact
            launches_bootLaunch_le crc32 loader io id copies
              slot _ _ _ disk
  unfold micaFileBoot
  split
  · simp [BootEvent.launches]
  · simp only
    split
    · simp [BootEvent.launches]
    · simpa [BootEvent.launches]
        using hSelected _ _ _

------------------------------------------------------------
-- The Disk After A Run
------------------------------------------------------------

/- The same records but for their tries. -/
def SameRecords (left right : MicaBootRecords) : Prop :=
  left.map (fun record => record.withTries 0) =
    right.map (fun record => record.withTries 0)

/- Two records at one place differ in their tries. -/
theorem SameRecords.withTries_eq
    {left right : MicaBootRecords}
    (hSame : SameRecords left right)
    {i : Nat}
    {record : MicaBootRecord}
    (hRecord : left[i]? = some record) :
    ∃ tries, right[i]? = some (record.withTries tries) := by
  have hAt := congrArg (fun records => records[i]?) hSame
  simp only [List.getElem?_map, hRecord,
    Option.map_some] at hAt
  rcases Option.map_eq_some_iff.mp hAt.symm with
    ⟨other, hOther, hFields⟩
  refine ⟨other.tries, ?_⟩
  rw [hOther]
  cases record
  cases other
  cases hFields
  rfl

/- Setting the tries of an entry keeps the records. -/
theorem sameRecords_set
    {records : MicaBootRecords}
    {next : Nat}
    {selected : MicaBootRecord}
    (hEntry : records[next]? = some selected)
    (tries : Int) :
    SameRecords records
      (records.set next (selected.withTries tries)) := by
  apply List.ext_getElem?
  intro i
  rw [List.getElem?_map, List.getElem?_map,
    List.getElem?_set]
  split_ifs with hIndex hLength
  · subst hIndex
    rw [hEntry]
    rfl
  · subst hIndex
    rw [List.getElem?_eq_none (not_lt.mp hLength)]
  · rfl

/- A run changes nothing but tries. -/
theorem Changed.sameRecords
    {records current : MicaBootRecords}
    {past : BootSteps}
    (hChanged : Changed records past current) :
    SameRecords records current := by
  cases hChanged with
  | same => rfl
  | attempt hFirst _ => exact sameRecords_set hFirst.entry _
  | retire hFirst _ _ => exact sameRecords_set hFirst.entry _

/- Tries that are not permanent never grow. -/
theorem Changed.tries_le
    {records current : MicaBootRecords}
    {past : BootSteps}
    (hChanged : Changed records past current)
    {i : Nat}
    {before after : MicaBootRecord}
    (hBefore : records[i]? = some before)
    (hAfter : current[i]? = some after)
    (hTries : 0 ≤ before.tries) :
    0 ≤ after.tries ∧ after.tries ≤ before.tries := by
  cases hChanged with
  | same =>
      rw [hBefore] at hAfter
      cases hAfter
      exact ⟨hTries, le_refl _⟩
  | @attempt next selected hFirst hPos =>
      rw [List.getElem?_set] at hAfter
      split_ifs at hAfter with hIndex hLength
      · subst hIndex
        rw [hFirst.entry] at hBefore
        cases hBefore
        cases hAfter
        simp only [MicaBootRecord.withTries]
        omega
      · rw [hBefore] at hAfter
        cases hAfter
        exact ⟨hTries, le_refl _⟩
  | @retire next selected hFirst hNeg _ =>
      rw [List.getElem?_set] at hAfter
      split_ifs at hAfter with hIndex hLength
      · subst hIndex
        rw [hFirst.entry] at hBefore
        cases hBefore
        omega
      · rw [hBefore] at hAfter
        cases hAfter
        exact ⟨hTries, le_refl _⟩

variable {crc32 loader io}

/- What kept steps leave on the disk. -/
theorem stepsDisk_kept
    {disk : Disk}
    {slot : Fin 2}
    {records : MicaBootRecords}
    {steps : BootSteps}
    (hState :
      EnvironmentState crc32 loader.toBoard disk slot records)
    (hKept :
      Trace.Holds (StepKept crc32 loader.toBoard records) []
        steps) :
    (∃ slot' current,
      EnvironmentState crc32 loader.toBoard
        (stepsDisk disk steps) slot' current ∧
        Changed records steps current) ∧
      ∀ record disk' next selected,
        (BootEvent.launched record, disk') ∈ steps →
        FirstTries records next selected →
        0 < selected.tries →
        ∃ slot',
          EnvironmentState crc32 loader.toBoard
            (stepsDisk disk steps) slot'
            (records.set next
              (selected.withTries (selected.tries - 1))) := by
  rcases List.eq_nil_or_concat steps with rfl | ⟨init, last, rfl⟩
  · exact ⟨⟨slot, records, hState, .same⟩, by simp⟩
  · have hLast :=
      Trace.holds_iff.mp hKept init last [] (by simp)
    rw [List.nil_append] at hLast
    have hDisk :
        stepsDisk disk (init ++ [last]) = last.2 := by
      simp [stepsDisk]
    rw [List.concat_eq_append, hDisk]
    refine ⟨?_, hLast.later⟩
    rcases hLast.holds with ⟨slot', current, hState', hChanged⟩
    refine ⟨slot', current, hState', ?_⟩
    cases hChanged with
    | same => exact .same
    | attempt hFirst hTries => exact .attempt hFirst hTries
    | retire hFirst hTries hFailed =>
        rcases hFailed with ⟨step, hMem, hEvent⟩
        exact
          .retire hFirst hTries
            ⟨step, List.mem_append_left _ hMem, hEvent⟩

end Checksum

end Boot

end MicaBoards
