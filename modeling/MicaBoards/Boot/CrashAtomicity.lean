import MicaBoards.Boot.EnvironmentCorrectness

/-
  The redundant environment is crash-atomic.

  A persist writes the copy that is not selected. Whatever
  part of the write is on the medium afterwards, the next
  read selects the old records or the new ones, and over any
  run of persists it selects those of the last persist that
  took effect.

  Main declarations:
    * `EnvironmentState`
    * `PersistIo.takesEffect`
    * `EnvironmentState.persist`
    * `environment_crashAtomic`
-/

------------------------------------------------------------
-- The State Of The Environment
------------------------------------------------------------

namespace MicaBoards

namespace Boot

section Checksum

variable (crc32 : List UInt8 → UInt32)

variable (board : Board)

/-
  The disk holds `records` in the copy `slot`, and the other
  copy is zero past its first block.
-/
structure EnvironmentState
    (disk : Disk)
    (slot : Fin 2)
    (records : MicaBootRecords) : Prop where
  reads :
    readEnvironment crc32 board (fun _ => true) disk =
      some (slot, records)
  zeroTail : ZeroTail (dreadCopy board disk (1 - slot))

/- The write and the flush it needs have succeeded. -/
def PersistIo.durable (io : PersistIo) : Bool :=
  io.write = .done ∧ (board.flushes → io.flush = .done)

/-
  The first block of the new copy is on the medium after the
  persist.
-/
def PersistIo.takesEffect (io : PersistIo) : Bool :=
  io.durable board ∨ io.landed 0

/- The copy a selection has read. -/
@[simp] theorem dreadCopies_intact
    (disk : Disk)
    (slot : Fin 2) :
    dreadCopies board (fun _ => true) disk slot =
      dreadCopy board disk slot := rfl

variable {crc32}

variable {board}

/- The selected copy decodes to the records. -/
theorem EnvironmentState.decode
    {disk : Disk}
    {slot : Fin 2}
    {records : MicaBootRecords}
    (hState : EnvironmentState crc32 board disk slot records) :
    decodeEnvironment (dreadCopy board disk slot) =
      some records :=
  ((selectEnvironment_eq_some_iff crc32).mp hState.reads).2

/- The selected copy is valid. -/
theorem EnvironmentState.valid
    {disk : Disk}
    {slot : Fin 2}
    {records : MicaBootRecords}
    (hState : EnvironmentState crc32 board disk slot records) :
    validEnvironment crc32 (dreadCopy board disk slot) =
      true := by
  have hSlot :=
    ((selectEnvironment_eq_some_iff crc32).mp hState.reads).1
  simpa using
    @valid_of_micaBootSlot
      (fun t => true && validEnvironment crc32
        (dreadCopies board (fun _ => true) disk t))
      _ _ _ hSlot

/- The records of a state are canonical. -/
theorem EnvironmentState.canonical
    {disk : Disk}
    {slot : Fin 2}
    {records : MicaBootRecords}
    (hState : EnvironmentState crc32 board disk slot records) :
    Canonical records :=
  canonical_of_decodeEnvironment hState.decode

/- A disk holds one list of records. -/
theorem EnvironmentState.records_unique
    {disk : Disk}
    {left right : Fin 2}
    {records others : MicaBootRecords}
    (hLeft : EnvironmentState crc32 board disk left records)
    (hRight : EnvironmentState crc32 board disk right others) :
    records = others := by
  have hSame := hLeft.reads.symm.trans hRight.reads
  simp only [Option.some.injEq, Prod.mk.injEq] at hSame
  exact hSame.2

------------------------------------------------------------
-- The Disk After A Persist
------------------------------------------------------------

/- Reads see the disk only through its two copies. -/
theorem readEnvironment_congr
    {disk disk' : Disk}
    (hCopies : ∀ slot,
      dreadCopy board disk' slot = dreadCopy board disk slot)
    (readable : Fin 2 → Bool) :
    readEnvironment crc32 board readable disk' =
      readEnvironment crc32 board readable disk := by
  have hSame :
      dreadCopies board readable disk' =
        dreadCopies board readable disk := by
    funext slot
    simp only [dreadCopies, hCopies]
  rw [readEnvironment, readEnvironment, hSame]

/- A durable persist has written the pending copy. -/
theorem persistEnvironment_disk_of_durable
    (crc32 : List UInt8 → UInt32)
    {board : Board}
    {io : PersistIo}
    (hDurable : io.durable board = true)
    (disk : Disk)
    (copies : Copies)
    (slot : Fin 2)
    {records : MicaBootRecords}
    {text : List UInt8}
    (hRender : micaBootRender records = some text) :
    (persistEnvironment crc32 board io disk copies slot
        records).disk disk =
      disk.write (board.envBlocks (1 - slot) * blockBytes)
        (pendingCopy crc32
          (environmentFlag (copies slot) + 1) text) := by
  simp only [PersistIo.durable, decide_eq_true_eq] at hDurable
  rcases hDurable with ⟨hWrite, hFlush⟩
  cases hBoard : board.flushes with
  | false =>
      simp [persistEnvironment, hRender, hWrite, hBoard,
        Persist.disk]
  | true =>
      simp [persistEnvironment, hRender, hWrite, hBoard,
        hFlush hBoard, Persist.disk]

/-
  A persist leaves a torn write of the pending copy, whose
  first block has landed exactly when the persist takes
  effect.
-/
theorem persistEnvironment_disk
    (crc32 : List UInt8 → UInt32)
    (board : Board)
    (io : PersistIo)
    (disk : Disk)
    (copies : Copies)
    (slot : Fin 2)
    {records : MicaBootRecords}
    {text : List UInt8}
    (hRender : micaBootRender records = some text) :
    ∃ landed : Nat → Bool,
      landed 0 = io.takesEffect board ∧
      (persistEnvironment crc32 board io disk copies slot
          records).disk disk =
        disk.tear blockBytes landed
          (board.envBlocks (1 - slot) * blockBytes)
          (pendingCopy crc32
            (environmentFlag (copies slot) + 1) text) := by
  by_cases hDurable : io.durable board = true
  · refine ⟨fun _ => true, by simp [PersistIo.takesEffect, hDurable], ?_⟩
    rw [persistEnvironment_disk_of_durable crc32 hDurable disk
      copies slot hRender]
    exact
      (Device.tear_all disk blockBytes _ fun _ _ => rfl).symm
  · refine ⟨io.landed, by simp [PersistIo.takesEffect, hDurable], ?_⟩
    simp only [PersistIo.durable, decide_eq_true_eq] at hDurable
    cases hWrite : io.write with
    | failed =>
        simp [persistEnvironment, hRender, hWrite, Persist.disk]
    | powerCut =>
        simp [persistEnvironment, hRender, hWrite, Persist.disk]
    | done =>
        -- the write succeeded, so the flush did not
        have hBoard : board.flushes = true := by
          by_contra hBoard
          exact hDurable ⟨hWrite, fun h => absurd h hBoard⟩
        have hFlush : io.flush ≠ .done :=
          fun h => hDurable ⟨hWrite, fun _ => h⟩
        cases hReply : io.flush with
        | done => exact absurd hReply hFlush
        | failed =>
            simp [persistEnvironment, hRender, hWrite, hBoard,
              hReply, Persist.disk]
        | powerCut =>
            simp [persistEnvironment, hRender, hWrite, hBoard,
              hReply, Persist.disk]

/- A list the renderer refuses leaves the disk as it is. -/
theorem persistEnvironment_disk_of_none
    (io : PersistIo)
    (disk : Disk)
    (copies : Copies)
    (slot : Fin 2)
    {records : MicaBootRecords}
    (hRender : micaBootRender records = none) :
    (persistEnvironment crc32 board io disk copies slot
        records).disk disk =
      disk := by
  simp [persistEnvironment, hRender, Persist.disk]

/- So does every step of the persist before its end. -/
theorem persistEnvironment_steps
    (crc32 : List UInt8 → UInt32)
    (board : Board)
    (io : PersistIo)
    (disk : Disk)
    (copies : Copies)
    (slot : Fin 2)
    {records : MicaBootRecords}
    {text : List UInt8}
    (hRender : micaBootRender records = some text) :
    ∀ step ∈
        (persistEnvironment crc32 board io disk copies slot
          records).steps,
      ∃ landed : Nat → Bool,
        step.2 =
          disk.tear blockBytes landed
            (board.envBlocks (1 - slot) * blockBytes)
            (pendingCopy crc32
              (environmentFlag (copies slot) + 1) text) := by
  let start := board.envBlocks (1 - slot) * blockBytes
  let pending :=
    pendingCopy crc32 (environmentFlag (copies slot) + 1) text
  have hTorn :
      ∃ landed : Nat → Bool,
        disk.tear blockBytes io.landed start pending =
          disk.tear blockBytes landed start pending :=
    ⟨io.landed, rfl⟩
  have hWritten :
      ∃ landed : Nat → Bool,
        disk.write start pending =
          disk.tear blockBytes landed start pending :=
    ⟨fun _ => true,
      (Device.tear_all disk blockBytes start
        fun _ _ => rfl).symm⟩
  intro step hStep
  simp only [persistEnvironment, hRender] at hStep
  split at hStep
  · rw [List.mem_singleton.mp hStep]
    exact hTorn
  · rw [List.mem_singleton.mp hStep]
    exact hTorn
  · split at hStep
    · split at hStep <;>
        simp only [List.mem_cons, List.not_mem_nil,
          or_false] at hStep
      · rcases hStep with rfl | rfl
        · exact hTorn
        · exact hTorn
      · rcases hStep with rfl | rfl
        · exact hTorn
        · exact hTorn
      · rcases hStep with rfl | rfl | rfl
        · exact hTorn
        · exact hWritten
        · exact hWritten
    · simp only [List.mem_cons, List.not_mem_nil,
        or_false] at hStep
      rcases hStep with rfl | rfl
      · exact hWritten
      · exact hWritten

/-
  A persist that succeeds has rendered the records and
  written the whole copy.
-/
theorem persistEnvironment_done
    {crc32 : List UInt8 → UInt32}
    {board : Board}
    {io : PersistIo}
    {disk : Disk}
    {copies : Copies}
    {slot : Fin 2}
    {records : MicaBootRecords}
    (hDone :
      (persistEnvironment crc32 board io disk copies slot
        records).reply = .done) :
    io.durable board = true ∧
      (micaBootRender records).isSome = true := by
  cases hRender : micaBootRender records with
  | none => simp [persistEnvironment, hRender] at hDone
  | some text =>
      refine ⟨?_, rfl⟩
      simp only [persistEnvironment, hRender] at hDone
      simp only [PersistIo.durable, decide_eq_true_eq]
      split at hDone
      · cases hDone
      · cases hDone
      · rename_i hWrite
        split at hDone
        · split at hDone
          · cases hDone
          · cases hDone
          · rename_i hFlush
            exact ⟨hWrite, fun _ => hFlush⟩
        · rename_i hBoard
          exact ⟨hWrite, fun h => absurd h hBoard⟩

/- A refused list makes no step. -/
theorem persistEnvironment_steps_of_none
    (crc32 : List UInt8 → UInt32)
    (board : Board)
    (io : PersistIo)
    (disk : Disk)
    (copies : Copies)
    (slot : Fin 2)
    {records : MicaBootRecords}
    (hRender : micaBootRender records = none) :
    (persistEnvironment crc32 board io disk copies slot
        records).steps =
      [] := by
  simp [persistEnvironment, hRender]

------------------------------------------------------------
-- Torn Writes
------------------------------------------------------------

/- A torn write of rendered records keeps a state. -/
theorem EnvironmentState.tear
    {disk : Disk}
    {slot : Fin 2}
    {records records' : MicaBootRecords}
    {text : List UInt8}
    (hState : EnvironmentState crc32 board disk slot records)
    (hRender : micaBootRender records' = some text)
    (landed : Nat → Bool) :
    let disk' :=
      disk.tear blockBytes landed
        (board.envBlocks (1 - slot) * blockBytes)
        (pendingCopy crc32
          (environmentFlag (dreadCopy board disk slot) + 1)
          text)
    if landed 0 then
      EnvironmentState crc32 board disk' (1 - slot) records'
    else
      EnvironmentState crc32 board disk' slot records := by
  intro disk'
  have hText := length_le_of_micaBootRender hRender
  have hLength :=
    length_pendingCopy crc32
      (environmentFlag (dreadCopy board disk slot) + 1) hText
  have hSame :
      dreadCopy board disk' slot = dreadCopy board disk slot :=
    dreadCopy_tear_other board disk landed slot hLength
  have hTorn :=
    dreadCopy_tear board disk landed (1 - slot) hLength
      (zeroTail_pendingCopy crc32 _ hRender) hState.zeroTail
  split_ifs at hTorn ⊢ with hFirst
  · constructor
    · apply selectEnvironment_pendingCopy crc32 _ hRender
      · rw [dreadCopies_intact, dreadCopies_intact, hSame]
        exact hTorn
      · rw [dreadCopies_intact, hSame]
        exact hState.valid
    · rw [show 1 - (1 - slot) = slot by omega, hSame]
      exact zeroTail_of_decodeEnvironment
        (Device.length_read _ _ _) hState.decode
  · have hCopies :
        ∀ t, dreadCopy board disk' t =
          dreadCopy board disk t := by
      intro t
      have hSlots : t = slot ∨ t = 1 - slot := by omega
      rcases hSlots with rfl | rfl
      · exact hSame
      · exact hTorn
    constructor
    · rw [readEnvironment_congr hCopies]
      exact hState.reads
    · rw [hCopies]
      exact hState.zeroTail

/-
  A persist keeps a state: that of the new records in the
  other copy when it takes effect, and else the old one.
-/
theorem EnvironmentState.persist
    {disk : Disk}
    {slot : Fin 2}
    {records records' : MicaBootRecords}
    (hState : EnvironmentState crc32 board disk slot records)
    (hRender : (micaBootRender records').isSome = true)
    (io : PersistIo) :
    let disk' :=
      (persistEnvironment crc32 board io disk
        (dreadCopies board (fun _ => true) disk) slot
        records').disk disk
    if io.takesEffect board then
      EnvironmentState crc32 board disk' (1 - slot) records'
    else
      EnvironmentState crc32 board disk' slot records := by
  rcases Option.isSome_iff_exists.mp hRender with
    ⟨text, hRender⟩
  rcases persistEnvironment_disk crc32 board io disk
      (dreadCopies board (fun _ => true) disk) slot hRender with
    ⟨landed, hFirst, hDisk⟩
  intro disk'
  have hTear := hState.tear hRender landed
  rw [hFirst] at hTear
  simp only [disk', hDisk]
  exact hTear

/- At each of its steps the records are old or new. -/
theorem EnvironmentState.persist_steps
    {disk : Disk}
    {slot : Fin 2}
    {records records' : MicaBootRecords}
    (hState : EnvironmentState crc32 board disk slot records)
    (io : PersistIo) :
    ∀ step ∈
        (persistEnvironment crc32 board io disk
          (dreadCopies board (fun _ => true) disk) slot
          records').steps,
      ∃ slot' current,
        EnvironmentState crc32 board step.2 slot' current ∧
          (current = records ∨ current = records') := by
  intro step hStep
  cases hRender : micaBootRender records' with
  | none =>
      rw [persistEnvironment_steps_of_none _ _ _ _ _ _ hRender]
        at hStep
      cases hStep
  | some text =>
      rcases persistEnvironment_steps crc32 board io disk _ slot
          hRender step hStep with
        ⟨landed, hDisk⟩
      have hTear := hState.tear hRender landed
      rw [dreadCopies_intact] at hDisk
      rw [hDisk]
      simp only at hTear
      split_ifs at hTear
      · exact ⟨_, _, hTear, Or.inr rfl⟩
      · exact ⟨_, _, hTear, Or.inl rfl⟩

/- After a persist that succeeds they are the new ones. -/
theorem EnvironmentState.persist_done
    {disk : Disk}
    {slot : Fin 2}
    {records records' : MicaBootRecords}
    (hState : EnvironmentState crc32 board disk slot records)
    {io : PersistIo}
    (hDone :
      (persistEnvironment crc32 board io disk
        (dreadCopies board (fun _ => true) disk) slot
        records').reply = .done) :
    EnvironmentState crc32 board
      ((persistEnvironment crc32 board io disk
        (dreadCopies board (fun _ => true) disk) slot
        records').disk disk)
      (1 - slot) records' := by
  rcases persistEnvironment_done hDone with
    ⟨hDurable, hRender⟩
  have hPersist := hState.persist hRender io
  simpa [PersistIo.takesEffect, hDurable] using hPersist

/- After any persist they are the old or the new ones. -/
theorem EnvironmentState.persist_disk
    {disk : Disk}
    {slot : Fin 2}
    {records : MicaBootRecords}
    (hState : EnvironmentState crc32 board disk slot records)
    (io : PersistIo)
    (records' : MicaBootRecords) :
    ∃ slot' current,
      EnvironmentState crc32 board
        ((persistEnvironment crc32 board io disk
          (dreadCopies board (fun _ => true) disk) slot
          records').disk disk)
        slot' current ∧
        (current = records ∨ current = records') := by
  cases hRender : micaBootRender records' with
  | none =>
      rw [persistEnvironment_disk_of_none _ _ _ _ hRender]
      exact ⟨slot, records, hState, Or.inl rfl⟩
  | some text =>
      have hSome : (micaBootRender records').isSome = true := by
        simp [hRender]
      have hPersist := hState.persist hSome io
      simp only at hPersist
      split_ifs at hPersist
      · exact ⟨_, _, hPersist, Or.inr rfl⟩
      · exact ⟨_, _, hPersist, Or.inl rfl⟩

------------------------------------------------------------
-- Runs Of Persists
------------------------------------------------------------

variable (crc32 board)

/-
  Read the environment and persist new records. Without a
  selected copy nothing is persisted.
-/
def readPersist
    (disk : Disk)
    (attempt : PersistIo × MicaBootRecords) : Disk :=
  let copies := dreadCopies board (fun _ => true) disk
  match selectEnvironment crc32 (fun _ => true) copies with
  | none => disk
  | some (slot, _) =>
      (persistEnvironment crc32 board attempt.1 disk copies
        slot attempt.2).disk disk

/- The records after one more attempt to persist some. -/
def latestRecords
    (records : MicaBootRecords)
    (attempt : PersistIo × MicaBootRecords) :
    MicaBootRecords :=
  if (micaBootRender attempt.2).isSome ∧
      attempt.1.takesEffect board then
    attempt.2
  else
    records

variable {crc32 board}

/- One attempt keeps a state. -/
theorem EnvironmentState.readPersist
    {disk : Disk}
    {slot : Fin 2}
    {records : MicaBootRecords}
    (hState : EnvironmentState crc32 board disk slot records)
    (attempt : PersistIo × MicaBootRecords) :
    ∃ slot',
      EnvironmentState crc32 board
        (readPersist crc32 board disk attempt) slot'
        (latestRecords board records attempt) := by
  have hSelect :
      selectEnvironment crc32 (fun _ => true)
          (dreadCopies board (fun _ => true) disk) =
        some (slot, records) :=
    hState.reads
  unfold Boot.readPersist
  simp only [hSelect]
  cases hRender : micaBootRender attempt.2 with
  | none =>
      refine ⟨slot, ?_⟩
      rw [persistEnvironment_disk_of_none _ _ _ _ hRender]
      simpa [latestRecords, hRender] using hState
  | some text =>
      have hSome : (micaBootRender attempt.2).isSome = true := by
        simp [hRender]
      have hPersist := hState.persist hSome attempt.1
      cases hEffect : attempt.1.takesEffect board with
      | true =>
          refine ⟨1 - slot, ?_⟩
          simpa [latestRecords, hRender, hEffect]
            using hPersist
      | false =>
          refine ⟨slot, ?_⟩
          simpa [latestRecords, hRender, hEffect]
            using hPersist

/- A run of attempts keeps a state. -/
theorem EnvironmentState.run
    {disk : Disk}
    {slot : Fin 2}
    {records : MicaBootRecords}
    (hState : EnvironmentState crc32 board disk slot records)
    (attempts : List (PersistIo × MicaBootRecords)) :
    ∃ slot',
      EnvironmentState crc32 board
        (attempts.foldl (Boot.readPersist crc32 board) disk)
        slot'
        (attempts.foldl (latestRecords board) records) := by
  induction attempts generalizing disk slot records with
  | nil => exact ⟨slot, hState⟩
  | cons attempt attempts ih =>
      rcases hState.readPersist attempt with ⟨next, hNext⟩
      simp only [List.foldl_cons]
      exact ih hNext

------------------------------------------------------------
-- A Disk With One Copy
------------------------------------------------------------

/- A disk of zeros with one copy, in the first slot. -/
def writtenDisk
    (crc32 : List UInt8 → UInt32)
    (board : Board)
    (text : List UInt8) : Disk :=
  (Device.filled 0).write (board.envBlocks 0 * blockBytes)
    (pendingCopy crc32 0 text)

/- The copy of the first slot is the one written. -/
theorem dreadCopy_writtenDisk_zero
    {text : List UInt8}
    (hText : text.length ≤ micaBootValueLimit) :
    dreadCopy board (writtenDisk crc32 board text) 0 =
      pendingCopy crc32 0 text := by
  exact
    dreadCopy_write_self board _ 0
      (length_pendingCopy crc32 0 hText)

/- The other copy is zero. -/
theorem dreadCopy_writtenDisk_one
    {text : List UInt8}
    (hText : text.length ≤ micaBootValueLimit) :
    dreadCopy board (writtenDisk crc32 board text) 1 =
      List.replicate micaEnvSize 0 := by
  have hOther :=
    dreadCopy_write_other board (Device.filled 0) 1
      (length_pendingCopy crc32 0 hText)
  rw [show (1 - 1 : Fin 2) = 0 from rfl] at hOther
  rw [writtenDisk, hOther]
  exact Device.read_filled _ _ _

/- The disk holds the records of its one copy. -/
theorem environmentState_writtenDisk
    {records : MicaBootRecords}
    {text : List UInt8}
    (hRender : micaBootRender records = some text)
    (hChecksum :
      crc32 (List.replicate (micaEnvSize - 5) 0) ≠ 0) :
    EnvironmentState crc32 board
      (writtenDisk crc32 board text) 0 records := by
  have hText := length_le_of_micaBootRender hRender
  have hZero := @dreadCopy_writtenDisk_zero crc32 board _ hText
  have hOne := @dreadCopy_writtenDisk_one crc32 board _ hText
  have hSize : micaEnvSize = 65536 := rfl
  have hInvalid :
      validEnvironment crc32 (List.replicate micaEnvSize 0) =
        false := by
    apply decide_eq_false
    rw [List.drop_replicate, List.take_replicate, min_self]
    intro hSame
    apply hChecksum
    rw [← hSame, hSize]
    rfl
  constructor
  · apply (selectEnvironment_eq_some_iff crc32).mpr
    simp only [dreadCopies_intact, hZero, hOne, hInvalid,
      validEnvironment_pendingCopy, Bool.and_true,
      Bool.and_false]
    exact ⟨rfl, decodeEnvironment_pendingCopy crc32 0 hRender⟩
  · rw [show (1 - 0 : Fin 2) = 1 from rfl, hOne]
    intro b hb
    exact List.eq_of_mem_replicate (List.mem_of_mem_drop hb)

/- A record with an id of zeros. -/
def zeroRecord (tries : Int) : MicaBootRecord where
  id := ⟨List.replicate 64 48, by simp, by simp⟩
  kernel := ⟨List.replicate 64 48, by simp, by simp⟩
  generation := 1
  tries := tries

/- Alone it is canonical. -/
theorem canonical_zeroRecord
    {tries : Int}
    (hLow : -1 ≤ tries)
    (hHigh : tries ≤ 3) :
    Canonical [zeroRecord tries] := by
  have hId : (zeroRecord tries).id.IsId := by
    constructor
    · simp [zeroRecord]
    · intro b hb
      rw [List.eq_of_mem_replicate hb]
      rfl
  refine ⟨by simp, by simp [micaBootRecordLimit], ?_, by simp⟩
  intro r hr
  rw [List.mem_singleton.mp hr]
  exact ⟨hId, hId, by simp [zeroRecord],
    by simp [zeroRecord, micaBootGenerationLimit], hLow, hHigh⟩

/- The renderer accepts it. -/
theorem micaBootRender_zeroRecord
    {tries : Int}
    (hLow : -1 ≤ tries)
    (hHigh : tries ≤ 3) :
    micaBootRender [zeroRecord tries] =
      some (micaBootText [zeroRecord tries]) :=
  micaBootRender_eq_some_iff.mpr
    ⟨canonical_zeroRecord hLow hHigh, rfl⟩

------------------------------------------------------------
-- Crash Atomicity
------------------------------------------------------------

/- The power is cut with the blocks `landed` on the medium. -/
def PersistIo.cut (landed : Nat → Bool) : PersistIo where
  write := .powerCut
  flush := .done
  readback := .done
  landed := landed

/-
  Whatever blocks of a persist's write are on the medium when
  the power is cut, the next read selects the old records in
  their copy or the new ones in the other copy, and the new
  ones once every block is there. Over a run of persists the
  records read are those of the last one that took effect.
-/
theorem environment_crashAtomic
    {disk : Disk}
    {slot : Fin 2}
    {records : MicaBootRecords}
    (hReads :
      readEnvironment crc32 board (fun _ => true) disk =
        some (slot, records))
    (hTail : ZeroTail (dreadCopy board disk (1 - slot))) :
    (∀ records' landed,
      (micaBootRender records').isSome = true →
      let disk' :=
        (persistEnvironment crc32 board (.cut landed) disk
          (dreadCopies board (fun _ => true) disk) slot
          records').disk disk
      (readEnvironment crc32 board (fun _ => true) disk' =
            some (slot, records) ∨
          readEnvironment crc32 board (fun _ => true) disk' =
            some (1 - slot, records')) ∧
        ((∀ block < micaEnvBlocks, landed block = true) →
          readEnvironment crc32 board (fun _ => true) disk' =
            some (1 - slot, records'))) ∧
      ∀ attempts : List (PersistIo × MicaBootRecords),
        ∃ slot',
          readEnvironment crc32 board (fun _ => true)
              (attempts.foldl (readPersist crc32 board)
                disk) =
            some (slot',
              attempts.foldl (latestRecords board)
                records) := by
  have hState : EnvironmentState crc32 board disk slot records :=
    ⟨hReads, hTail⟩
  constructor
  · intro records' landed hRender disk'
    have hPersist := hState.persist hRender (.cut landed)
    have hEffect :
        (PersistIo.cut landed).takesEffect board =
          landed 0 := by
      simp [PersistIo.takesEffect, PersistIo.durable,
        PersistIo.cut]
    simp only [hEffect] at hPersist
    cases hFirst : landed 0 with
    | true =>
        rw [if_pos hFirst] at hPersist
        exact ⟨Or.inr hPersist.reads, fun _ => hPersist.reads⟩
    | false =>
        rw [if_neg (by simp [hFirst])] at hPersist
        refine ⟨Or.inl hPersist.reads, fun hAll => ?_⟩
        have hBlocks : 0 < micaEnvBlocks := by
          simp [micaEnvBlocks, micaEnvSize, blockBytes]
        have hLanded := hAll 0 hBlocks
        rw [hFirst] at hLanded
        cases hLanded
  · intro attempts
    rcases hState.run attempts with ⟨slot', hRun⟩
    exact ⟨slot', hRun.reads⟩

/- A trial's decrement, cut with every other block written. -/
theorem environment_crashAtomic_trial :
    let crc32 : List UInt8 → UInt32 := fun _ => 1
    let disk :=
      writtenDisk crc32 cx3576 (micaBootText [zeroRecord 3])
    let disk' :=
      (persistEnvironment crc32 cx3576
        (.cut fun block => block % 2 = 1) disk
        (dreadCopies cx3576 (fun _ => true) disk) 0
        [zeroRecord 2]).disk disk
    readEnvironment crc32 cx3576 (fun _ => true) disk' =
        some (0, [zeroRecord 3]) ∨
      readEnvironment crc32 cx3576 (fun _ => true) disk' =
        some (1, [zeroRecord 2]) := by
  intro crc32 disk disk'
  have hState :
      EnvironmentState crc32 cx3576 disk 0 [zeroRecord 3] :=
    environmentState_writtenDisk
      (micaBootRender_zeroRecord (by decide) (by decide))
      (by decide)
  have hRender :
      (micaBootRender [zeroRecord 2]).isSome = true := by
    rw [micaBootRender_zeroRecord (by decide) (by decide)]
    rfl
  exact
    ((environment_crashAtomic hState.reads hState.zeroTail).1
      [zeroRecord 2] (fun block => block % 2 = 1) hRender).1

end Checksum

end Boot

end MicaBoards
