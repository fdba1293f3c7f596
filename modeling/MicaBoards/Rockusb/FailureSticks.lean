import MicaBoards.Foundations.Schedule
import MicaBoards.Rockusb.WriteCache

/-
  A write of the cache that has failed is not forgotten. Each
  call has a device of its own, which may write fewer blocks
  than it is asked to, or none.

  Key definitions include:
    * `rxHandlerCommandCsw` and `rxHandlerDlImage`
    * `RockusbCall.flushes` and `flushRequest`
    * `Aligned` and `Sticky`
  Main declarations:
    * `cacheFailure_sticks`
-/

------------------------------------------------------------
-- Answers
------------------------------------------------------------

namespace MicaBoards

namespace Rockusb

/- CSW_GOOD and CSW_FAIL -/
inductive CswStatus where
| good
| fail
deriving DecidableEq, Repr

/- What `rockusb_tx_write_csw` is called with. -/
structure Csw where
  tag : UInt32
  residue : UInt32
  status : CswStatus
deriving DecidableEq, Repr

section Cache

variable (blksz : Nat)

variable (blkDwrite : BlkDwrite)

/- K_FW_LBA_WRITE_10 -/
variable (kFwLbaWrite10 : UInt8)

/-
  The status that `rx_handler_command` answers at once, none
  where it dispatches the command.
-/
def rxHandlerCommandCsw
    (rkusb : FRockusb)
    (command : UInt8)
    (tag dataTransferLength : UInt32) : Option Csw :=
  if (rxHandlerCommand blksz blkDwrite kFwLbaWrite10 rkusb
      command).2 then
    none
  else
    some ⟨tag, dataTransferLength, .fail⟩

/-
  The write of `rx_handler_dl_image`, and the status that it
  answers at once, none where the transfer goes on.
-/
def rxHandlerDlImage
    (rkusb : FRockusb)
    (tag : UInt32)
    (lba : Nat)
    (buffer : List UInt8)
    (now : UInt64) : FRockusb × Option Csw :=
  match rockusbCacheWrite blksz blkDwrite (getRkusb rkusb) lba
      buffer now with
  | (written, some _) => (written, some ⟨tag, 0, .fail⟩)
  | (written, none) => (written, none)

------------------------------------------------------------
-- Requests
------------------------------------------------------------

/-
  What `rockusb_flush_write_cache` asks `blk_dwrite` for: a
  block address, and how many blocks.
-/
def flushRequest (rkusb : FRockusb) : Option (Nat × Nat) :=
  if rkusb.writeCacheFailed ∨ rkusb.writeCacheBytes = 0 ∨
      rkusb.writeCache.isNone ∨
      rkusb.writeCacheBytes % blksz ≠ 0 then
    none
  else
    some (rkusb.writeCacheLba, rkusb.writeCacheBytes / blksz)

/- The flush of a copy that fills the cache. -/
def cacheCopyFlushes
    (rkusb : FRockusb)
    (lba : Nat)
    (buffer : List UInt8)
    (now : UInt64) : List FRockusb :=
  let copied := rkusb.copied lba buffer now
  if copied.writeCacheBytes = rkusbWriteCacheSize then [copied]
  else []

/- The flushes of `rockusb_cache_write`. -/
def cacheWriteFlushes
    (rkusb : FRockusb)
    (lba : Nat)
    (buffer : List UInt8)
    (now : UInt64) : List FRockusb :=
  if rkusb.writeCacheFailed then
    []
  else if sizeAccepted blksz buffer.length = false then
    []
  else if needsFlush blksz rkusb lba buffer.length then
    rkusb ::
      match rockusbFlushWriteCache blksz blkDwrite rkusb with
      | (_, some _) => []
      | (flushed, none) =>
          cacheCopyFlushes flushed lba buffer now
  else
    cacheCopyFlushes rkusb lba buffer now

/- The gadgets that a call hands to a flush, in order. -/
def RockusbCall.flushes
    (rkusb : FRockusb)
    (call : RockusbCall) : List FRockusb :=
  match call with
  | .cacheWrite lba buffer now =>
      cacheWriteFlushes blksz blkDwrite (getRkusb rkusb) lba
        buffer now
  | .flush => [rkusb]
  | .flushIfIdle now =>
      let rkusb := getRkusb rkusb
      if rkusb.writeCacheBytes = 0 ∨
          now - rkusb.writeCacheLastMs < rkusbWriteCacheIdleMs
      then
        []
      else
        [rkusb]
  | .command code =>
      if code = kFwLbaWrite10 then [] else [getRkusb rkusb]
  | .disable => [rkusb]

/- A flush writes fewer blocks than it asks for, or more. -/
def RequestFails (rkusb : FRockusb) : Prop :=
  ∃ lba blkcnt,
    flushRequest blksz rkusb = some (lba, blkcnt) ∧
      blkDwrite lba blkcnt ≠ blkcnt

/- A call with the device that it finds. -/
abbrev DeviceCall := RockusbCall × BlkDwrite

/- One call, with its device. -/
def DeviceCall.step
    (rkusb : FRockusb)
    (call : DeviceCall) : FRockusb :=
  call.1.step blksz call.2 kFwLbaWrite10 rkusb

/- The gadget after some calls. -/
def reached
    (device : Device UInt8)
    (calls : List DeviceCall) : FRockusb :=
  Schedule.run (DeviceCall.step blksz kFwLbaWrite10)
    (.start device) calls

/-
  What a gadget does from then on: it asks for no write, does
  not depend on the device, and refuses all that follows.
-/
structure Sticky (rkusb : FRockusb) : Prop where
  requests : ∀ (call : RockusbCall) (blkDwrite : BlkDwrite),
    (call.flushes blksz blkDwrite kFwLbaWrite10
      rkusb).filterMap (flushRequest blksz) = []
  unasked : ∀ (call : RockusbCall) (first second : BlkDwrite),
    call.step blksz first kFwLbaWrite10 rkusb =
      call.step blksz second kFwLbaWrite10 rkusb
  cacheWrite : ∀ (blkDwrite : BlkDwrite) (lba : Nat)
    (buffer : List UInt8) (now : UInt64),
    (rockusbCacheWrite blksz blkDwrite rkusb lba buffer
      now).2 ≠ none
  flush : ∀ blkDwrite : BlkDwrite,
    (rockusbFlushWriteCache blksz blkDwrite rkusb).2 ≠ none
  command : ∀ (blkDwrite : BlkDwrite) (code : UInt8)
    (tag dataTransferLength : UInt32),
    code ≠ kFwLbaWrite10 →
    rxHandlerCommandCsw blksz blkDwrite kFwLbaWrite10 rkusb
        code tag dataTransferLength =
      some ⟨tag, dataTransferLength, .fail⟩
  dlImage : ∀ (blkDwrite : BlkDwrite) (tag : UInt32)
    (lba : Nat) (buffer : List UInt8) (now : UInt64),
    (rxHandlerDlImage blksz blkDwrite rkusb tag lba buffer
      now).2 = some ⟨tag, 0, .fail⟩

------------------------------------------------------------
-- Flushes
------------------------------------------------------------

/- The cache has whole blocks. -/
def Aligned (rkusb : FRockusb) : Prop :=
  rkusb.writeCacheBytes % blksz = 0

/- A failure is not forgotten, and blocks stay whole. -/
structure Keeps (before after : FRockusb) : Prop where
  failed :
    before.writeCacheFailed = true →
    after.writeCacheFailed = true
  aligned : Aligned blksz before → Aligned blksz after

variable {blksz blkDwrite kFwLbaWrite10}
variable {rkusb : FRockusb}

theorem Keeps.refl (rkusb : FRockusb) :
    Keeps blksz rkusb rkusb where
  failed := id
  aligned := id

theorem Keeps.trans
    {first second third : FRockusb}
    (hFirst : Keeps blksz first second)
    (hSecond : Keeps blksz second third) :
    Keeps blksz first third where
  failed := hSecond.failed ∘ hFirst.failed
  aligned := hSecond.aligned ∘ hFirst.aligned

variable (blksz blkDwrite rkusb)

/- How a flush ends. -/
inductive FlushEnds : FRockusb × Option Errno → Prop where
| failed
    (hFailed : rkusb.writeCacheFailed = true) :
    FlushEnds (rkusb, some .eio)
| empty
    (hEmpty : rkusb.writeCacheBytes = 0) :
    FlushEnds (rkusb, none)
| noCache
    (hNone : rkusb.writeCache = none) :
    FlushEnds (rkusb, some .enodev)
| partBlock
    (hPart : ¬ Aligned blksz rkusb) :
    FlushEnds (rkusb, some .einval)
| short
    {device : Device UInt8}
    (hFails : RequestFails blksz blkDwrite rkusb) :
    FlushEnds
      ({ rkusb with device := device, writeCacheFailed := true },
        some .eio)
| whole
    {device : Device UInt8}
    (hWhole : ¬ RequestFails blksz blkDwrite rkusb) :
    FlushEnds
      ({ rkusb with device := device, writeCacheBytes := 0 },
        none)

theorem rockusbFlushWriteCache_ends :
    FlushEnds blksz blkDwrite rkusb
      (rockusbFlushWriteCache blksz blkDwrite rkusb) := by
  rcases rkusb with ⟨device, cache, lba, bytes, last, failed⟩
  unfold rockusbFlushWriteCache
  cases failed with
  | true => exact .failed rfl
  | false =>
      rw [if_neg Bool.false_ne_true]
      by_cases hEmpty : bytes = 0
      · rw [if_pos hEmpty]
        exact .empty hEmpty
      rw [if_neg hEmpty]
      cases cache with
      | none => exact .noCache rfl
      | some cache =>
          by_cases hPart : bytes % blksz ≠ 0
          · simp only [if_pos hPart]
            exact .partBlock hPart
          simp only [if_neg hPart]
          have hRequest :
              flushRequest blksz
                  ⟨device, some cache, lba, bytes, last, false⟩ =
                some (lba, bytes / blksz) := by
            apply if_neg
            simp [hEmpty, not_not.mp hPart]
          split_ifs with hBlocks
          · exact .short ⟨_, _, hRequest, hBlocks⟩
          · refine .whole ?_
            rintro ⟨other, blkcnt, hSome, hShort⟩
            rw [hRequest] at hSome
            cases hSome
            exact hBlocks hShort

variable {blksz blkDwrite rkusb}

/- After a failure a flush does nothing but fail. -/
theorem rockusbFlushWriteCache_failed
    (hFailed : rkusb.writeCacheFailed = true)
    (blkDwrite : BlkDwrite) :
    rockusbFlushWriteCache blksz blkDwrite rkusb =
      (rkusb, some .eio) := by
  unfold rockusbFlushWriteCache
  exact if_pos hFailed

theorem rockusbFlushWriteCache_keeps :
    Keeps blksz rkusb
      (rockusbFlushWriteCache blksz blkDwrite rkusb).1 := by
  have hEnds := rockusbFlushWriteCache_ends blksz blkDwrite rkusb
  generalize rockusbFlushWriteCache blksz blkDwrite rkusb = ended
    at hEnds
  cases hEnds with
  | failed | empty | noCache | partBlock => exact Keeps.refl rkusb
  | short => exact ⟨fun _ => rfl, id⟩
  | whole => exact ⟨id, fun _ => Nat.zero_mod blksz⟩

/- Whole blocks are not refused. -/
theorem Aligned.flush_ne_einval
    (hAligned : Aligned blksz rkusb) :
    (rockusbFlushWriteCache blksz blkDwrite rkusb).2 ≠
      some .einval := by
  have hEnds := rockusbFlushWriteCache_ends blksz blkDwrite rkusb
  generalize rockusbFlushWriteCache blksz blkDwrite rkusb = ended
    at hEnds
  intro hRefused
  cases hEnds with
  | partBlock hPart => exact hPart hAligned
  | failed | empty | noCache | short | whole => cases hRefused

/- What is asked for is asked with a cache of whole blocks. -/
theorem flushRequest_eq_some
    {request : Nat × Nat}
    (hRequest : flushRequest blksz rkusb = some request) :
    rkusb.writeCacheFailed = false ∧
      rkusb.writeCacheBytes ≠ 0 ∧ rkusb.writeCache ≠ none ∧
      Aligned blksz rkusb := by
  unfold flushRequest at hRequest
  split_ifs at hRequest with hNone
  rw [not_or, not_or, not_or, not_not] at hNone
  rcases hNone with ⟨hFailed, hBytes, hThere, hAligned⟩
  rw [Option.isNone_iff_eq_none] at hThere
  exact ⟨Bool.eq_false_of_not_eq_true hFailed, hBytes, hThere,
    hAligned⟩

/- A flush that is not written whole fails from then on. -/
theorem RequestFails.flush
    (hFails : RequestFails blksz blkDwrite rkusb) :
    (rockusbFlushWriteCache blksz blkDwrite
        rkusb).1.writeCacheFailed = true ∧
      (rockusbFlushWriteCache blksz blkDwrite rkusb).2 ≠
        none := by
  have hEnds := rockusbFlushWriteCache_ends blksz blkDwrite rkusb
  generalize rockusbFlushWriteCache blksz blkDwrite rkusb = ended
    at hEnds
  have hAsked := hFails
  rcases hAsked with ⟨lba, blkcnt, hRequest, _⟩
  cases hEnds with
  | failed hFailed => exact ⟨hFailed, nofun⟩
  | short => exact ⟨rfl, nofun⟩
  | whole hWhole => exact absurd hFails hWhole
  | empty hEmpty =>
      exact absurd hEmpty (flushRequest_eq_some hRequest).2.1
  | noCache hNone =>
      exact absurd hNone (flushRequest_eq_some hRequest).2.2.1
  | partBlock hPart =>
      exact absurd (flushRequest_eq_some hRequest).2.2.2 hPart

------------------------------------------------------------
-- Calls
------------------------------------------------------------

@[simp] theorem getRkusb_failed :
    (getRkusb rkusb).writeCacheFailed =
      rkusb.writeCacheFailed := by
  unfold getRkusb
  split
  · rfl
  · rfl

@[simp] theorem getRkusb_bytes :
    (getRkusb rkusb).writeCacheBytes = rkusb.writeCacheBytes := by
  unfold getRkusb
  split
  · rfl
  · rfl

theorem getRkusb_keeps :
    Keeps blksz rkusb (getRkusb rkusb) where
  failed hFailed := getRkusb_failed.trans hFailed
  aligned hAligned := by
    unfold Aligned
    rw [getRkusb_bytes]
    exact hAligned

variable {lba : Nat} {buffer : List UInt8} {now : UInt64}

/- An accepted write has whole blocks. -/
theorem copied_keeps
    (hSize : sizeAccepted blksz buffer.length = true) :
    Keeps blksz rkusb (rkusb.copied lba buffer now) where
  failed := id
  aligned hAligned := by
    have hWhole := of_decide_eq_true hSize
    rw [not_or, not_or, not_not] at hWhole
    have hBytes : rkusb.writeCacheBytes % blksz = 0 := hAligned
    change
      (rkusb.writeCacheBytes + buffer.length) % blksz = 0
    rw [Nat.add_mod, hBytes, hWhole.2.2, Nat.add_zero,
      Nat.zero_mod]

theorem rockusbCacheCopy_keeps
    (hSize : sizeAccepted blksz buffer.length = true) :
    Keeps blksz rkusb
      (rockusbCacheCopy blksz blkDwrite rkusb lba buffer
        now).1 := by
  have hCopied := @copied_keeps _ rkusb lba _ now hSize
  unfold rockusbCacheCopy
  simp only
  split_ifs
  · exact hCopied.trans rockusbFlushWriteCache_keeps
  · exact hCopied

theorem rockusbCacheWrite_keeps :
    Keeps blksz rkusb
      (rockusbCacheWrite blksz blkDwrite rkusb lba buffer
        now).1 := by
  unfold rockusbCacheWrite
  split_ifs with hFailed hSize hFlush
  · exact Keeps.refl rkusb
  · exact Keeps.refl rkusb
  · rw [Bool.not_eq_false] at hSize
    have hFlushed :=
      @rockusbFlushWriteCache_keeps blksz blkDwrite rkusb
    generalize rockusbFlushWriteCache blksz blkDwrite rkusb =
      ended at hFlushed
    rcases ended with ⟨flushed, _ | errno⟩
    · exact hFlushed.trans (rockusbCacheCopy_keeps hSize)
    · exact hFlushed
  · rw [Bool.not_eq_false] at hSize
    exact rockusbCacheCopy_keeps hSize

theorem rxHandlerCommand_keeps
    (code : UInt8) :
    Keeps blksz rkusb
      (rxHandlerCommand blksz blkDwrite kFwLbaWrite10 rkusb
        code).1 := by
  unfold rxHandlerCommand
  split_ifs
  · exact Keeps.refl rkusb
  · have hFlushed :=
      @rockusbFlushWriteCache_keeps blksz blkDwrite
        (getRkusb rkusb)
    generalize
      rockusbFlushWriteCache blksz blkDwrite (getRkusb rkusb) =
      ended at hFlushed
    rcases ended with ⟨flushed, _ | errno⟩
    · exact getRkusb_keeps.trans hFlushed
    · exact getRkusb_keeps.trans hFlushed

theorem step_flushIfIdle :
    RockusbCall.step blksz blkDwrite kFwLbaWrite10 rkusb
        (.flushIfIdle now) =
      if (getRkusb rkusb).writeCacheBytes = 0 ∨
          now - (getRkusb rkusb).writeCacheLastMs <
            rkusbWriteCacheIdleMs then
        getRkusb rkusb
      else
        (rockusbFlushWriteCache blksz blkDwrite
          (getRkusb rkusb)).1 := by
  unfold RockusbCall.step rockusbFlushWriteCacheIfIdle
  by_cases hEmpty : (getRkusb rkusb).writeCacheBytes = 0
  · simp only [if_pos hEmpty, if_pos (Or.inl hEmpty)]
  · simp only [if_neg hEmpty]
    rw [apply_ite Prod.fst]
    apply if_congr _ rfl rfl
    exact (or_iff_right hEmpty).symm

/- Every call keeps a failure, and whole blocks. -/
theorem step_keeps (call : RockusbCall) :
    Keeps blksz rkusb
      (call.step blksz blkDwrite kFwLbaWrite10 rkusb) := by
  cases call with
  | cacheWrite lba buffer now =>
      exact getRkusb_keeps.trans rockusbCacheWrite_keeps
  | flush => exact rockusbFlushWriteCache_keeps
  | flushIfIdle now =>
      rw [step_flushIfIdle]
      split_ifs
      · exact getRkusb_keeps
      · exact getRkusb_keeps.trans rockusbFlushWriteCache_keeps
  | command code => exact rxHandlerCommand_keeps code
  | disable =>
      have hFlushed :=
        @rockusbFlushWriteCache_keeps blksz blkDwrite rkusb
      exact ⟨hFlushed.failed, hFlushed.aligned⟩

/- What every call keeps, every run keeps. -/
theorem run_keeps (calls : List DeviceCall) :
    Keeps blksz rkusb
      (Schedule.run (DeviceCall.step blksz kFwLbaWrite10) rkusb
        calls) :=
  @Schedule.Along.leads _ _ _ _ (fun _ => True) _ Keeps.refl
    (fun _ _ _ hFirst hSecond => hFirst.trans hSecond)
    (fun _ call _ _ => ⟨trivial, step_keeps call.1⟩) _ _
    (Schedule.along_true rkusb calls) trivial

------------------------------------------------------------
-- Failures
------------------------------------------------------------

variable (blksz) in
/-
  The flushes are of whole blocks, and a failure among them
  ends them and leaves a gadget that has failed.
-/
structure FlushesEnd
    (blkDwrite : BlkDwrite)
    (flushes : List FRockusb)
    (after : FRockusb) : Prop where
  aligned : ∀ flushed ∈ flushes, Aligned blksz flushed
  failed : ∀ front flushed back,
    flushes = front ++ flushed :: back →
    RequestFails blksz blkDwrite flushed →
    back = [] ∧ after.writeCacheFailed = true

theorem flushesEnd_none (after : FRockusb) :
    FlushesEnd blksz blkDwrite [] after where
  aligned _ hMem := absurd hMem List.not_mem_nil
  failed front flushed back hNone _ := by
    have hLength := congrArg List.length hNone
    rw [List.length_append, List.length_cons] at hLength
    exact absurd hLength (Nat.succ_ne_zero _).symm

/- One flush, and what it leaves. -/
theorem flushesEnd_one
    (hAligned : Aligned blksz rkusb)
    {after : FRockusb}
    (hAfter :
      (rockusbFlushWriteCache blksz blkDwrite
        rkusb).1.writeCacheFailed = true →
      after.writeCacheFailed = true) :
    FlushesEnd blksz blkDwrite [rkusb] after where
  aligned flushed hMem := by
    rw [List.mem_singleton.mp hMem]
    exact hAligned
  failed front flushed back hOne hFails := by
    rcases List.append_eq_singleton_iff.mp hOne.symm with
      ⟨_, hLast⟩ | ⟨_, hNone⟩
    · cases hLast
      exact ⟨rfl, hAfter hFails.flush.1⟩
    · cases hNone

theorem cacheCopyFlushes_end
    (hAligned : Aligned blksz rkusb)
    (hSize : sizeAccepted blksz buffer.length = true) :
    FlushesEnd blksz blkDwrite
      (cacheCopyFlushes rkusb lba buffer now)
      (rockusbCacheCopy blksz blkDwrite rkusb lba buffer
        now).1 := by
  have hCopied :=
    (@copied_keeps _ rkusb lba _ now hSize).aligned hAligned
  unfold cacheCopyFlushes rockusbCacheCopy
  simp only
  split_ifs
  · exact flushesEnd_one hCopied id
  · exact flushesEnd_none _

/- A flush that makes room, and those behind it. -/
theorem FlushesEnd.cons
    {flushes : List FRockusb}
    {after : FRockusb}
    (hAligned : Aligned blksz rkusb)
    (hWhole : ¬ RequestFails blksz blkDwrite rkusb)
    (hEnd : FlushesEnd blksz blkDwrite flushes after) :
    FlushesEnd blksz blkDwrite (rkusb :: flushes) after where
  aligned := List.forall_mem_cons.mpr ⟨hAligned, hEnd.aligned⟩
  failed front flushed back hSplit hFails := by
    cases front with
    | nil =>
        cases hSplit
        exact absurd hFails hWhole
    | cons first front =>
        injection hSplit with _ hRest
        exact hEnd.failed front flushed back hRest hFails

theorem cacheWriteFlushes_end
    (hAligned : Aligned blksz rkusb) :
    FlushesEnd blksz blkDwrite
      (cacheWriteFlushes blksz blkDwrite rkusb lba buffer now)
      (rockusbCacheWrite blksz blkDwrite rkusb lba buffer
        now).1 := by
  unfold cacheWriteFlushes rockusbCacheWrite
  split_ifs with hFailed hSize hFlush
  · exact flushesEnd_none _
  · exact flushesEnd_none _
  · rw [Bool.not_eq_false] at hSize
    have hFails := @RequestFails.flush blksz blkDwrite rkusb
    have hKeeps :=
      @rockusbFlushWriteCache_keeps blksz blkDwrite rkusb
    have hOne :=
      @flushesEnd_one blksz blkDwrite rkusb hAligned _ id
    generalize rockusbFlushWriteCache blksz blkDwrite rkusb =
      ended at hFails hKeeps hOne
    rcases ended with ⟨flushed, _ | errno⟩
    · exact (cacheCopyFlushes_end (hKeeps.aligned hAligned)
        hSize).cons hAligned fun hShort => (hFails hShort).2 rfl
    · exact hOne
  · rw [Bool.not_eq_false] at hSize
    exact cacheCopyFlushes_end hAligned hSize

/- The flushes of every call end so. -/
theorem flushes_end
    (hAligned : Aligned blksz rkusb)
    (call : RockusbCall) :
    FlushesEnd blksz blkDwrite
      (call.flushes blksz blkDwrite kFwLbaWrite10 rkusb)
      (call.step blksz blkDwrite kFwLbaWrite10 rkusb) := by
  have hTaken := getRkusb_keeps.aligned hAligned
  cases call with
  | cacheWrite lba buffer now => exact cacheWriteFlushes_end hTaken
  | flush => exact flushesEnd_one hAligned id
  | flushIfIdle now =>
      rw [step_flushIfIdle]
      unfold RockusbCall.flushes
      simp only
      split_ifs
      · exact flushesEnd_none _
      · exact flushesEnd_one hTaken id
  | command code =>
      unfold RockusbCall.flushes RockusbCall.step rxHandlerCommand
      simp only
      split_ifs
      · exact flushesEnd_none _
      · apply flushesEnd_one hTaken
        generalize
          rockusbFlushWriteCache blksz blkDwrite
            (getRkusb rkusb) = ended
        rcases ended with ⟨flushed, _ | errno⟩
        · exact id
        · exact id
  | disable => exact flushesEnd_one hAligned id

/- No call asks a gadget that has failed. -/
theorem flushes_failed
    (hFailed : rkusb.writeCacheFailed = true)
    (call : RockusbCall) :
    ∀ flushed ∈
        call.flushes blksz blkDwrite kFwLbaWrite10 rkusb,
      flushed.writeCacheFailed = true := by
  have hTaken := getRkusb_failed.trans hFailed
  intro flushed hMem
  cases call with
  | cacheWrite lba buffer now =>
      simp [RockusbCall.flushes, cacheWriteFlushes, hFailed]
        at hMem
  | flush =>
      rw [List.mem_singleton.mp hMem]
      exact hFailed
  | flushIfIdle now =>
      simp only [RockusbCall.flushes] at hMem
      split_ifs at hMem
      · exact absurd hMem List.not_mem_nil
      · rw [List.mem_singleton.mp hMem]
        exact hTaken
  | command code =>
      simp only [RockusbCall.flushes] at hMem
      split_ifs at hMem
      · exact absurd hMem List.not_mem_nil
      · rw [List.mem_singleton.mp hMem]
        exact hTaken
  | disable =>
      rw [List.mem_singleton.mp hMem]
      exact hFailed

/- A gadget that has failed refuses all. -/
theorem sticky_of_failed
    (hFailed : rkusb.writeCacheFailed = true) :
    Sticky blksz kFwLbaWrite10 rkusb := by
  have hTaken := getRkusb_failed.trans hFailed
  have hFlush := @rockusbFlushWriteCache_failed blksz _ hFailed
  have hTakenFlush :=
    @rockusbFlushWriteCache_failed blksz _ hTaken
  have hWrite :
      ∀ (rkusb : FRockusb), rkusb.writeCacheFailed = true →
        ∀ (blkDwrite : BlkDwrite) lba buffer now,
          rockusbCacheWrite blksz blkDwrite rkusb lba buffer
            now = (rkusb, some .eio) := by
    intro rkusb hFailed blkDwrite lba buffer now
    exact if_pos hFailed
  refine ⟨?_, ?_, ?_, ?_, ?_, ?_⟩
  · intro call blkDwrite
    apply List.filterMap_eq_nil_iff.mpr
    intro flushed hMem
    apply if_pos
    exact Or.inl (flushes_failed hFailed call flushed hMem)
  · intro call first second
    cases call with
    | cacheWrite lba buffer now =>
        simp only [RockusbCall.step, hWrite _ hTaken]
    | flush => simp only [RockusbCall.step, hFlush]
    | flushIfIdle now =>
        simp only [step_flushIfIdle, hTakenFlush]
    | command code =>
        simp only [RockusbCall.step, rxHandlerCommand,
          hTakenFlush]
    | disable =>
        simp only [RockusbCall.step, rockusbDisable, hFlush]
  · intro blkDwrite lba buffer now
    rw [hWrite _ hFailed]
    exact nofun
  · intro blkDwrite
    rw [hFlush]
    exact nofun
  · intro blkDwrite code tag dataTransferLength hCode
    simp [rxHandlerCommandCsw, rxHandlerCommand, hCode,
      hTakenFlush]
  · intro blkDwrite tag lba buffer now
    simp only [rxHandlerDlImage, hWrite _ hTaken]

/-
  In every run the flushes are of whole blocks, and a request
  that is not written whole is the last of its call; from then
  on the gadget asks for nothing and refuses all.
-/
theorem cacheFailure_sticks
    (blksz : Nat)
    (kFwLbaWrite10 : UInt8)
    (device : Device UInt8)
    (calls : List DeviceCall)
    (call : RockusbCall)
    (blkDwrite : BlkDwrite) :
    (∀ flushed ∈ call.flushes blksz blkDwrite kFwLbaWrite10
        (reached blksz kFwLbaWrite10 device calls),
      (rockusbFlushWriteCache blksz blkDwrite flushed).2 ≠
        some .einval) ∧
    ∀ front flushed back,
      call.flushes blksz blkDwrite kFwLbaWrite10
          (reached blksz kFwLbaWrite10 device calls) =
        front ++ flushed :: back →
      RequestFails blksz blkDwrite flushed →
      back = [] ∧
        ∀ later : List DeviceCall,
          Sticky blksz kFwLbaWrite10
            (reached blksz kFwLbaWrite10 device
              (calls ++ (call, blkDwrite) :: later)) := by
  have hAligned :
      Aligned blksz (reached blksz kFwLbaWrite10 device calls) :=
    (run_keeps calls).aligned (Nat.zero_mod blksz)
  have hEnd :=
    @flushes_end blksz blkDwrite kFwLbaWrite10 _ hAligned call
  refine ⟨?_, ?_⟩
  · intro flushed hMem
    exact (hEnd.aligned flushed hMem).flush_ne_einval
  · intro front flushed back hFlushes hFails
    rcases hEnd.failed front flushed back hFlushes hFails with
      ⟨hLast, hFailed⟩
    refine ⟨hLast, fun later => ?_⟩
    unfold reached
    rw [Schedule.run_append, Schedule.run_cons]
    exact sticky_of_failed ((run_keeps later).failed hFailed)

/- One block, and a device that does not write it. -/
theorem cacheFailure_sticks_oneBlock :
    ∀ later : List DeviceCall,
      Sticky 1 0x15
        (reached 1 0x15 (Device.filled 0)
          ([(.cacheWrite 5 [7] 0, fun _ blkcnt => blkcnt)] ++
            (.flush, fun _ _ => 0) :: later)) := by
  refine
    ((cacheFailure_sticks 1 0x15 (Device.filled 0)
      [(.cacheWrite 5 [7] 0, fun _ blkcnt => blkcnt)] .flush
      (fun _ _ => 0)).2 [] _ [] rfl ?_).2
  exact ⟨5, 1, rfl, Nat.zero_ne_one⟩

end Cache

end Rockusb

end MicaBoards
