import MicaBoards.Rockusb.WriteCache
import Mathlib.Data.List.Induction
import Mathlib.Data.Nat.ModEq

/-
  The cache is a delayed form of writing at once: the device,
  with the cached bytes over it, always has the contents of
  the accepted writes in their order.

  Main declarations:
    * `synchronous`
    * `CacheOf`
    * `rockusbFlushWriteCache_eq`
    * `writeCache_refines`
-/

------------------------------------------------------------
-- Writing At Once
------------------------------------------------------------

namespace MicaBoards

namespace Rockusb

section Refinement

variable (blksz : Nat)

/- A call, if accepted writes are performed at once. -/
def synchronousStep
    (device : Device UInt8)
    (call : RockusbCall) : Device UInt8 :=
  match call with
  | .cacheWrite lba buffer _ =>
      if sizeAccepted blksz buffer.length then
        device.write (lba * blksz) buffer
      else
        device
  | .flush => device
  | .flushIfIdle _ => device
  | .command _ => device
  | .disable => device

/- The contents after accepted writes performed at once. -/
def synchronous
    (device : Device UInt8)
    (calls : List RockusbCall) : Device UInt8 :=
  calls.foldl (synchronousStep blksz) device

/- The bytes that only the cache holds. -/
def FRockusb.cached (rkusb : FRockusb) : List UInt8 :=
  (rkusb.writeCache.getD []).take rkusb.writeCacheBytes

/- The contents of the device with these over it. -/
def FRockusb.overlay (rkusb : FRockusb) : Device UInt8 :=
  rkusb.device.write (rkusb.writeCacheLba * blksz)
    rkusb.cached

/- The block address of a write does not wrap. -/
def RockusbCall.NoWrap (call : RockusbCall) : Prop :=
  match call with
  | .cacheWrite lba buffer _ =>
      lba + buffer.length / blksz < lbaSpan
  | .flush => True
  | .flushIfIdle _ => True
  | .command _ => True
  | .disable => True

/- The gadget stands for the contents. -/
structure CacheOf
    (contents : Device UInt8)
    (rkusb : FRockusb) : Prop where
  notFailed : rkusb.writeCacheFailed = false
  overlay : rkusb.overlay blksz = contents
  multiple : rkusb.writeCacheBytes % blksz = 0
  bound : rkusb.writeCacheBytes ≤ rkusbWriteCacheSize
  room : ∀ cache : List UInt8,
    rkusb.writeCache = some cache →
    cache.length = rkusbWriteCacheSize
  there : rkusb.writeCache = none → rkusb.writeCacheBytes = 0
  noWrap :
    rkusb.writeCacheBytes ≠ 0 →
    rkusb.writeCacheLba + rkusb.writeCacheBytes / blksz <
      lbaSpan

------------------------------------------------------------
-- Flushes
------------------------------------------------------------

variable {blksz}
variable {blkDwrite : BlkDwrite}
variable {kFwLbaWrite10 : UInt8}
variable {contents : Device UInt8}
variable {rkusb : FRockusb}

/- Without cached bytes the device has the contents. -/
theorem CacheOf.device_eq
    (hCache : CacheOf blksz contents rkusb)
    (hEmpty : rkusb.writeCacheBytes = 0) :
    rkusb.device = contents := by
  rw [← hCache.overlay]
  simp [FRockusb.overlay, FRockusb.cached, hEmpty]

/- A flush gives the device its contents. -/
theorem rockusbFlushWriteCache_eq
    (hWrites : ∀ lba blkcnt, blkDwrite lba blkcnt = blkcnt)
    (hCache : CacheOf blksz contents rkusb) :
    rockusbFlushWriteCache blksz blkDwrite rkusb =
      ({ rkusb with device := contents, writeCacheBytes := 0 },
        none) := by
  by_cases hEmpty : rkusb.writeCacheBytes = 0
  · have hDevice := hCache.device_eq hEmpty
    have hFailed := hCache.notFailed
    rcases rkusb with ⟨device, cache, lba, bytes, last, failed⟩
    simp only at hEmpty hDevice hFailed
    subst hEmpty hDevice hFailed
    simp [rockusbFlushWriteCache]
  · cases hThere : rkusb.writeCache with
    | none => exact absurd (hCache.there hThere) hEmpty
    | some cache =>
        have hBlocks :
            rkusb.writeCacheBytes / blksz * blksz =
              rkusb.writeCacheBytes :=
          Nat.div_mul_cancel
            (Nat.dvd_of_mod_eq_zero hCache.multiple)
        have hOverlay := hCache.overlay
        simp only [FRockusb.overlay, FRockusb.cached, hThere,
          Option.getD_some] at hOverlay
        simp [rockusbFlushWriteCache, hCache.notFailed, hEmpty,
          hThere, hCache.multiple, hWrites, hBlocks, hOverlay]

/- A flushed gadget stands for its device's contents. -/
theorem CacheOf.flushed
    (hCache : CacheOf blksz contents rkusb) :
    CacheOf blksz contents
      { rkusb with device := contents, writeCacheBytes := 0 } where
  notFailed := hCache.notFailed
  overlay := by simp [FRockusb.overlay, FRockusb.cached]
  multiple := Nat.zero_mod blksz
  bound := Nat.zero_le _
  room := hCache.room
  there _ := rfl
  noWrap h := absurd rfl h

/- Taking the gadget keeps what it stands for. -/
theorem CacheOf.getRkusb
    (hCache : CacheOf blksz contents rkusb) :
    CacheOf blksz contents (getRkusb rkusb) ∧
      (getRkusb rkusb).writeCache ≠ none := by
  cases hThere : rkusb.writeCache with
  | some cache =>
      have hSame : Rockusb.getRkusb rkusb = rkusb := by
        simp [Rockusb.getRkusb, hThere]
      rw [hSame, hThere]
      exact ⟨hCache, by simp⟩
  | none =>
      have hEmpty := hCache.there hThere
      have hDevice := hCache.device_eq hEmpty
      simp only [Rockusb.getRkusb, hThere]
      refine ⟨?_, by simp⟩
      exact
        { notFailed := hCache.notFailed
          overlay := by
            simp [FRockusb.overlay, FRockusb.cached, hEmpty,
              hDevice]
          multiple := hCache.multiple
          bound := hCache.bound
          room := by
            intro cache hSome
            rw [← Option.some.inj hSome, List.length_replicate]
          there := fun _ => hEmpty
          noWrap := hCache.noWrap }

------------------------------------------------------------
-- Writes
------------------------------------------------------------

/- The size of an accepted write. -/
theorem sizeAccepted_iff
    (size : Nat) :
    sizeAccepted blksz size = true ↔
      size ≠ 0 ∧ size ≤ rkusbWriteCacheSize ∧
        size % blksz = 0 := by
  simp [sizeAccepted]

/-
  Bytes that follow the cached ones, or come into an empty
  cache, are copied within the cache.
-/
theorem CacheOf.copied
    (hCache : CacheOf blksz contents rkusb)
    (hThere : rkusb.writeCache ≠ none)
    {lba : Nat}
    {buffer : List UInt8}
    (now : UInt64)
    (hMultiple : buffer.length % blksz = 0)
    (hNext :
      rkusb.writeCacheBytes = 0 ∨
        lba =
          rkusb.writeCacheLba + rkusb.writeCacheBytes / blksz)
    (hRoom :
      rkusb.writeCacheBytes + buffer.length ≤
        rkusbWriteCacheSize)
    (hNoWrap : lba + buffer.length / blksz < lbaSpan) :
    CacheOf blksz (contents.write (lba * blksz) buffer)
      (rkusb.copied lba buffer now) := by
  cases hSome : rkusb.writeCache with
  | none => exact absurd hSome hThere
  | some cache =>
      have hLength := hCache.room cache hSome
      have hWhole :=
        Nat.dvd_of_mod_eq_zero hCache.multiple
      have hFits : rkusb.writeCacheBytes ≤ cache.length := by
        omega
      refine
        { notFailed := hCache.notFailed
          overlay := ?_
          multiple := ?_
          bound := hRoom
          room := ?_
          there := ?_
          noWrap := ?_ }
      · -- the copy is a write after that of the cached bytes
        have hOverlay := hCache.overlay
        simp only [FRockusb.copied, FRockusb.overlay,
          FRockusb.cached, hSome, Option.getD_some,
          Option.map_some] at hOverlay ⊢
        rw [Buffer.take_copyAt buffer hFits,
          Device.write_append, List.length_take,
          Nat.min_eq_left hFits]
        by_cases hEmpty : rkusb.writeCacheBytes = 0
        · simp only [hEmpty, List.take_zero, if_true,
            Device.write_nil, Nat.add_zero] at hOverlay ⊢
          rw [hOverlay]
        · have hAddress :
              rkusb.writeCacheLba * blksz +
                  rkusb.writeCacheBytes =
                lba * blksz := by
            rw [hNext.resolve_left hEmpty, Nat.add_mul,
              Nat.div_mul_cancel hWhole]
          rw [if_neg hEmpty, hOverlay, hAddress]
      · simp [FRockusb.copied, Nat.add_mod, hCache.multiple,
          hMultiple]
      · intro copied hIn
        simp only [FRockusb.copied, hSome, Option.map_some,
          Option.some.injEq] at hIn
        rw [← hIn, Buffer.length_copyAt]
        · exact hLength
        · omega
      · intro hNone
        simp [FRockusb.copied, hSome] at hNone
      · intro _
        simp only [FRockusb.copied]
        split_ifs with hEmpty
        · rwa [hEmpty, Nat.zero_add]
        · rw [Nat.add_div_of_dvd_right hWhole, ← Nat.add_assoc,
            ← hNext.resolve_left hEmpty]
          exact hNoWrap

/- So the contents have these bytes, also if it is then full. -/
theorem CacheOf.rockusbCacheCopy
    (hWrites : ∀ lba blkcnt, blkDwrite lba blkcnt = blkcnt)
    {lba : Nat}
    {buffer : List UInt8}
    {now : UInt64}
    (hCopied : CacheOf blksz contents (rkusb.copied lba buffer now)) :
    CacheOf blksz contents
        (rockusbCacheCopy blksz blkDwrite rkusb lba buffer
          now).1 ∧
      (rockusbCacheCopy blksz blkDwrite rkusb lba buffer
          now).2 = none := by
  unfold Rockusb.rockusbCacheCopy
  simp only
  split_ifs
  · rw [rockusbFlushWriteCache_eq hWrites hCopied]
    exact ⟨hCopied.flushed, rfl⟩
  · exact ⟨hCopied, rfl⟩

/- A write adds to the contents if it is accepted. -/
theorem CacheOf.rockusbCacheWrite
    (hWrites : ∀ lba blkcnt, blkDwrite lba blkcnt = blkcnt)
    (hCache : CacheOf blksz contents rkusb)
    (hThere : rkusb.writeCache ≠ none)
    {lba : Nat}
    {buffer : List UInt8}
    (now : UInt64)
    (hNoWrap : lba + buffer.length / blksz < lbaSpan) :
    CacheOf blksz
        (synchronousStep blksz contents
          (.cacheWrite lba buffer now))
        (rockusbCacheWrite blksz blkDwrite rkusb lba buffer
          now).1 ∧
      ((rockusbCacheWrite blksz blkDwrite rkusb lba buffer
            now).2 = none ↔
        sizeAccepted blksz buffer.length = true) := by
  unfold Rockusb.rockusbCacheWrite synchronousStep
  simp only [hCache.notFailed, Bool.false_eq_true, if_false]
  cases hAccepted : sizeAccepted blksz buffer.length with
  | false => simpa using hCache
  | true =>
      rcases (sizeAccepted_iff buffer.length).mp hAccepted with
        ⟨_, hSize, hMultiple⟩
      simp only [Bool.true_eq_false, if_false, if_true]
      split_ifs with hFlush
      · rw [rockusbFlushWriteCache_eq hWrites hCache]
        have hCopied :=
          hCache.flushed.copied hThere now hMultiple
            (Or.inl rfl) (by simpa using hSize) hNoWrap
        have hCopy := hCopied.rockusbCacheCopy hWrites
        exact ⟨hCopy.1, by simp [hCopy.2]⟩
      · -- the cache is empty, or goes on where it ends
        simp only [needsFlush, decide_eq_true_eq, not_and,
          not_or, not_lt, not_not] at hFlush
        have hNext :
            rkusb.writeCacheBytes = 0 ∨
              lba =
                rkusb.writeCacheLba +
                  rkusb.writeCacheBytes / blksz := by
          by_cases hEmpty : rkusb.writeCacheBytes = 0
          · exact Or.inl hEmpty
          · have hMod := (hFlush hEmpty).1
            rw [Nat.mod_eq_of_lt (hCache.noWrap hEmpty)] at hMod
            exact Or.inr hMod
        have hRoom :
            rkusb.writeCacheBytes + buffer.length ≤
              rkusbWriteCacheSize := by
          have hBound := hCache.bound
          by_cases hEmpty : rkusb.writeCacheBytes = 0
          · omega
          · have hLeft := (hFlush hEmpty).2
            omega
        have hCopied :=
          hCache.copied hThere now hMultiple hNext hRoom hNoWrap
        have hCopy := hCopied.rockusbCacheCopy hWrites
        exact ⟨hCopy.1, by simp [hCopy.2]⟩

------------------------------------------------------------
-- Runs
------------------------------------------------------------

/- A command that is no write finds the device flushed. -/
theorem rxHandlerCommand_eq
    (hWrites : ∀ lba blkcnt, blkDwrite lba blkcnt = blkcnt)
    (hCache : CacheOf blksz contents rkusb)
    {command : UInt8}
    (hCommand : command ≠ kFwLbaWrite10) :
    rxHandlerCommand blksz blkDwrite kFwLbaWrite10 rkusb
        command =
      ({ getRkusb rkusb with
          device := contents
          writeCacheBytes := 0 },
        true) := by
  rw [rxHandlerCommand, if_neg hCommand,
    rockusbFlushWriteCache_eq hWrites hCache.getRkusb.1]

/- A disabled gadget has its device flushed. -/
theorem CacheOf.rockusbDisable
    (hWrites : ∀ lba blkcnt, blkDwrite lba blkcnt = blkcnt)
    (hCache : CacheOf blksz contents rkusb) :
    CacheOf blksz contents
        (rockusbDisable blksz blkDwrite rkusb) ∧
      (rockusbDisable blksz blkDwrite rkusb).device =
        contents := by
  have hFlushed := hCache.flushed
  rw [Rockusb.rockusbDisable,
    rockusbFlushWriteCache_eq hWrites hCache]
  refine ⟨?_, rfl⟩
  exact
    { notFailed := hFlushed.notFailed
      overlay := by simp [FRockusb.overlay, FRockusb.cached]
      multiple := hFlushed.multiple
      bound := hFlushed.bound
      room := by
        intro cache hSome
        cases hSome
      there := fun _ => rfl
      noWrap := hFlushed.noWrap }

/- Every call keeps what the gadget stands for. -/
theorem CacheOf.step
    (hWrites : ∀ lba blkcnt, blkDwrite lba blkcnt = blkcnt)
    (hCache : CacheOf blksz contents rkusb)
    {call : RockusbCall}
    (hNoWrap : call.NoWrap blksz) :
    CacheOf blksz (synchronousStep blksz contents call)
      (call.step blksz blkDwrite kFwLbaWrite10 rkusb) := by
  have hTaken := hCache.getRkusb
  cases call with
  | cacheWrite lba buffer now =>
      exact
        (hTaken.1.rockusbCacheWrite hWrites hTaken.2 now
          hNoWrap).1
  | flush =>
      simp only [RockusbCall.step,
        rockusbFlushWriteCache_eq hWrites hCache]
      exact hCache.flushed
  | flushIfIdle now =>
      simp only [RockusbCall.step, rockusbFlushWriteCacheIfIdle]
      split_ifs
      · exact hTaken.1
      · exact hTaken.1
      · exact hTaken.1
      · rw [rockusbFlushWriteCache_eq hWrites hTaken.1]
        exact hTaken.1.flushed
  | command code =>
      simp only [RockusbCall.step]
      by_cases hCommand : code = kFwLbaWrite10
      · rw [rxHandlerCommand, if_pos hCommand]
        exact hCache
      · rw [rxHandlerCommand_eq hWrites hCache hCommand]
        exact hTaken.1.flushed
  | disable => exact (hCache.rockusbDisable hWrites).1

/- The gadget before its first call. -/
theorem cacheOf_start
    (device : Device UInt8) :
    CacheOf blksz device (.start device) where
  notFailed := rfl
  overlay := by
    simp [FRockusb.overlay, FRockusb.cached, FRockusb.start]
  multiple := Nat.zero_mod blksz
  bound := Nat.zero_le _
  room := by
    intro cache hSome
    cases hSome
  there _ := rfl
  noWrap h := absurd rfl h

/- So does every run. -/
theorem cacheOf_run
    (hWrites : ∀ lba blkcnt, blkDwrite lba blkcnt = blkcnt)
    (device : Device UInt8)
    {calls : List RockusbCall}
    (hNoWrap : ∀ call ∈ calls, call.NoWrap blksz) :
    CacheOf blksz (synchronous blksz device calls)
      (RockusbCall.run blksz blkDwrite kFwLbaWrite10
        (.start device) calls) := by
  induction calls using List.reverseRecOn with
  | nil => exact cacheOf_start device
  | append_singleton calls call ih =>
      have hBefore :=
        ih fun earlier hEarlier =>
          hNoWrap earlier (List.mem_append_left _ hEarlier)
      have hAfter :=
        @CacheOf.step _ _ kFwLbaWrite10 _ _ hWrites hBefore call
          (hNoWrap call (by simp))
      simpa [RockusbCall.run, synchronous] using hAfter

variable (blksz blkDwrite kFwLbaWrite10)

/-
  What the gadget owes to the writes it has accepted, when it
  has come to its state by some calls.
-/
structure CacheCorrect
    (contents : Device UInt8)
    (rkusb : FRockusb) : Prop where
  overlay : rkusb.overlay blksz = contents
  dispatched : ∀ command,
    command ≠ kFwLbaWrite10 →
    (rxHandlerCommand blksz blkDwrite kFwLbaWrite10 rkusb
        command).2 = true ∧
      (rxHandlerCommand blksz blkDwrite kFwLbaWrite10 rkusb
        command).1.device = contents
  disabled :
    (rockusbDisable blksz blkDwrite rkusb).device = contents
  accepted : ∀ (lba : Nat) (buffer : List UInt8) (now : UInt64),
    lba + buffer.length / blksz < lbaSpan →
    ((rockusbCacheWrite blksz blkDwrite (getRkusb rkusb) lba
          buffer now).2 = none ↔
      sizeAccepted blksz buffer.length = true)
  multiple : rkusb.writeCacheBytes % blksz = 0
  bound : rkusb.writeCacheBytes ≤ rkusbWriteCacheSize
  /- a copy past its end would have made it longer -/
  noOverrun : ∀ cache : List UInt8,
    rkusb.writeCache = some cache →
    cache.length = rkusbWriteCacheSize

variable {blksz blkDwrite}

/-
  After any calls, at any times, the device and the cache
  together have the contents of the accepted writes, and the
  device alone has them for another command and when the
  gadget is disabled.
-/
theorem writeCache_refines
    (hWrites : ∀ lba blkcnt, blkDwrite lba blkcnt = blkcnt)
    (device : Device UInt8)
    {calls : List RockusbCall}
    (hNoWrap : ∀ call ∈ calls, call.NoWrap blksz) :
    CacheCorrect blksz blkDwrite kFwLbaWrite10
      (synchronous blksz device calls)
      (RockusbCall.run blksz blkDwrite kFwLbaWrite10
        (.start device) calls) := by
  have hCache :=
    @cacheOf_run blksz blkDwrite kFwLbaWrite10 hWrites device
      calls hNoWrap
  have hTaken := hCache.getRkusb
  exact
    { overlay := hCache.overlay
      dispatched := by
        intro command hCommand
        rw [rxHandlerCommand_eq hWrites hCache hCommand]
        exact ⟨rfl, rfl⟩
      disabled := (hCache.rockusbDisable hWrites).2
      accepted := fun lba buffer now hNoWrap =>
        (hTaken.1.rockusbCacheWrite hWrites hTaken.2 now
          hNoWrap).2
      multiple := hCache.multiple
      bound := hCache.bound
      noOverrun := hCache.room }

theorem writeCache_refines_twoWrites :
    CacheCorrect 2 (fun _ blkcnt => blkcnt) 21
      (synchronous 2 (Device.filled 0)
        [.cacheWrite 8 [1, 2] 0, .flushIfIdle 50,
          .cacheWrite 9 [3, 4] 60])
      (RockusbCall.run 2 (fun _ blkcnt => blkcnt) 21
        (.start (Device.filled 0))
        [.cacheWrite 8 [1, 2] 0, .flushIfIdle 50,
          .cacheWrite 9 [3, 4] 60]) :=
  writeCache_refines 21 (fun _ _ => rfl) (Device.filled 0) (by
    simp [RockusbCall.NoWrap, lbaSpan])

end Refinement

end Rockusb

end MicaBoards
