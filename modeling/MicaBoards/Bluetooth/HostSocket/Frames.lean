import MicaBoards.Bluetooth.HostSocket.Threads
import Mathlib.Data.List.Induction

/-
  Frames on the shared host socket. A thread whose write has
  failed sends no more. Whether others send after it depends
  on when the transport is marked as failed.

  Main declarations:
    * `FramesAtomic`
    * `HostState.Unbroken`
    * `hostSocket_framesAtomic`
-/

------------------------------------------------------------
-- The Bytes On The Socket
------------------------------------------------------------

namespace MicaBoards

namespace Bluetooth

section Frames

variable {ι : Type}

variable [DecidableEq ι]

variable (cmdevt : ι)

/- The bytes of some frames, with the ports they are of. -/
def tagged
    (sent : List (ι × List UInt8)) : List (ι × UInt8) :=
  sent.flatMap fun entry => entry.2.map (Prod.mk entry.1)

omit [DecidableEq ι] in
@[simp] theorem tagged_append_singleton
    (sent : List (ι × List UInt8))
    (i : ι)
    (frame : List UInt8) :
    tagged (sent ++ [(i, frame)]) =
      tagged sent ++ frame.map (Prod.mk i) := by
  simp [tagged]

/-
  No thread passes the check of `write_transport` for port 0
  while another that has left a part of its frame has not yet
  stopped that port.
-/
def WritesAlone (state : HostState ι) : HostAction ι → Prop
| .reader i _ =>
    ∀ frame write,
      (state.readers i).pc = .write frame write →
      write.phase = .test →
      write.written < frame.length →
      state.running cmdevt = true →
      ∀ j, ¬ (state.readers j).pc.LeftPart cmdevt
| .other _ => True

namespace HostState

/- What is written of the frame of the thread with the lock. -/
def part (state : HostState ι) : List (ι × UInt8) :=
  match state.lock with
  | none => []
  | some i =>
    match (state.readers i).pc with
    | .write frame write =>
        (frame.take write.written).map (Prod.mk i)
    | _ => []

omit [DecidableEq ι] in
theorem part_of_write
    {state : HostState ι}
    {i : ι}
    {frame : List UInt8}
    {write : WriteState}
    (hLock : state.lock = some i)
    (hPc : (state.readers i).pc = .write frame write) :
    state.part =
      (frame.take write.written).map (Prod.mk i) := by
  simp [part, hLock, hPc]

omit [DecidableEq ι] in
theorem part_of_unlocked
    {state : HostState ι}
    (hLock : state.lock = none) :
    state.part = [] := by
  simp [part, hLock]

/- Whole frames, and a part of the one being written. -/
structure Intact (state : HostState ι) : Prop where
  delivered : state.delivered = tagged state.sent ++ state.part
  left : ∀ i, ¬ (state.readers i).pc.LeftPart cmdevt

/-
  A thread has left a part of its frame. Nothing follows it:
  others have not begun to send, and do not while port 0 is
  not stopped.
-/
structure Broken
    (state : HostState ι)
    (i : ι)
    (frame : List UInt8)
    (written : Nat) : Prop where
  gone : (state.readers i).pc.Gone
  front : AtFront (state.readers i).stream frame
  pos : 0 < written
  lt : written < frame.length
  delivered :
    state.delivered =
      tagged state.sent ++
        (frame.take written).map (Prod.mk i)
  quiet : ∀ j other write,
    (state.readers j).pc = .write other write →
      write.written = 0 ∧
        (write.phase = .test ∨ write.phase = .returned false)
  marks : state.running cmdevt = true →
    (state.readers i).pc.LeftPart cmdevt

/- One of them is the case. -/
def Unbroken (state : HostState ι) : Prop :=
  state.Intact cmdevt ∨
    ∃ i frame written, state.Broken cmdevt i frame written

theorem Intact.perform
    {state : HostState ι}
    (hIntact : state.Intact cmdevt)
    (op : FailOp ι) :
    (state.perform op).Intact cmdevt := by
  cases op <;> exact ⟨hIntact.delivered, hIntact.left⟩

/- Without the lock a thread does not write. -/
theorem Intact.goes
    {state : HostState ι}
    {i : ι}
    {reader : Reader ι}
    (hIntact : state.Intact cmdevt)
    (hHolds : ∀ j, state.lock = some j →
      ∃ frame write,
        (state.readers j).pc = .write frame write)
    (hBefore : ∀ frame write,
      (state.readers i).pc ≠ .write frame write)
    (hLeft : ¬ reader.pc.LeftPart cmdevt) :
    (state.setReader i reader).Intact cmdevt := by
  have hPart : (state.setReader i reader).part = state.part := by
    cases hLock : state.lock with
    | none =>
        have hNext : (state.setReader i reader).lock = none :=
          hLock
        rw [part_of_unlocked hLock, part_of_unlocked hNext]
    | some j =>
        rcases hHolds j hLock with ⟨frame, write, hWrite⟩
        have hNe : j ≠ i := by
          rintro rfl
          exact hBefore frame write hWrite
        have hNext :
            (state.setReader i reader).lock = some j :=
          hLock
        have hSame :=
          (readers_setReader_of_ne hNe state reader).symm ▸
            hWrite
        rw [part_of_write hLock hWrite,
          part_of_write hNext hSame]
  refine ⟨?_, fun j => ?_⟩
  · rw [hPart]
    exact hIntact.delivered
  · by_cases hEq : j = i
    · subst hEq
      simpa using hLeft
    · rw [readers_setReader_of_ne hEq]
      exact hIntact.left j

omit [DecidableEq ι] in
/- What a step of `write_transport` sends continues the part. -/
theorem take_append_sent
    (frame : List UInt8)
    {written next : Nat}
    (hNext : written ≤ next) :
    frame.take written ++
        (frame.drop written).take (next - written) =
      frame.take next := by
  rw [← List.take_add, Nat.add_sub_cancel' hNext]

/- The part of the frame that is being written grows. -/
theorem Intact.writes
    {state : HostState ι}
    {i : ι}
    {frame : List UInt8}
    {write : WriteState}
    (hIntact : state.Intact cmdevt)
    (hKept : state.Kept)
    (hPc : (state.readers i).pc = .write frame write)
    (answer : ReaderAnswer) :
    (state.stepWrite cmdevt i frame write answer).Intact
      cmdevt := by
  rcases (hKept i).writing frame write hPc with
    ⟨hFront, hWithin⟩
  have hLock := (hKept i).holder.mpr ⟨frame, write, hPc⟩
  have hMore := (nextWrite_within cmdevt state hWithin answer).2
  refine ⟨?_, fun j => ?_⟩
  · have hNextPc :
        ((state.stepWrite cmdevt i frame write answer).readers
            i).pc =
          .write frame
            (state.nextWrite cmdevt frame.length write
              answer) := by
      simp only [stepWrite, goto, readers_setReader_self]
    have hNextLock :
        (state.stepWrite cmdevt i frame write answer).lock =
          some i := hLock
    rw [part_of_write hNextLock hNextPc]
    simp only [stepWrite, hIntact.delivered,
      part_of_write hLock hPc, List.append_assoc,
      ← List.map_append]
    rw [take_append_sent frame hMore]
    rfl
  · by_cases hEq : j = i
    · subst hEq
      simp [stepWrite, goto, ReaderPc.LeftPart]
    · have hLeft := hIntact.left j
      simpa [stepWrite, goto,
        readers_setReader_of_ne hEq] using hLeft

/- A step of a thread after whole frames. -/
theorem Intact.readerStep
    {state : HostState ι}
    (hIntact : state.Intact cmdevt)
    (hKept : state.Kept)
    (i : ι)
    (answer : ReaderAnswer) :
    (readerStep cmdevt state i answer).Unbroken cmdevt := by
  have hHolds := fun j => (hKept j).holder.mp
  have hMove := readerStep_move cmdevt state i answer
  generalize Bluetooth.readerStep cmdevt state i answer = next
    at hMove
  cases hMove with
  | stays => exact .inl hIntact
  | goes pc hFollows hOps =>
      exact
        .inl
          (hIntact.goes cmdevt hHolds hFollows.before
            fun h => hIntact.left i (hFollows.left h))
  | performs op pc hFollows hOps =>
      have hNext := hIntact.perform cmdevt op
      exact
        .inl
          (hNext.goes cmdevt
            (fun j => ((hKept.perform op) j).holder.mp)
            hFollows.before
            fun h => hNext.left i (hFollows.left h))
  | reads piece hangup hPc =>
      have hReceived : (state.receive i piece).Intact cmdevt :=
        ⟨hIntact.delivered, hIntact.left⟩
      exact
        .inl
          (hReceived.goes cmdevt hHolds (by simp [receive, hPc])
            (by simp [ReaderPc.LeftPart]))
  | logs size hPc hVerdict hLog =>
      exact
        .inl
          (hIntact.goes cmdevt hHolds (by simp [hPc])
            (by simp [ReaderPc.LeftPart]))
  | locks frame hPc hLock =>
      have hDelivered := hIntact.delivered
      rw [part_of_unlocked hLock] at hDelivered
      refine .inl ⟨?_, fun j => ?_⟩
      · simpa [part, goto, setReader, WriteState.start]
          using hDelivered
      · by_cases hEq : j = i
        · subst hEq
          simp [goto, ReaderPc.LeftPart]
        · have hLeft := hIntact.left j
          simpa [goto, readers_setReader_of_ne hEq] using hLeft
  | writes frame write answer hPc hPhase =>
      exact .inl (hIntact.writes cmdevt hKept hPc answer)
  | returns frame write hPc hPhase =>
      have hLock := (hKept i).holder.mpr ⟨frame, write, hPc⟩
      have hWhole := ((hKept i).writing frame write hPc).2
      simp only [WriteState.Within, hPhase] at hWhole
      have hDelivered := hIntact.delivered
      rw [part_of_write hLock hPc, hWhole, List.take_length]
        at hDelivered
      refine .inl ⟨?_, fun j => ?_⟩
      · rw [part_of_unlocked rfl]
        simpa [setReader] using hDelivered
      · by_cases hEq : j = i
        · subst hEq
          simp [ReaderPc.LeftPart]
        · have hLeft := hIntact.left j
          simpa [readers_setReader_of_ne hEq] using hLeft
  | fails frame write hPc hPhase =>
      have hLock := (hKept i).holder.mpr ⟨frame, write, hPc⟩
      rcases (hKept i).writing frame write hPc with
        ⟨hFront, hShort⟩
      simp only [WriteState.Within, hPhase] at hShort
      have hDelivered := hIntact.delivered
      rw [part_of_write hLock hPc] at hDelivered
      rcases Nat.eq_zero_or_pos write.written with hZero | hPos
      · -- nothing of the frame has been written
        refine .inl ⟨?_, fun j => ?_⟩
        · rw [part_of_unlocked rfl]
          simpa [goto, setReader, hZero] using hDelivered
        · by_cases hEq : j = i
          · subst hEq
            simp [goto, ReaderPc.LeftPart, hZero]
          · have hLeft := hIntact.left j
            simpa [goto, readers_setReader_of_ne hEq] using hLeft
      · refine .inr ⟨i, frame, write.written, ?_⟩
        exact
          { gone := by simp [goto, ReaderPc.Gone]
            front := by simpa [goto] using hFront
            pos := hPos
            lt := hShort
            delivered := by
              simpa [goto, setReader] using hDelivered
            quiet := by
              -- it had the lock, so no other thread writes
              intro j other write' hWrite
              by_cases hEq : j = i
              · subst hEq
                simp [goto] at hWrite
              · rw [goto] at hWrite
                have hOther :=
                  (hKept j).holder.mpr
                    ⟨other, write',
                      readers_setReader_of_ne hEq state _ ▸
                        hWrite⟩
                rw [hLock, Option.some.injEq] at hOther
                exact absurd hOther.symm hEq
            marks := by
              intro _
              simpa [goto, ReaderPc.LeftPart] using hPos }

section Broken

variable {state : HostState ι}
variable {k : ι}
variable {left : List UInt8}
variable {written : Nat}

theorem Broken.perform
    (hBroken : state.Broken cmdevt k left written)
    (op : FailOp ι) :
    (state.perform op).Broken cmdevt k left written := by
  have hMarks :
      (state.perform op).running cmdevt = true →
        state.running cmdevt = true := by
    cases op with
    | driverState port => exact id
    | shutdown port => exact id
    | threadRunning port =>
        intro hRunning
        by_cases hPort : cmdevt = port
        · subst hPort
          simp [HostState.perform] at hRunning
        · simpa [HostState.perform, Function.update_of_ne hPort]
            using hRunning
  have hReaders := readers_perform state op
  refine
    { gone := by
        rw [hReaders]
        exact hBroken.gone
      front := by
        rw [hReaders]
        exact hBroken.front
      pos := hBroken.pos
      lt := hBroken.lt
      delivered := ?_
      quiet := by
        rw [hReaders]
        exact hBroken.quiet
      marks := by
        rw [hReaders]
        exact fun h => hBroken.marks (hMarks h) }
  cases op <;> exact hBroken.delivered

/- Another thread that sends nothing. -/
theorem Broken.other
    {next : HostState ι}
    {i : ι}
    (hBroken : state.Broken cmdevt k left written)
    (hNe : k ≠ i)
    (hReaders : ∀ j, j ≠ i → next.readers j = state.readers j)
    (hQuiet : ∀ frame write,
      (next.readers i).pc = .write frame write →
        write.written = 0 ∧
          (write.phase = .test ∨
            write.phase = .returned false))
    (hRunning : next.running = state.running)
    (hSent : next.sent = state.sent)
    (hDelivered : next.delivered = state.delivered) :
    next.Broken cmdevt k left written where
  gone := by
    rw [hReaders k hNe]
    exact hBroken.gone
  front := by
    rw [hReaders k hNe]
    exact hBroken.front
  pos := hBroken.pos
  lt := hBroken.lt
  delivered := by
    rw [hDelivered, hSent]
    exact hBroken.delivered
  quiet := by
    intro j frame write hWrite
    by_cases hEq : j = i
    · subst hEq
      exact hQuiet frame write hWrite
    · rw [hReaders j hEq] at hWrite
      exact hBroken.quiet j frame write hWrite
  marks := by
    rw [hReaders k hNe, hRunning]
    exact hBroken.marks

/- A thread that goes on by itself. -/
theorem Broken.goes
    {i : ι}
    {pc : ReaderPc ι}
    (hBroken : state.Broken cmdevt k left written)
    (hFollows : Follows cmdevt state i pc) :
    (state.goto i pc).Broken cmdevt k left written := by
  by_cases hEq : k = i
  · subst hEq
    refine
      { gone := ?_
        front := ?_
        pos := hBroken.pos
        lt := hBroken.lt
        delivered := hBroken.delivered
        quiet := ?_
        marks := ?_ }
    · simpa [goto] using hFollows.gone hBroken.gone
    · simpa [goto] using hBroken.front
    · intro j frame write hWrite
      by_cases hOther : j = k
      · subst hOther
        exact
          absurd (by simpa [goto] using hWrite)
            (hFollows.after frame write)
      · rw [goto, readers_setReader_of_ne hOther] at hWrite
        exact hBroken.quiet j frame write hWrite
    · intro hRunning
      simpa [goto] using
        hFollows.marks hRunning (hBroken.marks hRunning)
  · apply hBroken.other cmdevt hEq
    · intro j hj
      exact readers_setReader_of_ne hj _ _
    · intro frame write hWrite
      exact
        absurd (by simpa [goto] using hWrite)
          (hFollows.after frame write)
    · rfl
    · rfl
    · rfl

/- After a part of a frame a step sends nothing. -/
theorem Broken.readerStep
    (hBroken : state.Broken cmdevt k left written)
    (hKept : state.Kept)
    (i : ι)
    (answer : ReaderAnswer)
    (hAlone : WritesAlone cmdevt state (.reader i answer)) :
    (Bluetooth.readerStep cmdevt state i answer).Broken cmdevt
      k left written := by
  have hMove := readerStep_move cmdevt state i answer
  generalize Bluetooth.readerStep cmdevt state i answer = next
    at hMove
  -- only a thread that is not gone reads, locks and writes
  have hOther : ¬ (state.readers i).pc.Gone → k ≠ i := by
    rintro hGone rfl
    exact hGone hBroken.gone
  have hReaders :
      ∀ (reader : Reader ι) j, j ≠ i →
        (state.setReader i reader).readers j =
          state.readers j :=
    fun reader j hj => readers_setReader_of_ne hj state reader
  cases hMove with
  | stays => exact hBroken
  | goes pc hFollows hOps => exact hBroken.goes cmdevt hFollows
  | performs op pc hFollows hOps =>
      exact (hBroken.perform cmdevt op).goes cmdevt hFollows
  | reads piece hangup hPc =>
      apply hBroken.other cmdevt
      · exact hOther (by simp [hPc, ReaderPc.Gone])
      · exact hReaders _
      · simp
      · rfl
      · rfl
      · rfl
  | logs size hPc hVerdict hLog =>
      apply hBroken.other cmdevt
      · exact hOther (by simp [hPc, ReaderPc.Gone])
      · exact hReaders _
      · simp
      · rfl
      · rfl
      · rfl
  | locks frame hPc hLock =>
      apply hBroken.other cmdevt
      · exact hOther (by simp [hPc, ReaderPc.Gone])
      · exact hReaders _
      · intro frame' write hWrite
        simp only [goto, readers_setReader_self,
          ReaderPc.write.injEq] at hWrite
        rw [← hWrite.2]
        exact ⟨rfl, .inl rfl⟩
      · rfl
      · rfl
      · rfl
  | writes frame write answer hPc hPhase =>
      rcases hBroken.quiet i frame write hPc with
        ⟨hZero, hBegun⟩
      have hTest := hBegun.resolve_right (hPhase false)
      have hLong := (hKept i).length_pos hPc
      -- port 0 has been stopped, or it would not write alone
      have hStopped : state.running cmdevt = false := by
        by_contra hRunning
        rw [Bool.not_eq_false] at hRunning
        exact
          hAlone frame write hPc hTest (by omega) hRunning k
            (hBroken.marks hRunning)
      have hNext :
          state.nextWrite cmdevt frame.length write answer =
            ⟨0, .returned false⟩ := by
        simp only [nextWrite, writeTransportStep, hTest,
          hStopped, hZero]
        simp [Nat.ne_of_lt hLong]
      apply hBroken.other cmdevt
      · exact hOther (by simp [hPc, ReaderPc.Gone])
      · exact hReaders _
      · intro frame' write' hWrite
        simp only [stepWrite, goto, readers_setReader_self,
          ReaderPc.write.injEq, hNext] at hWrite
        rw [← hWrite.2]
        exact ⟨rfl, .inr rfl⟩
      · rfl
      · rfl
      · simp [stepWrite, hNext]
  | returns frame write hPc hPhase =>
      rcases (hBroken.quiet i frame write hPc).2 with h | h <;>
        simp [hPhase] at h
  | fails frame write hPc hPhase =>
      apply hBroken.other cmdevt
      · exact hOther (by simp [hPc, ReaderPc.Gone])
      · exact hReaders _
      · simp [goto]
      · rfl
      · rfl
      · rfl

end Broken

/- A step keeps it, if a thread that writes writes alone. -/
theorem Unbroken.hostStep
    {state : HostState ι}
    {action : HostAction ι}
    (hUnbroken : state.Unbroken cmdevt)
    (hKept : state.Kept)
    (hAlone : WritesAlone cmdevt state action) :
    (hostStep cmdevt state action).Unbroken cmdevt := by
  have hPerform :
      ∀ op, (state.perform op).Unbroken cmdevt := by
    intro op
    rcases hUnbroken with
      hIntact | ⟨k, left, written, hBroken⟩
    · exact .inl (hIntact.perform cmdevt op)
    · exact
        .inr ⟨k, left, written, hBroken.perform cmdevt op⟩
  cases action with
  | reader i answer =>
      rcases hUnbroken with
        hIntact | ⟨k, left, written, hBroken⟩
      · exact hIntact.readerStep cmdevt hKept i answer
      · exact
          .inr
            ⟨k, left, written,
              hBroken.readerStep cmdevt hKept i answer hAlone⟩
  | other op =>
      cases op with
      | driverState port => exact hPerform (.driverState port)
      | threadRunning port =>
          exact hPerform (.threadRunning port)
      | shutdown port =>
          simp only [Bluetooth.hostStep]
          split_ifs
          · exact hUnbroken
          · exact hPerform (.shutdown port)

end HostState

------------------------------------------------------------
-- Atomic Frames
------------------------------------------------------------

/- The frames for the host among the bytes of a port. -/
def forwarded (received : List UInt8) : List (List UInt8) :=
  (scommRule.framing.split received).frames.filter
    fun frame => !isLog frame

/- What a thread has sent are the first of them. -/
theorem Handled.forwarded_eq
    {received stream : List UInt8}
    {sent : List (List UInt8)}
    (hHandled : Handled received stream sent) :
    forwarded received = sent ++ forwarded stream := by
  rcases hHandled with ⟨frames, hReceived, hFrames, hSent⟩
  have hSplit :=
    Framing.split_flatten scommRule.framing
      scommRule.verdict_nil hFrames
  have hAppend :=
    (scommRule.framing.split_append frames.flatten stream).1
  rw [hSplit, if_pos rfl, List.nil_append] at hAppend
  rw [forwarded, hReceived, hAppend, List.filter_append, hSent,
    forwarded]

/- The next is the one at the front of the stream. -/
theorem AtFront.forwarded_eq
    {stream frame : List UInt8}
    (hFront : AtFront stream frame) :
    forwarded stream =
      frame :: forwarded (stream.drop frame.length) := by
  rw [forwarded,
    Framing.split_of_complete _ hFront.verdict, hFront.take,
    List.filter_cons_of_pos (by simp [hFront.noLog]), forwarded]

/-
  The socket has had these whole frames and, last, a part of
  one more. Of each port they are the first it has received,
  in their order.
-/
structure AtomicAs
    (state : HostState ι)
    (whole : List (ι × List UInt8))
    (last : Option (ι × List UInt8)) : Prop where
  delivered : state.delivered = tagged (whole ++ last.toList)
  ordered : ∀ i,
    framesOf i whole <+: forwarded (state.received i)
  truncated : ∀ i part, last = some (i, part) →
    part ≠ [] ∧
      ∃ frame,
        part <+: frame ∧ part ≠ frame ∧
          framesOf i whole ++ [frame] <+:
            forwarded (state.received i)

/- Frames are atomic on the host socket. -/
def FramesAtomic (state : HostState ι) : Prop :=
  ∃ whole last, AtomicAs state whole last

namespace HostState

variable {state : HostState ι}

theorem Kept.ordered
    (hKept : state.Kept)
    (i : ι) :
    framesOf i state.sent <+: forwarded (state.received i) := by
  rw [(hKept i).handled.forwarded_eq]
  exact List.prefix_append _ _

/- The frames sent by a port, and the one at its front. -/
theorem Kept.ordered_next
    (hKept : state.Kept)
    {i : ι}
    {frame : List UInt8}
    (hFront : AtFront (state.readers i).stream frame) :
    framesOf i state.sent ++ [frame] <+:
      forwarded (state.received i) := by
  rw [(hKept i).handled.forwarded_eq, hFront.forwarded_eq]
  refine
    ⟨forwarded ((state.readers i).stream.drop frame.length),
      ?_⟩
  rw [List.append_assoc, List.singleton_append]

theorem framesAtomic_of_sent
    (hKept : state.Kept)
    (hDelivered : state.delivered = tagged state.sent) :
    FramesAtomic state := by
  refine ⟨state.sent, none, ?_, hKept.ordered, by simp⟩
  simpa using hDelivered

/- Whole frames and any part of the next one of a thread. -/
theorem framesAtomic_of_part
    {i : ι}
    {frame : List UInt8}
    {written : Nat}
    (hKept : state.Kept)
    (hFront : AtFront (state.readers i).stream frame)
    (hWritten : written ≤ frame.length)
    (hDelivered :
      state.delivered =
        tagged state.sent ++
          (frame.take written).map (Prod.mk i)) :
    FramesAtomic state := by
  rcases Nat.eq_zero_or_pos written with hZero | hPos
  · apply framesAtomic_of_sent hKept
    simpa [hZero] using hDelivered
  · rcases Nat.lt_or_eq_of_le hWritten with hShort | hWhole
    · refine
        ⟨state.sent, some (i, frame.take written), ?_,
          hKept.ordered, ?_⟩
      · simpa using hDelivered
      · intro j part hPart
        simp only [Option.some.injEq, Prod.mk.injEq] at hPart
        rcases hPart with ⟨hPort, hBytes⟩
        subst hPort
        subst hBytes
        refine
          ⟨?_, frame, List.take_prefix _ _, ?_,
            hKept.ordered_next hFront⟩
        · apply List.ne_nil_of_length_pos
          rw [List.length_take]
          omega
        · intro hEq
          have hLength := congrArg List.length hEq
          rw [List.length_take] at hLength
          omega
    · -- the frame is whole, and the lock is still held
      refine
        ⟨state.sent ++ [(i, frame)], none, ?_, fun j => ?_,
          by simp⟩
      · rw [hWhole, List.take_length] at hDelivered
        simpa using hDelivered
      · by_cases hEq : j = i
        · subst hEq
          rw [framesOf_append_self]
          exact hKept.ordered_next hFront
        · rw [framesOf_append_of_ne hEq]
          exact hKept.ordered j

theorem Unbroken.framesAtomic
    (hUnbroken : state.Unbroken cmdevt)
    (hKept : state.Kept) :
    FramesAtomic state := by
  rcases hUnbroken with hIntact | ⟨k, left, written, hBroken⟩
  · have hDelivered := hIntact.delivered
    cases hLock : state.lock with
    | none =>
        rw [part_of_unlocked hLock, List.append_nil]
          at hDelivered
        exact framesAtomic_of_sent hKept hDelivered
    | some i =>
        rcases (hKept i).holder.mp hLock with
          ⟨frame, write, hWrite⟩
        rcases (hKept i).writing frame write hWrite with
          ⟨hFront, hWithin⟩
        rw [part_of_write hLock hWrite] at hDelivered
        exact
          framesAtomic_of_part hKept hFront hWithin.le
            hDelivered
  · exact
      framesAtomic_of_part hKept hBroken.front
        (Nat.le_of_lt hBroken.lt) hBroken.delivered

omit [DecidableEq ι] in
theorem unbroken_start (running : ι → Bool) :
    (HostState.start running).Unbroken cmdevt := by
  refine .inl ⟨?_, fun i => ?_⟩
  · simp [start, part, tagged]
  · simp [start, ReaderPc.LeftPart]

theorem unbroken_run
    {running : ι → Bool}
    {schedule : List (HostAction ι)}
    (hAlone : Schedule.Along (Bluetooth.hostStep cmdevt)
      (WritesAlone cmdevt) (HostState.start running)
      schedule) :
    (Schedule.run (Bluetooth.hostStep cmdevt)
      (HostState.start running) schedule).Unbroken cmdevt := by
  have hBoth :=
    hAlone.invariant
      (I := fun state => state.Kept ∧ state.Unbroken cmdevt)
      (fun _ action hState hAction =>
        ⟨hState.1.hostStep cmdevt action,
          hState.2.hostStep cmdevt hState.1 hAction⟩)
      ⟨kept_start running, unbroken_start cmdevt running⟩
  exact hBoth.2

end HostState

end Frames

end Bluetooth

end MicaBoards
