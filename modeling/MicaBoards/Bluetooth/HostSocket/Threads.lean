import MicaBoards.Bluetooth.HostSocket.Steps

/-
  What holds of the threads in every run, whatever they do to
  each other: one of them writes at a time, and each sends the
  frames of its port in their order.

  Main declarations:
    * `HostState.KeptAt`
    * `HostState.Kept.hostStep`
    * `HostState.kept_run`
-/

------------------------------------------------------------
-- Each Thread's Frames
------------------------------------------------------------

namespace MicaBoards

namespace Bluetooth

section Threads

variable {ι : Type}

variable [DecidableEq ι]

variable (cmdevt : ι)

/- The frames of one port. -/
def framesOf
    (i : ι)
    (sent : List (ι × List UInt8)) : List (List UInt8) :=
  (sent.filter (·.1 = i)).map Prod.snd

@[simp] theorem framesOf_append_self
    (i : ι)
    (sent : List (ι × List UInt8))
    (frame : List UInt8) :
    framesOf i (sent ++ [(i, frame)]) =
      framesOf i sent ++ [frame] := by
  simp [framesOf]

theorem framesOf_append_of_ne
    {i j : ι}
    (hNe : j ≠ i)
    (sent : List (ι × List UInt8))
    (frame : List UInt8) :
    framesOf j (sent ++ [(i, frame)]) = framesOf j sent := by
  simp [framesOf, hNe.symm]

/- What a thread has read are frames, and then its stream. -/
def Handled
    (received stream : List UInt8)
    (sent : List (List UInt8)) : Prop :=
  ∃ frames : List (List UInt8),
    received = frames.flatten ++ stream ∧
      (∀ frame ∈ frames, scommRule.Admissible frame) ∧
      sent = frames.filter (fun frame => !isLog frame)

/- A whole frame has been handled. -/
theorem Handled.drop
    {received stream : List UInt8}
    {sent : List (List UInt8)}
    {size : Nat}
    (hHandled : Handled received stream sent)
    (hVerdict : scommRule.verdict stream = .complete size) :
    Handled received (stream.drop size)
      (sent ++
        [stream.take size].filter
          (fun frame => !isLog frame)) := by
  rcases hHandled with ⟨frames, hReceived, hFrames, hSent⟩
  refine ⟨frames ++ [stream.take size], ?_, ?_, ?_⟩
  · rw [hReceived, List.flatten_append,
      List.flatten_singleton, List.append_assoc,
      List.take_append_drop]
  · intro frame hFrame
    rcases List.mem_append.mp hFrame with hFrame | hFrame
    · exact hFrames frame hFrame
    · rw [List.mem_singleton.mp hFrame]
      exact scommRule.admissible_take hVerdict
  · rw [hSent, List.filter_append]

namespace HostState

/- What holds of a thread at any time. -/
structure KeptAt (state : HostState ι) (i : ι) : Prop where
  handled :
    Handled (state.received i) (state.readers i).stream
      (framesOf i state.sent)
  locking : ∀ frame,
    (state.readers i).pc = .lock frame →
      AtFront (state.readers i).stream frame
  writing : ∀ frame write,
    (state.readers i).pc = .write frame write →
      AtFront (state.readers i).stream frame ∧
        write.Within frame.length
  holder :
    state.lock = some i ↔
      ∃ frame write, (state.readers i).pc = .write frame write

/- The steps of another thread do not matter for it. -/
theorem KeptAt.congr
    {state next : HostState ι}
    {i : ι}
    (hKept : state.KeptAt i)
    (hReader : next.readers i = state.readers i)
    (hReceived : next.received i = state.received i)
    (hSent : framesOf i next.sent = framesOf i state.sent)
    (hLock : next.lock = some i ↔ state.lock = some i) :
    next.KeptAt i where
  handled := by
    rw [hReader, hReceived, hSent]
    exact hKept.handled
  locking := by
    rw [hReader]
    exact hKept.locking
  writing := by
    rw [hReader]
    exact hKept.writing
  holder := by
    rw [hReader, hLock]
    exact hKept.holder

/- The frame that a thread writes is not empty. -/
theorem KeptAt.length_pos
    {state : HostState ι}
    {i : ι}
    {frame : List UInt8}
    {write : WriteState}
    (hKept : state.KeptAt i)
    (hPc : (state.readers i).pc = .write frame write) :
    0 < frame.length :=
  (scommRule.framing.bounds
    (hKept.writing frame write hPc).1.verdict).1

/- It holds of all. -/
def Kept (state : HostState ι) : Prop :=
  ∀ i, state.KeptAt i

@[simp] theorem readers_setReader_self
    (state : HostState ι)
    (i : ι)
    (reader : Reader ι) :
    (state.setReader i reader).readers i = reader := by
  simp [setReader]

theorem readers_setReader_of_ne
    {i j : ι}
    (hNe : j ≠ i)
    (state : HostState ι)
    (reader : Reader ι) :
    (state.setReader i reader).readers j =
      state.readers j := by
  simp [setReader, Function.update_of_ne hNe]

/- A thread that goes on by itself keeps it. -/
theorem KeptAt.goes
    {state : HostState ι}
    {i j : ι}
    {pc : ReaderPc ι}
    (hKept : state.Kept)
    (hFollows : Follows cmdevt state i pc) :
    (state.goto i pc).KeptAt j := by
  by_cases hEq : j = i
  · subst hEq
    have hReader := hKept j
    refine
      { handled := ?_
        locking := ?_
        writing := ?_
        holder := ?_ }
    · simpa [goto, setReader] using hReader.handled
    · intro frame hFrame
      simpa [goto] using
        hFollows.front frame (by simpa [goto] using hFrame)
    · intro frame write hWrite
      exact
        absurd (by simpa [goto] using hWrite)
          (hFollows.after frame write)
    · refine iff_of_false ?_ ?_
      · intro hLock
        rcases hReader.holder.mp hLock with
          ⟨frame, write, hWrite⟩
        exact hFollows.before frame write hWrite
      · rintro ⟨frame, write, hWrite⟩
        exact
          hFollows.after frame write
            (by simpa [goto] using hWrite)
  · exact
      (hKept j).congr (readers_setReader_of_ne hEq _ _) rfl rfl
        Iff.rfl

/- Nor does an access of `scomm_vendor_fail_transport`. -/
theorem Kept.perform
    {state : HostState ι}
    (hKept : state.Kept)
    (op : FailOp ι) :
    (state.perform op).Kept := by
  intro j
  cases op <;> exact (hKept j).congr rfl rfl rfl Iff.rfl

omit [DecidableEq ι] in
/- The socket takes at most the rest of a frame. -/
theorem sendReply_le
    {state : HostState ι}
    {length count : Nat}
    {reply : SendReply}
    (hSent : state.sendReply cmdevt length reply = .sent count) :
    count ≤ length := by
  unfold sendReply at hSent
  split_ifs at hSent
  cases reply with
  | sent room =>
      cases room with
      | zero => simp at hSent
      | succ room =>
          simp only [SendReply.sent.injEq] at hSent
          omega
  | interrupted => simp at hSent
  | again => simp at hSent
  | zero => simp at hSent
  | failed => simp at hSent

omit [DecidableEq ι] in
/- So a step on the socket stays within the frame. -/
theorem nextWrite_within
    (state : HostState ι)
    {length : Nat}
    {write : WriteState}
    (hWithin : write.Within length)
    (answer : ReaderAnswer) :
    (state.nextWrite cmdevt length write answer).Within
        length ∧
      write.written ≤
        (state.nextWrite cmdevt length write answer).written := by
  refine hWithin.step _ ?_
  intro count hCount
  have hRest := sendReply_le cmdevt hCount
  have hWritten := hWithin.le
  omega

/- A step of a thread keeps what holds of all. -/
theorem Kept.readerStep
    {state : HostState ι}
    (hKept : state.Kept)
    (i : ι)
    (answer : ReaderAnswer) :
    (readerStep cmdevt state i answer).Kept := by
  have hMove := readerStep_move cmdevt state i answer
  generalize Bluetooth.readerStep cmdevt state i answer = next
    at hMove
  intro j
  cases hMove with
  | stays => exact hKept j
  | goes pc hFollows hOps => exact KeptAt.goes cmdevt hKept hFollows
  | performs op pc hFollows hOps =>
      exact KeptAt.goes cmdevt (hKept.perform op) hFollows
  | reads piece hangup hPc =>
      by_cases hEq : j = i
      · subst hEq
        rcases (hKept j).handled with
          ⟨frames, hReceived, hFrames, hSent⟩
        have hHolder := (hKept j).holder
        refine
          { handled := ⟨frames, ?_, hFrames, hSent⟩
            locking := by simp
            writing := by simp
            holder := by simpa [setReader, receive, hPc] using hHolder }
        simp [receive, setReader, hReceived]
      · refine
          (hKept j).congr (readers_setReader_of_ne hEq _ _) ?_
            rfl Iff.rfl
        simp [receive, setReader, Function.update_of_ne hEq]
  | logs size hPc hVerdict hLog =>
      by_cases hEq : j = i
      · subst hEq
        have hHandled := (hKept j).handled.drop hVerdict
        have hHolder := (hKept j).holder
        refine
          { handled := ?_
            locking := by simp
            writing := by simp
            holder := by simpa [setReader, hPc] using hHolder }
        simpa [setReader, hLog] using hHandled
      · exact
          (hKept j).congr (readers_setReader_of_ne hEq _ _) rfl
            rfl Iff.rfl
  | locks frame hPc hLock =>
      by_cases hEq : j = i
      · subst hEq
        have hFront := (hKept j).locking frame hPc
        refine
          { handled := by
              simpa [goto, setReader] using (hKept j).handled
            locking := by simp [goto, setReader]
            writing := ?_
            holder := by simp [goto, setReader] }
        intro frame' write hWrite
        have hSame :
            frame = frame' ∧ WriteState.start = write := by
          simpa [goto, setReader] using hWrite
        rw [← hSame.1, ← hSame.2]
        refine ⟨by simpa [goto, setReader] using hFront, ?_⟩
        simp [WriteState.Within, WriteState.start]
      · refine
          (hKept j).congr
            (readers_setReader_of_ne hEq _ _) rfl rfl ?_
        simp [hLock, Ne.symm hEq]
  | writes frame write answer hPc hPhase =>
      by_cases hEq : j = i
      · subst hEq
        rcases (hKept j).writing frame write hPc with
          ⟨hFront, hWithin⟩
        have hHolder := (hKept j).holder
        refine
          { handled := by
              simpa [stepWrite, goto, setReader] using
                (hKept j).handled
            locking := by simp [stepWrite, goto, setReader]
            writing := ?_
            holder := by
              simpa [stepWrite, goto, setReader, hPc] using
                hHolder }
        intro frame' write' hWrite
        simp only [stepWrite, goto, readers_setReader_self,
          ReaderPc.write.injEq] at hWrite ⊢
        rcases hWrite with ⟨rfl, rfl⟩
        exact ⟨hFront, (nextWrite_within cmdevt state hWithin answer).1⟩
      · exact
          (hKept j).congr (readers_setReader_of_ne hEq _ _) rfl
            rfl Iff.rfl
  | returns frame write hPc hPhase =>
      have hHolder :=
        (hKept i).holder.mpr ⟨frame, write, hPc⟩
      by_cases hEq : j = i
      · subst hEq
        rcases (hKept j).writing frame write hPc with
          ⟨hFront, hWithin⟩
        have hHandled := (hKept j).handled.drop hFront.verdict
        refine
          { handled := ?_
            locking := by simp
            writing := by simp
            holder := by simp }
        simpa [setReader, hFront.take, hFront.noLog] using
          hHandled
      · refine
          (hKept j).congr (readers_setReader_of_ne hEq _ _) rfl
            (framesOf_append_of_ne hEq _ _) ?_
        simp [hHolder, Ne.symm hEq]
  | fails frame write hPc hPhase =>
      have hHolder :=
        (hKept i).holder.mpr ⟨frame, write, hPc⟩
      by_cases hEq : j = i
      · subst hEq
        refine
          { handled := by
              simpa [goto, setReader] using (hKept j).handled
            locking := by simp [goto]
            writing := by simp [goto]
            holder := by simp [goto] }
      · refine
          (hKept j).congr (readers_setReader_of_ne hEq _ _) rfl
            rfl ?_
        simp [hHolder, Ne.symm hEq]

/- So does every step of the library. -/
theorem Kept.hostStep
    {state : HostState ι}
    (hKept : state.Kept)
    (action : HostAction ι) :
    (hostStep cmdevt state action).Kept := by
  cases action with
  | reader i answer => exact hKept.readerStep cmdevt i answer
  | other op =>
      cases op with
      | driverState port =>
          exact hKept.perform (.driverState port)
      | threadRunning port =>
          exact hKept.perform (.threadRunning port)
      | shutdown port =>
          simp only [Bluetooth.hostStep]
          split_ifs
          · exact hKept
          · exact hKept.perform (.shutdown port)

theorem kept_start (running : ι → Bool) :
    (HostState.start running).Kept := by
  intro i
  refine
    { handled := ⟨[], ?_⟩
      locking := by simp [start]
      writing := by simp [start]
      holder := by simp [start] }
  simp [start, framesOf]

/- It holds after every schedule. -/
theorem kept_run
    (running : ι → Bool)
    (schedule : List (HostAction ι)) :
    (Schedule.run (Bluetooth.hostStep cmdevt)
      (HostState.start running) schedule).Kept :=
  (Schedule.along_true _ schedule).invariant
    (fun _ action hKept _ => hKept.hostStep cmdevt action)
    (kept_start running)

end HostState

end Threads

end Bluetooth

end MicaBoards
