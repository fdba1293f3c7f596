import MicaBoards.Bluetooth.HostSocket.Overlap
import MicaBoards.Bluetooth.Process.Outbound

/-
  What `chip_to_kernel` writes to /dev/vhci, in every run of
  the process: of each descriptor the frames it has brought, in
  their order, and at most a part of one more, after which
  nothing follows.

  Key definitions include:
    * `Bridge.Inbound`
  Main declarations:
    * `Bridge.inbound_run`
    * `portsToKernel`
-/

------------------------------------------------------------
-- Writes To The Kernel
------------------------------------------------------------

namespace MicaBoards

namespace Bluetooth

namespace Process

/- A call of `write_vhci_frame` takes a frame once. -/
def Call.Once (length : Nat) (call : Call) : Prop :=
  match call.pc with
  | .returned true => call.done = length
  | .returned false => call.done < length
  | _ => call.done = 0

/- A step keeps that. -/
theorem Call.Once.step
    {length : Nat}
    {call : Call}
    (hOnce : call.Once length)
    (hLength : 0 < length)
    (control : Control)
    (send : SendReply)
    (wait : WaitReply) :
    (callStep writeVhciFrameTook length control call send
      wait).2.Once length := by
  rcases call with ⟨done, pc⟩
  cases pc with
  | write =>
      have hDone : done = 0 := hOnce
      subst hDone
      rcases send with (_ | count) | _ | _ | _ | _
      · exact hLength
      · simp only [callStep, writeVhciFrameTook, Nat.sub_zero]
        by_cases hWhole : min (count + 1) length = length
        · simp [Call.Once, hWhole]
        · simp only [Call.Once, hWhole, decide_false]
          omega
      · rfl
      · rfl
      · exact hLength
      · exact hLength
  | wait =>
      have hDone : done = 0 := hOnce
      subst hDone
      cases wait with
      | interrupted => rfl
      | failed => exact hLength
      | events broken writable =>
          simp only [callStep]
          split_ifs <;> rfl
  | consume next =>
      simp only [callStep]
      split_ifs <;> exact hOnce
  | request next => exact hOnce
  | check next =>
      have hDone : done = 0 := hOnce
      subst hDone
      simp only [callStep]
      split_ifs
      · exact hLength
      · cases next with
        | write => rfl
        | wait => rfl
        | broken => exact hLength
  | returned ok => exact hOnce

------------------------------------------------------------
-- The Invariant
------------------------------------------------------------

/- The thread has started, and is not in a write. -/
def ReaderPc.Calm : ReaderPc → Prop
| .idle => False
| .write _ _ _ => False
| _ => True

theorem ReaderLook.pc_calm
    (next : ReaderLook) :
    next.pc.Calm := by
  cases next <;> trivial

namespace Bridge

variable (bridge : Bridge)

/- The reader thread writes nothing more. -/
def Leaving : Prop :=
  match bridge.reader with
  | .writeFailed _ => True
  | .fail _ => True
  | .stop _ => True
  | .handled _ => bridge.control.running = false
  | .loop => bridge.control.running = false
  | .exited => True
  | _ => False

/- It is at the frames of a descriptor. -/
def Busy (i : Nat) : Prop :=
  match bridge.reader with
  | .decode turn => turn.index = i
  | .write turn _ _ => turn.index = i
  | _ => False

/- A frame for the kernel at the front of a stream. -/
structure Front (i : Nat) (frame : List UInt8) : Prop where
  verdict :
    bridge.rule.verdict (bridge.streams i) =
      .complete frame.length
  take : (bridge.streams i).take frame.length = frame
  noLog : isLog frame = false

/-
  What /dev/vhci has taken of a descriptor after the whole
  frames: nothing, what the call has written, or a part of the
  frame at which the thread has stopped.
-/
def Short (i : Nat) (short : List (List UInt8)) : Prop :=
  short = [] ∧
      (∀ turn frame call,
        bridge.reader = .write turn frame call →
        turn.index = i → call.done = 0) ∨
    (∃ turn frame call,
      bridge.reader = .write turn frame call ∧
        turn.index = i ∧ 0 < call.done ∧
        short = [frame.take call.done]) ∨
    (bridge.Leaving ∧
      ∃ frame count,
        bridge.Front i frame ∧ 0 < count ∧
          count < frame.length ∧ short = [frame.take count])

/- What holds of a descriptor in every run. -/
structure InboundAt (i : Nat) : Prop where
  handled : ∃ (frames short : List (List UInt8)),
    bridge.received i = frames.flatten ++ bridge.streams i ∧
      (∀ frame ∈ frames, bridge.rule.Admissible frame) ∧
      framesOf i bridge.kernel =
        frames.filter (fun frame => !isLog frame) ++ short ∧
      bridge.Short i short
  settled :
    bridge.rule.verdict (bridge.streams i) = .incomplete ∨
      bridge.Busy i ∨ bridge.Leaving

/- What holds of all. -/
structure Inbound : Prop where
  each : ∀ i, bridge.InboundAt i
  writing : ∀ turn frame call,
    bridge.reader = .write turn frame call →
      bridge.Front turn.index frame ∧ call.Once frame.length
  idle : bridge.reader = .idle →
    (∀ i, bridge.received i = [] ∧ bridge.streams i = []) ∧
      bridge.kernel = []
  setup : bridge.main.Setup → bridge.reader = .idle

variable {bridge}

/- There is nothing before the thread starts. -/
theorem inbound_of_empty
    (hReceived : ∀ i, bridge.received i = [])
    (hStreams : ∀ i, bridge.streams i = [])
    (hKernel : bridge.kernel = [])
    (hReader :
      bridge.reader = .idle ∨
        bridge.reader = .start ∧ ¬ bridge.main.Setup) :
    bridge.Inbound where
  each i := by
    refine ⟨⟨[], [], ?_, by simp, ?_, .inl ⟨rfl, ?_⟩⟩, .inl ?_⟩
    · rw [hReceived, hStreams]
      rfl
    · rw [hKernel]
      rfl
    · intro turn frame call hWrite
      rcases hReader with hReader | ⟨hReader, _⟩
      · rw [hReader] at hWrite
        cases hWrite
      · rw [hReader] at hWrite
        cases hWrite
    · rw [hStreams]
      exact bridge.rule.verdict_nil
  writing turn frame call hWrite := by
    rcases hReader with hReader | ⟨hReader, _⟩
    · rw [hReader] at hWrite
      cases hWrite
    · rw [hReader] at hWrite
      cases hWrite
  idle _ := ⟨fun i => ⟨hReceived i, hStreams i⟩, hKernel⟩
  setup hSetup := hReader.resolve_right fun h => h.2 hSetup

/-
  The thread goes on, at least to a write, without a byte read
  or written.
-/
theorem Inbound.goes
    {next : Bridge}
    (hInbound : bridge.Inbound)
    (hStreams : next.streams = bridge.streams)
    (hReceived : next.received = bridge.received)
    (hKernel : next.kernel = bridge.kernel)
    (hRule : next.rule = bridge.rule)
    (hIdle : next.reader ≠ .idle)
    (hSetup : ¬ next.main.Setup)
    (hBefore : ∀ turn frame call,
      bridge.reader ≠ .write turn frame call)
    (hAfter : ∀ turn frame call,
      next.reader = .write turn frame call →
        bridge.Front turn.index frame ∧
          call = .writeVhciFrame)
    (hLeaving : bridge.Leaving → next.Leaving)
    (hBusy : ∀ i, bridge.Busy i →
      bridge.rule.verdict (bridge.streams i) = .incomplete ∨
        next.Busy i ∨ next.Leaving) :
    next.Inbound := by
  have hFront :
      ∀ i frame, bridge.Front i frame → next.Front i frame := by
    intro i frame hFront
    refine ⟨?_, ?_, hFront.noLog⟩
    · rw [hRule, hStreams]
      exact hFront.verdict
    · rw [hStreams]
      exact hFront.take
  refine
    { each := fun i => ⟨?_, ?_⟩
      writing := ?_
      idle := fun h => absurd h hIdle
      setup := fun h => absurd h hSetup }
  · rcases (hInbound.each i).handled with
      ⟨frames, short, hBytes, hFrames, hTaken, hShort⟩
    refine ⟨frames, short, ?_, ?_, ?_, ?_⟩
    · rw [hReceived, hStreams]
      exact hBytes
    · rw [hRule]
      exact hFrames
    · rw [hKernel]
      exact hTaken
    · rcases hShort with ⟨hNone, _⟩ |
        ⟨turn, frame, call, hWrite, _⟩ |
        ⟨hLeft, frame, count, hLast, hCount⟩
      · refine .inl ⟨hNone, ?_⟩
        intro turn frame call hWrite _
        rw [(hAfter turn frame call hWrite).2]
        rfl
      · exact absurd hWrite (hBefore turn frame call)
      · exact
          .inr
            (.inr
              ⟨hLeaving hLeft, frame, count,
                hFront i frame hLast, hCount⟩)
  · rw [hRule, hStreams]
    rcases (hInbound.each i).settled with
      hWaits | hNow | hLeft
    · exact .inl hWaits
    · exact hBusy i hNow
    · exact .inr (.inr (hLeaving hLeft))
  · intro turn frame call hWrite
    rcases hAfter turn frame call hWrite with ⟨hLast, rfl⟩
    exact ⟨hFront turn.index frame hLast, rfl⟩

/- Nothing changes but what others change. -/
theorem Inbound.congr
    {next : Bridge}
    (hInbound : bridge.Inbound)
    (hStreams : next.streams = bridge.streams)
    (hReceived : next.received = bridge.received)
    (hKernel : next.kernel = bridge.kernel)
    (hBuffers : next.buffers = bridge.buffers)
    (hReader : next.reader = bridge.reader)
    (hRunning : bridge.control.running = false →
      next.control.running = false)
    (hSetup : next.main.Setup → bridge.main.Setup) :
    next.Inbound := by
  have hRule : next.rule = bridge.rule := by
    rw [rule, rule, hBuffers]
  have hLeaving : bridge.Leaving → next.Leaving := by
    unfold Leaving
    rw [hReader]
    cases bridge.reader <;> first | exact id | exact hRunning
  have hFront :
      ∀ i frame, bridge.Front i frame → next.Front i frame := by
    intro i frame hFront
    refine ⟨?_, ?_, hFront.noLog⟩
    · rw [hRule, hStreams]
      exact hFront.verdict
    · rw [hStreams]
      exact hFront.take
  refine
    { each := fun i => ⟨?_, ?_⟩
      writing := ?_
      idle := ?_
      setup := ?_ }
  · rcases (hInbound.each i).handled with
      ⟨frames, short, hBytes, hFrames, hTaken, hShort⟩
    refine ⟨frames, short, ?_, ?_, ?_, ?_⟩
    · rw [hReceived, hStreams]
      exact hBytes
    · rw [hRule]
      exact hFrames
    · rw [hKernel]
      exact hTaken
    · unfold Short
      rw [hReader]
      rcases hShort with hNone | hNow |
        ⟨hLeft, frame, count, hLast, hCount⟩
      · exact .inl hNone
      · exact .inr (.inl hNow)
      · exact
          .inr
            (.inr
              ⟨hLeaving hLeft, frame, count,
                hFront i frame hLast, hCount⟩)
  · rw [hRule, hStreams]
    rcases (hInbound.each i).settled with
      hWaits | hNow | hLeft
    · exact .inl hWaits
    · refine .inr (.inl ?_)
      unfold Busy
      rw [hReader]
      exact hNow
    · exact .inr (.inr (hLeaving hLeft))
  · rw [hReader]
    intro turn frame call hWrite
    rcases hInbound.writing turn frame call hWrite with
      ⟨hLast, hOnce⟩
    exact ⟨hFront turn.index frame hLast, hOnce⟩
  · rw [hReader, hReceived, hStreams, hKernel]
    exact hInbound.idle
  · rw [hReader]
    exact fun h => hInbound.setup (hSetup h)

------------------------------------------------------------
-- Steps Of The Reader Thread
------------------------------------------------------------

/- Whole frames of a descriptor, while it is not written to. -/
theorem Inbound.whole
    (hInbound : bridge.Inbound)
    (hBefore : ∀ turn frame call,
      bridge.reader = .write turn frame call → call.done = 0)
    (hStays : ¬ bridge.Leaving)
    (i : Nat) :
    ∃ frames : List (List UInt8),
      bridge.received i = frames.flatten ++ bridge.streams i ∧
        (∀ frame ∈ frames, bridge.rule.Admissible frame) ∧
        framesOf i bridge.kernel =
          frames.filter (fun frame => !isLog frame) := by
  rcases (hInbound.each i).handled with
    ⟨frames, short, hBytes, hFrames, hTaken, hShort⟩
  refine ⟨frames, hBytes, hFrames, ?_⟩
  rcases hShort with ⟨rfl, _⟩ |
    ⟨turn, frame, call, hWrite, _, hDone, _⟩ | ⟨hLeft, _⟩
  · rw [hTaken, List.append_nil]
  · have hNone := hBefore turn frame call hWrite
    omega
  · exact absurd hLeft hStays

/- Some bytes are read. -/
theorem Inbound.receive
    (hInbound : bridge.Inbound)
    {index : Nat}
    {events : List ChannelEvent}
    (hReader : bridge.reader = .channels index events)
    (piece : List UInt8)
    (hangup : Bool)
    (later : List ChannelEvent) :
    ((bridge.receive index piece).readerGoto
      (.decode ⟨index, hangup, later⟩)).Inbound := by
  have hStays : ¬ bridge.Leaving := by
    simp [Leaving, hReader]
  have hWhole :=
    hInbound.whole (by simp [hReader]) hStays
  refine
    { each := fun i => ?_
      writing := by simp [readerGoto]
      idle := by simp [readerGoto]
      setup := fun hSetup => ?_ }
  · rcases hWhole i with ⟨frames, hBytes, hFrames, hTaken⟩
    by_cases hIndex : i = index
    · subst hIndex
      refine
        ⟨⟨frames, [], ?_, hFrames, ?_,
          .inl ⟨rfl, by simp [readerGoto]⟩⟩, .inr (.inl rfl)⟩
      · simp [Bridge.receive, readerGoto, hBytes]
      · rw [List.append_nil]
        exact hTaken
    · refine
        ⟨⟨frames, [], ?_, hFrames, ?_,
          .inl ⟨rfl, by simp [readerGoto]⟩⟩, ?_⟩
      · simpa [Bridge.receive, readerGoto,
          Function.update_of_ne hIndex] using hBytes
      · rw [List.append_nil]
        exact hTaken
      · refine .inl ?_
        have hSettled := (hInbound.each i).settled
        simp only [Busy, hReader, false_or] at hSettled
        have hWaits := hSettled.resolve_right hStays
        simpa [Bridge.receive, readerGoto, rule,
          Function.update_of_ne hIndex] using hWaits
  · have hIdle := hInbound.setup hSetup
    rw [hReader] at hIdle
    cases hIdle

/-
  A whole frame is taken off its stream: it is a log, or has
  been written.
-/
theorem Inbound.consume
    (hInbound : bridge.Inbound)
    {turn : ChannelTurn}
    {size : Nat}
    (hStays : ¬ bridge.Leaving)
    (hIdle : bridge.reader ≠ .idle)
    (hBusy : ∀ i, bridge.Busy i → i = turn.index)
    (hVerdict :
      bridge.rule.verdict (bridge.streams turn.index) =
        .complete size)
    (hWhole : ∀ i, ∃ frames : List (List UInt8),
      bridge.received i = frames.flatten ++ bridge.streams i ∧
        (∀ frame ∈ frames, bridge.rule.Admissible frame) ∧
        framesOf i bridge.kernel =
          frames.filter (fun frame => !isLog frame) ++
            (if i = turn.index then
              [(bridge.streams i).take size].filter
                (fun frame => !isLog frame)
            else [])) :
    ((bridge.dropFrame turn.index size).readerGoto
      (.decode turn)).Inbound := by
  refine
    { each := fun i => ?_
      writing := by simp [readerGoto]
      idle := by simp [readerGoto]
      setup := fun hSetup => ?_ }
  · rcases hWhole i with ⟨frames, hBytes, hFrames, hTaken⟩
    by_cases hIndex : i = turn.index
    · subst hIndex
      rw [if_pos rfl] at hTaken
      refine
        ⟨⟨frames ++ [(bridge.streams turn.index).take size], [],
          ?_, ?_, ?_, .inl ⟨rfl, by simp [readerGoto]⟩⟩,
          .inr (.inl rfl)⟩
      · simp [dropFrame, readerGoto, hBytes]
      · intro frame hFrame
        rcases List.mem_append.mp hFrame with hFrame | hFrame
        · exact hFrames frame hFrame
        · rw [List.mem_singleton.mp hFrame]
          exact bridge.rule.admissible_take hVerdict
      · rw [List.filter_append, List.append_nil]
        exact hTaken
    · rw [if_neg hIndex, List.append_nil] at hTaken
      refine
        ⟨⟨frames, [], ?_, hFrames, ?_,
          .inl ⟨rfl, by simp [readerGoto]⟩⟩, .inl ?_⟩
      · simpa [dropFrame, readerGoto,
          Function.update_of_ne hIndex] using hBytes
      · rw [List.append_nil]
        exact hTaken
      · have hWaits :
            bridge.rule.verdict (bridge.streams i) =
              .incomplete := by
          rcases (hInbound.each i).settled with
            hWaits | hNow | hLeft
          · exact hWaits
          · exact absurd (hBusy i hNow) hIndex
          · exact absurd hLeft hStays
        simpa [dropFrame, readerGoto, rule,
          Function.update_of_ne hIndex] using hWaits
  · exact absurd (hInbound.setup hSetup) hIdle

/- A step of `write_vhci_frame`. -/
theorem Inbound.writes
    (hInbound : bridge.Inbound)
    {turn : ChannelTurn}
    {frame : List UInt8}
    {call : Call}
    (hReader : bridge.reader = .write turn frame call)
    (hGoes : ∀ ok, call.pc ≠ .returned ok)
    (answer : ReaderAnswer) :
    (bridge.readerWrite turn frame call answer).Inbound := by
  rcases hInbound.writing turn frame call hReader with
    ⟨hFront, hOnce⟩
  have hLength : 0 < frame.length :=
    (bridge.rule.framing.bounds hFront.verdict).1
  have hNone : call.done = 0 := by
    rcases call with ⟨done, pc⟩
    cases pc with
    | returned ok => exact absurd rfl (hGoes ok)
    | write => exact hOnce
    | wait => exact hOnce
    | consume next => exact hOnce
    | request next => exact hOnce
    | check next => exact hOnce
  have hNext :=
    hOnce.step hLength bridge.control answer.send answer.wait
  have hStays : ¬ bridge.Leaving := by
    simp [Leaving, hReader]
  have hWhole :=
    hInbound.whole
      (fun turn' frame' call' hWrite => by
        rw [hReader] at hWrite
        cases hWrite
        exact hNone)
      hStays
  unfold readerWrite
  rw [hNone]
  generalize
    callStep writeVhciFrameTook frame.length bridge.control call
      answer.send answer.wait = next at hNext ⊢
  refine
    { each := fun i => ?_
      writing := ?_
      idle := by simp
      setup := fun hSetup => ?_ }
  · rcases hWhole i with ⟨frames, hBytes, hFrames, hTaken⟩
    have hSettled :
        bridge.rule.verdict (bridge.streams i) = .incomplete ∨
          turn.index = i := by
      rcases (hInbound.each i).settled with
        hWaits | hNow | hLeft
      · exact .inl hWaits
      · simp only [Busy, hReader] at hNow
        exact .inr hNow
      · exact absurd hLeft hStays
    by_cases hDone : 0 < next.2.done
    · by_cases hIndex : i = turn.index
      · refine
          ⟨⟨frames, [frame.take next.2.done], hBytes, hFrames,
            ?_,
            .inr
              (.inl
                ⟨turn, frame, next.2, rfl, hIndex.symm, hDone,
                  rfl⟩)⟩,
            hSettled.imp_right .inl⟩
        simp only [if_pos hDone]
        rw [hIndex, framesOf_append_self, ← hIndex, hTaken]
      · refine
          ⟨⟨frames, [], hBytes, hFrames, ?_, .inl ⟨rfl, ?_⟩⟩,
            hSettled.imp_right .inl⟩
        · simp only [if_pos hDone]
          rw [framesOf_append_of_ne hIndex, hTaken,
            List.append_nil]
        · intro turn' frame' call' hWrite hOther
          cases hWrite
          exact absurd hOther.symm hIndex
    · refine
        ⟨⟨frames, [], hBytes, hFrames, ?_, .inl ⟨rfl, ?_⟩⟩,
          hSettled.imp_right .inl⟩
      · simp only [if_neg hDone]
        rw [hTaken, List.append_nil]
      · intro turn' frame' call' hWrite _
        cases hWrite
        omega
  · intro turn' frame' call' hWrite
    cases hWrite
    exact ⟨⟨hFront.verdict, hFront.take, hFront.noLog⟩, hNext⟩
  · have hIdle := hInbound.setup hSetup
    rw [hReader] at hIdle
    cases hIdle

/- A write that has succeeded: the frame is consumed. -/
theorem Inbound.wrote
    (hInbound : bridge.Inbound)
    {turn : ChannelTurn}
    {frame : List UInt8}
    {call : Call}
    (hReader : bridge.reader = .write turn frame call)
    (hPc : call.pc = .returned true) :
    ((bridge.dropFrame turn.index frame.length).readerGoto
      (.decode turn)).Inbound := by
  rcases hInbound.writing turn frame call hReader with
    ⟨hFront, hOnce⟩
  have hLength : 0 < frame.length :=
    (bridge.rule.framing.bounds hFront.verdict).1
  have hDone : call.done = frame.length := by
    simpa [Call.Once, hPc] using hOnce
  have hStays : ¬ bridge.Leaving := by
    simp [Leaving, hReader]
  apply hInbound.consume hStays
  · simp [hReader]
  · intro i hNow
    simp only [Busy, hReader] at hNow
    exact hNow.symm
  · exact hFront.verdict
  · intro i
    rcases (hInbound.each i).handled with
      ⟨frames, short, hBytes, hFrames, hTaken, hShort⟩
    refine ⟨frames, hBytes, hFrames, ?_⟩
    rw [hTaken]
    rcases hShort with ⟨hNone, hZero⟩ |
      ⟨turn', frame', call', hWrite, hIndex, _, hPart⟩ |
      ⟨hLeft, _⟩
    · split_ifs with hIndex
      · have hNone := hZero turn frame call hReader hIndex.symm
        omega
      · rw [hNone]
    · rw [hReader] at hWrite
      cases hWrite
      subst hIndex
      rw [if_pos rfl, hPart, hDone, List.take_length,
        hFront.take]
      simp [hFront.noLog]
    · exact absurd hLeft hStays

/- One that has failed: the thread writes nothing more. -/
theorem Inbound.failed
    (hInbound : bridge.Inbound)
    {turn : ChannelTurn}
    {frame : List UInt8}
    {call : Call}
    (hReader : bridge.reader = .write turn frame call)
    (hPc : call.pc = .returned false) :
    (bridge.readerGoto (.writeFailed turn)).Inbound := by
  rcases hInbound.writing turn frame call hReader with
    ⟨hFront, hOnce⟩
  have hDone : call.done < frame.length := by
    simpa [Call.Once, hPc] using hOnce
  have hStays : ¬ bridge.Leaving := by
    simp [Leaving, hReader]
  refine
    { each := fun i => ⟨?_, .inr (.inr trivial)⟩
      writing := by simp [readerGoto]
      idle := by simp [readerGoto]
      setup := fun hSetup => ?_ }
  · rcases (hInbound.each i).handled with
      ⟨frames, short, hBytes, hFrames, hTaken, hShort⟩
    refine ⟨frames, short, hBytes, hFrames, hTaken, ?_⟩
    rcases hShort with ⟨hNone, _⟩ |
      ⟨turn', frame', call', hWrite, hIndex, hPos, hPart⟩ |
      ⟨hLeft, _⟩
    · exact .inl ⟨hNone, by simp [readerGoto]⟩
    · rw [hReader] at hWrite
      cases hWrite
      subst hIndex
      exact
        .inr
          (.inr
            ⟨trivial, frame, call.done,
              ⟨hFront.verdict, hFront.take, hFront.noLog⟩,
              hPos, hDone, hPart⟩)
    · exact absurd hLeft hStays
  · have hIdle := hInbound.setup hSetup
    rw [hReader] at hIdle
    cases hIdle

/- The thread goes on between places where it does not write. -/
theorem Inbound.readerGoto
    (hInbound : bridge.Inbound)
    (control : Control)
    {pc : ReaderPc}
    (hFrom : bridge.reader.Calm)
    (hTo : pc.Calm)
    (hLeaving : bridge.Leaving →
      ((bridge.setControl control).readerGoto pc).Leaving)
    (hBusy : ∀ i, bridge.Busy i →
      bridge.rule.verdict (bridge.streams i) = .incomplete ∨
        ((bridge.setControl control).readerGoto pc).Leaving) :
    ((bridge.setControl control).readerGoto pc).Inbound := by
  have hIdle : bridge.reader ≠ .idle := by
    intro hIdle
    rw [hIdle] at hFrom
    exact hFrom
  refine
    hInbound.goes rfl rfl rfl rfl ?_
      (fun hSetup => hIdle (hInbound.setup hSetup)) ?_ ?_
      hLeaving fun i hNow => (hBusy i hNow).imp_right .inr
  · rintro rfl
    exact hTo
  · intro turn frame call hWrite
    rw [hWrite] at hFrom
    exact hFrom
  · rintro turn frame call rfl
    exact hTo.elim

/- Every step of the thread keeps it. -/
theorem Inbound.readerStep
    (hInbound : bridge.Inbound)
    (answer : ReaderAnswer) :
    (readerStep bridge answer).Inbound := by
  have hStopped :
      bridge.control.stop.running = false := rfl
  unfold Process.readerStep
  cases hReader : bridge.reader with
  | idle => exact hInbound
  | exited => exact hInbound
  | start =>
      have hGoes :
          ∀ {pc : ReaderPc},
            pc.Calm → (bridge.readerGoto pc).Inbound :=
        fun hTo =>
          hInbound.readerGoto bridge.control (hReader ▸ trivial)
            hTo (by simp [Leaving, hReader])
            (by simp [Busy, hReader])
      simp only
      split_ifs
      · exact hGoes trivial
      · exact hGoes trivial
  | loop =>
      simp only
      split_ifs with hRunning
      · exact
          hInbound.readerGoto bridge.control (hReader ▸ trivial)
            trivial (by simp [Leaving, hReader, hRunning])
            (by simp [Busy, hReader])
      · exact
          hInbound.readerGoto bridge.control (hReader ▸ trivial)
            trivial (fun _ => trivial)
            (by simp [Busy, hReader])
  | poll =>
      have hGoes :
          ∀ {pc : ReaderPc},
            pc.Calm → (bridge.readerGoto pc).Inbound :=
        fun hTo =>
          hInbound.readerGoto bridge.control (hReader ▸ trivial)
            hTo (by simp [Leaving, hReader])
            (by simp [Busy, hReader])
      cases answer.poll with
      | interrupted => exact hGoes trivial
      | failed => exact hGoes trivial
      | events events => exact hGoes trivial
  | consume next =>
      have hGoes :
          ∀ control {pc : ReaderPc},
            pc.Calm →
              ((bridge.setControl control).readerGoto
                pc).Inbound :=
        fun control _ hTo =>
          hInbound.readerGoto control (hReader ▸ trivial) hTo
            (by simp [Leaving, hReader]) (by simp [Busy, hReader])
      simp only [readerLook]
      split_ifs
      · exact hGoes _ trivial
      · exact hGoes bridge.control next.pc_calm
  | request next =>
      exact
        hInbound.readerGoto _ (hReader ▸ trivial) next.pc_calm
          (by simp [Leaving, hReader]) (by simp [Busy, hReader])
  | check events =>
      simp only
      split_ifs with hRunning
      · exact
          hInbound.readerGoto bridge.control (hReader ▸ trivial)
            trivial (fun _ => trivial)
            (by simp [Busy, hReader])
      · exact
          hInbound.readerGoto bridge.control (hReader ▸ trivial)
            trivial (by simp [Leaving, hReader])
            (by simp [Busy, hReader])
  | channels index events =>
      have hGoes :
          ∀ {pc : ReaderPc},
            pc.Calm → (bridge.readerGoto pc).Inbound :=
        fun hTo =>
          hInbound.readerGoto bridge.control (hReader ▸ trivial)
            hTo (by simp [Leaving, hReader])
            (by simp [Busy, hReader])
      cases events with
      | nil => exact hGoes trivial
      | cons event later =>
          rcases channelStep_cases bridge index event later with
            ⟨pc, rfl | rfl, hStep⟩ | ⟨piece, _, _, hStep⟩
          · simp only [hStep]
            exact hGoes trivial
          · simp only [hStep]
            exact hGoes trivial
          · simp only [hStep]
            exact
              hInbound.receive hReader piece event.hangup later
  | decode turn =>
      have hStays : ¬ bridge.Leaving := by
        simp [Leaving, hReader]
      have hHere : ∀ i, bridge.Busy i → i = turn.index := by
        intro i hNow
        simp only [Busy, hReader] at hNow
        exact hNow.symm
      rcases decodeStep_cases bridge turn with
        ⟨hWaits, hStep⟩ | hStep |
          ⟨size, hVerdict, ⟨hLog, hStep⟩ | ⟨hLog, hStep⟩⟩
      · simp only [hStep]
        exact
          hInbound.readerGoto bridge.control (hReader ▸ trivial)
            trivial (fun hLeft => absurd hLeft hStays)
            fun i hNow => .inl (hHere i hNow ▸ hWaits)
      · simp only [hStep]
        exact
          hInbound.readerGoto bridge.control (hReader ▸ trivial)
            trivial (fun _ => trivial) fun _ _ => .inr trivial
      · -- a log is dropped
        have hSame :
            (bridge.dropFrame turn.index size).readerGoto
                (.decode turn) =
              bridge.dropFrame turn.index size := by
          simp [Bridge.readerGoto, dropFrame, hReader]
        simp only [hStep]
        rw [← hSame]
        apply hInbound.consume hStays (by simp [hReader]) hHere
          hVerdict
        intro i
        rcases hInbound.whole (by simp [hReader]) hStays i with
          ⟨frames, hBytes, hFrames, hTaken⟩
        refine ⟨frames, hBytes, hFrames, ?_⟩
        rw [hTaken]
        split_ifs with hIndex
        · subst hIndex
          simp [hLog]
        · rw [List.append_nil]
      · simp only [hStep]
        have hSize :=
          (bridge.rule.framing.bounds hVerdict).2
        have hLength :
            ((bridge.streams turn.index).take size).length =
              size := by
          rw [List.length_take, Nat.min_eq_left hSize]
        refine
          hInbound.goes rfl rfl rfl rfl (by simp [Bridge.readerGoto])
            (fun hSetup => ?_) (by simp [hReader]) ?_
            (fun hLeft => absurd hLeft hStays)
            fun i hNow => .inr (.inl (hHere i hNow).symm)
        · have hIdle := hInbound.setup hSetup
          rw [hReader] at hIdle
          cases hIdle
        · intro turn' frame' call' hWrite
          cases hWrite
          refine ⟨⟨?_, ?_, hLog⟩, rfl⟩
          · rw [hLength]
            exact hVerdict
          · rw [hLength]
  | write turn frame call =>
      rcases call with ⟨done, pc⟩
      cases pc with
      | returned ok =>
          cases ok with
          | false => exact hInbound.failed hReader rfl
          | true => exact hInbound.wrote hReader rfl
      | write => exact hInbound.writes hReader (by simp) answer
      | wait => exact hInbound.writes hReader (by simp) answer
      | consume next =>
          exact hInbound.writes hReader (by simp) answer
      | request next =>
          exact hInbound.writes hReader (by simp) answer
      | check next =>
          exact hInbound.writes hReader (by simp) answer
  | writeFailed turn =>
      simp only
      split_ifs with hRunning
      · exact
          hInbound.readerGoto bridge.control (hReader ▸ trivial)
            trivial (fun _ => trivial)
            (by simp [Busy, hReader])
      · exact
          hInbound.readerGoto bridge.control (hReader ▸ trivial)
            trivial
            (fun _ => Bool.eq_false_iff.mpr hRunning)
            (by simp [Busy, hReader])
  | handled turn =>
      have hLeaving :
          bridge.control.running ≠ false → ¬ bridge.Leaving := by
        intro hRunning hLeft
        simp only [Leaving, hReader] at hLeft
        exact hRunning hLeft
      simp only
      split_ifs with hRunning hHangup
      · exact
          hInbound.readerGoto bridge.control (hReader ▸ trivial)
            trivial (fun _ => hRunning)
            (by simp [Busy, hReader])
      · exact
          hInbound.readerGoto bridge.control (hReader ▸ trivial)
            trivial (fun _ => trivial)
            (by simp [Busy, hReader])
      · exact
          hInbound.readerGoto bridge.control (hReader ▸ trivial)
            trivial
            (fun hLeft => absurd hLeft (hLeaving hRunning))
            (by simp [Busy, hReader])
  | fail turn =>
      exact
        hInbound.readerGoto _ (hReader ▸ trivial) trivial
           (fun _ => trivial)
          (by simp [Busy, hReader])
  | stop turn =>
      cases turn with
      | none =>
          exact
            hInbound.readerGoto _ (hReader ▸ trivial) trivial
               (fun _ => hStopped)
              (by simp [Busy, hReader])
      | some turn =>
          exact
            hInbound.readerGoto _ (hReader ▸ trivial) trivial
               (fun _ => hStopped)
              (by simp [Busy, hReader])

/- So does every step of the main thread. -/
theorem Inbound.mainStep
    (hInbound : bridge.Inbound)
    (answer : MainAnswer) :
    (mainStep bridge answer).Inbound := by
  have hMove := mainMoves_mainStep bridge answer
  have hSetup := @setup_mainStep bridge answer
  generalize hNext : Process.mainStep bridge answer = next
    at hMove hSetup ⊢
  by_cases hIdle : bridge.reader = .idle
  · rcases hInbound.idle hIdle with ⟨hEmpty, hKernel⟩
    apply inbound_of_empty
    · intro i
      rw [hMove.received]
      exact (hEmpty i).1
    · intro i
      rw [hMove.streams]
      exact (hEmpty i).2
    · rw [hMove.kernel]
      exact hKernel
    · rcases hMove.reader with hSame | ⟨hMain, hStart⟩
      · exact .inl (hSame.trans hIdle)
      · refine .inr ⟨hStart, ?_⟩
        -- it is created on the way to `kernel_to_chip`
        rw [← hNext] at hStart ⊢
        unfold Process.mainStep at hStart ⊢
        rw [hMain] at hStart ⊢
        simp only at hStart ⊢
        split_ifs at hStart ⊢
        · exact id
        · exact id
  · have hPast : ¬ bridge.main.Setup :=
      fun h => hIdle (hInbound.setup h)
    apply hInbound.congr hMove.streams hMove.received
      hMove.kernel
    · refine hMove.buffers.resolve_right fun hMain => hPast ?_
      rw [hMain]
      trivial
    · refine hMove.reader.resolve_right fun hMain => hPast ?_
      rw [hMain.1]
      trivial
    · exact hMove.control.stopped
    · exact hSetup

theorem Inbound.bridgeStep
    (hInbound : bridge.Inbound)
    (action : BridgeAction) :
    (bridgeStep bridge action).Inbound := by
  cases action with
  | main answer => exact hInbound.mainStep answer
  | reader answer => exact hInbound.readerStep answer
  | signal =>
      simp only [Process.bridgeStep]
      split_ifs
      · exact hInbound.congr rfl rfl rfl rfl rfl id id
      · exact hInbound

------------------------------------------------------------
-- The Answers To The First Commands
------------------------------------------------------------

/-
  What the first commands have read are whole events, as long
  as none has failed, and so when the reader thread starts.
-/
structure Answered (bridge : Bridge) : Prop where
  setup : bridge.main.Setup → Events bridge.answers
  reader : bridge.reader ≠ .idle → Events bridge.answers

theorem Answered.mainStep
    (hAnswered : bridge.Answered)
    (hInbound : bridge.Inbound)
    (answer : MainAnswer) :
    (mainStep bridge answer).Answered := by
  have hMove := mainMoves_mainStep bridge answer
  have hSetup := @setup_mainStep bridge answer
  -- while commands are tried there is no reader thread
  have hTries :
      bridge.main.Setup → bridge.main ≠ .createReader →
        (Process.mainStep bridge answer).reader = .idle :=
    fun hNow hCreate =>
      (hMove.reader.resolve_right fun h => hCreate h.1).trans
        (hInbound.setup hNow)
  have hRefused :
      ∀ (next : Bridge) seen,
        (next.refuse seen).main.Setup →
          Events (next.refuse seen).answers :=
    fun next seen hNow =>
      absurd (refuse_over next seen)
        (MainPc.not_over_of_setup hNow)
  rcases hMove.setup with hSame | hMain | hMain
  · simp only [Prod.mk.injEq] at hSame
    constructor
    · rw [hSame.2.2]
      exact fun hNow => hAnswered.setup (hSetup hNow)
    · rw [hSame.2.2]
      intro hReader
      rcases hMove.reader with hStays | ⟨hMain, _⟩
      · exact hAnswered.reader (hStays ▸ hReader)
      · exact hAnswered.setup (hMain ▸ trivial)
  · have hNow : bridge.main.Setup := hMain ▸ trivial
    refine
      ⟨?_, fun h => absurd (hTries hNow (hMain ▸ nofun)) h⟩
    unfold Process.mainStep
    rw [hMain]
    simp only
    split
    · exact hRefused _ _
    · split
      next next hNext =>
        exact
          fun _ =>
            (hAnswered.setup hNow).append
              (succeeded_addressCommands hNext _).answers
      next => exact hRefused _ _
  · have hNow : bridge.main.Setup := hMain ▸ trivial
    refine
      ⟨?_, fun h => absurd (hTries hNow (hMain ▸ nofun)) h⟩
    unfold Process.mainStep
    rw [hMain]
    simp only
    split
    next sizes next hNext =>
      split
      · exact
          fun _ =>
            (hAnswered.setup hNow).append
              (succeeded_bufferCommands hNext _).answers
      · exact hRefused _ _
    next => exact hRefused _ _

theorem Answered.bridgeStep
    (hAnswered : bridge.Answered)
    (hInbound : bridge.Inbound)
    (action : BridgeAction) :
    (bridgeStep bridge action).Answered := by
  cases action with
  | main answer => exact hAnswered.mainStep hInbound answer
  | reader answer =>
      rcases readerMoves_readerStep bridge answer with
        ⟨_, _, _, _, _, _, hIdle, hNext⟩
      simp only [Process.bridgeStep, hNext]
      refine ⟨hAnswered.setup, fun hReader => ?_⟩
      by_cases hBefore : bridge.reader = .idle
      · -- only the main thread starts it
        have hStays : readerStep bridge answer = bridge := by
          unfold Process.readerStep
          rw [hBefore]
        rw [hStays] at hNext
        have hReader := congrArg Bridge.reader hNext
        exact absurd (hReader.symm.trans hBefore) ‹_›
      · exact hAnswered.reader hBefore
  | signal =>
      simp only [Process.bridgeStep]
      split_ifs
      · exact ⟨hAnswered.setup, hAnswered.reader⟩
      · exact hAnswered

/- It holds in every run. -/
theorem answered_run
    (accepts : List Bool)
    (coming : Channel)
    (schedule : List BridgeAction) :
    (Schedule.run Process.bridgeStep (start accepts coming)
        schedule).Inbound ∧
      (Schedule.run Process.bridgeStep (start accepts coming)
        schedule).Answered :=
  Schedule.Along.invariant
    (I := fun state => Inbound state ∧ Answered state)
    (fun _ action hBoth _ =>
      ⟨hBoth.1.bridgeStep action,
        hBoth.2.bridgeStep hBoth.1 action⟩)
    (Schedule.along_true _ schedule)
    ⟨inbound_of_empty (fun _ => rfl) (fun _ => rfl) rfl
        (.inl rfl),
      fun _ => events_nil, fun h => absurd rfl h⟩

end Bridge

------------------------------------------------------------
-- From The Ports
------------------------------------------------------------

section Rules

variable (rule : FrameRule)

/-
  A frame of the library is one of the bridge, or refused,
  whatever follows it.
-/
theorem verdict_of_admissible
    {frame : List UInt8}
    (hFrame : scommRule.Admissible frame)
    (later : List UInt8) :
    rule.verdict (frame ++ later) = .complete frame.length ∨
      rule.verdict (frame ++ later) = .invalid := by
  rcases scommRule.admissible_iff.mp hFrame with
    ⟨hNonempty, hStatus, _, hSize⟩
  cases hRefuses : rule.refuses (skwH4Decode frame).2 with
  | false =>
      exact
        .inl
          (rule.framing.append_complete later
            (rule.verdict_eq_complete_iff.mpr
              ⟨hNonempty, hStatus, hRefuses, hSize⟩))
  | true =>
      exact
        .inr
          (rule.framing.append_invalid later
            (rule.verdict_eq_invalid_iff.mpr
              ⟨hNonempty, .inr hRefuses⟩))

/- A part of such a frame is not a frame of the bridge. -/
theorem split_of_part
    {frame part : List UInt8}
    (hFrame : scommRule.Admissible frame)
    (hPart : part <+: frame)
    (hShort : part ≠ frame) :
    (rule.framing.split part).frames = [] := by
  rcases hPart with ⟨later, rfl⟩
  cases hVerdict : rule.verdict part with
  | invalid => rw [Framing.split_of_invalid _ hVerdict]
  | incomplete => rw [Framing.split_of_incomplete _ hVerdict]
  | complete size =>
      have hSize := (rule.framing.bounds hVerdict).2
      have hSame :=
        rule.framing.append_complete later hVerdict
      have hWhole := verdict_of_admissible rule hFrame []
      rw [List.append_nil] at hWhole
      have hSame : rule.verdict (part ++ later) = .complete size :=
        hSame
      rw [hSame] at hWhole
      rcases hWhole with hWhole | hWhole
      · have hLength : size = (part ++ later).length :=
          Verdict.complete.inj hWhole
        rw [List.length_append] at hLength
        have hNone : later = [] :=
          List.eq_nil_of_length_eq_zero (by omega)
        exact absurd (by rw [hNone, List.append_nil]) hShort
      · cases hWhole

/- The bridge's frames are the first of the library's. -/
theorem frames_prefix_of_admissible
    {frames : List (List UInt8)}
    (hFrames : ∀ frame ∈ frames, scommRule.Admissible frame)
    {rest : List UInt8}
    (hRest : (rule.framing.split rest).frames = []) :
    (rule.framing.split (frames.flatten ++ rest)).frames <+:
      frames := by
  induction frames with
  | nil =>
      show (rule.framing.split rest).frames <+: []
      exact hRest ▸ List.nil_prefix
  | cons frame frames ih =>
      rw [List.flatten_cons, List.append_assoc]
      rcases verdict_of_admissible rule (hFrames frame (by simp))
          (frames.flatten ++ rest) with
        hVerdict | hVerdict
      · rw [Framing.split_of_complete _ hVerdict,
          List.take_left, List.drop_left]
        exact
          List.cons_prefix_cons.mpr
            ⟨rfl, ih fun other hOther =>
              hFrames other (List.mem_cons_of_mem _ hOther)⟩
      · rw [Framing.split_of_invalid _ hVerdict]
        exact List.nil_prefix

end Rules

/- An event is a frame the library takes. -/
theorem admissible_h4Event
    (code : UInt8)
    {parameters : List UInt8}
    (hLength : parameters.length ≤ 255) :
    scommRule.Admissible (h4Event code parameters) := by
  have hByte :
      (UInt8.ofNat parameters.length).toNat =
        parameters.length :=
    toNat_ofNat_length hLength
  have hCapacity : skwH4StreamCapacity = 4096 := rfl
  have hLimit : scommFrameLimit skwH4EventPkt = 258 := rfl
  have hFill :=
    @FrameRule.admissible_fill scommRule skwH4EventPkt
      (code :: UInt8.ofNat parameters.length :: parameters)
      3 parameters.length rfl (by simp) (congrArg some hByte)
      (by omega) (by simp only [List.length_cons]; omega)
      (by
        simp only [scommRule, decide_eq_false_iff_not]
        omega)
  have hNone :
      3 + parameters.length -
          ((code :: UInt8.ofNat parameters.length ::
            parameters).length + 1) =
        0 := by
    simp only [List.length_cons]
    omega
  rw [hNone, List.replicate_zero, List.append_nil] at hFill
  exact hFill

theorem Events.frames
    {bytes : List UInt8}
    (hEvents : Events bytes) :
    ∃ events : List (List UInt8),
      bytes = events.flatten ∧
        ∀ event ∈ events, scommRule.Admissible event := by
  rcases hEvents with ⟨events, rfl, hEach⟩
  refine ⟨events, rfl, fun event hEvent => ?_⟩
  rcases hEach event hEvent with ⟨code, _, hLength, rfl⟩
  exact admissible_h4Event code hLength

section Ports

variable {ι : Type}

variable [DecidableEq ι]

/-
  The first frames of the ports are the answers to the bridge's
  own commands. What /dev/vhci has taken of the host socket are
  the next ones, whole, and of each port in their order. Only
  when it has cut a frame short there is a part of the next
  one, and it is the last. A thread that waits has written all
  that it takes of what it has read.
-/
structure FromPorts
    (state : HostState ι)
    (bridge : Bridge)
    (i : Nat) : Prop where
  written :
    ∃ (first order : List (ι × List UInt8))
        (short : List (List UInt8)),
      (bridge.reader = .idle ∨
          (first.map Prod.snd).flatten = bridge.answers) ∧
        framesOf i bridge.kernel = order.map Prod.snd ++ short ∧
        (∀ port,
          framesOf port (first ++ order) <+:
            forwarded (state.received port)) ∧
        (short = [] ∨
          ∃ port frame part,
            short = [part] ∧ part <+: frame ∧ part ≠ frame ∧
              framesOf port (first ++ order) ++ [frame] <+:
                forwarded (state.received port))
  waits : bridge.reader = .poll →
    framesOf i bridge.kernel =
      (bridge.rule.framing.split (bridge.received i)).frames.filter
        fun frame => !isLog frame

/- The first frames of the bridge are all of them, or short. -/
theorem Bridge.Inbound.frames
    {bridge : Bridge}
    (hInbound : bridge.Inbound)
    (i : Nat) :
    ∃ frames short,
      framesOf i bridge.kernel =
          frames.filter (fun frame => !isLog frame) ++ short ∧
        frames <+:
          (bridge.rule.framing.split
            (bridge.received i)).frames ∧
        (short = [] ∨
          ∃ frame part,
            short = [part] ∧ part <+: frame ∧ part ≠ frame ∧
              isLog frame = false ∧
              frames ++ [frame] <+:
                (bridge.rule.framing.split
                  (bridge.received i)).frames) ∧
        (bridge.reader = .poll →
          short = [] ∧
            frames =
              (bridge.rule.framing.split
                (bridge.received i)).frames) := by
  have hAfter :
      ∀ {frames : List (List UInt8)} {frame : List UInt8},
        bridge.received i =
            frames.flatten ++ bridge.streams i →
        (∀ frame ∈ frames, bridge.rule.Admissible frame) →
        bridge.Front i frame →
        frames ++ [frame] <+:
          (bridge.rule.framing.split
            (bridge.received i)).frames := by
    intro frames frame hBytes hFrames hFront
    rw [hBytes,
      Framing.split_flatten_append _ bridge.rule.verdict_nil
        hFrames,
      Framing.split_of_complete _ hFront.verdict, hFront.take]
    exact
      (List.prefix_append_right_inj _).mpr
        (List.cons_prefix_cons.mpr ⟨rfl, List.nil_prefix⟩)
  rcases (hInbound.each i).handled with
    ⟨frames, short, hBytes, hFrames, hTaken, hShort⟩
  have hSplit :
      (bridge.rule.framing.split (bridge.received i)).frames =
        frames ++
          (bridge.rule.framing.split (bridge.streams i)).frames := by
    rw [hBytes]
    exact
      Framing.split_flatten_append _ bridge.rule.verdict_nil
        hFrames _
  have hFirst :
      frames <+:
        (bridge.rule.framing.split (bridge.received i)).frames := by
    rw [hSplit]
    exact List.prefix_append _ _
  rcases hShort with ⟨rfl, _⟩ |
    ⟨turn, frame, call, hWrite, rfl, hPos, rfl⟩ |
    ⟨hLeft, frame, count, hFront, hPos, hLess, rfl⟩
  · refine ⟨frames, [], hTaken, hFirst, .inl rfl, ?_⟩
    intro hPoll
    refine ⟨rfl, ?_⟩
    have hSettled := (hInbound.each i).settled
    simp only [Bridge.Busy, Bridge.Leaving, hPoll, or_false]
      at hSettled
    rw [hSplit, Framing.split_of_incomplete _ hSettled,
      List.append_nil]
  · rcases hInbound.writing turn frame call hWrite with
      ⟨hFront, hOnce⟩
    have hLess : call.done ≤ frame.length := by
      unfold Call.Once at hOnce
      split at hOnce <;> omega
    rcases Nat.lt_or_eq_of_le hLess with hLess | hWhole
    · refine
        ⟨frames, _, hTaken, hFirst,
          .inr
            ⟨frame, _, rfl, List.take_prefix _ _, ?_,
              hFront.noLog, hAfter hBytes hFrames hFront⟩,
          by simp [hWrite]⟩
      intro hEq
      have hLength := congrArg List.length hEq
      rw [List.length_take] at hLength
      omega
    · -- the write has returned, and the frame is in the stream
      rw [hWhole, List.take_length] at hTaken
      refine
        ⟨frames ++ [frame], [], ?_,
          hAfter hBytes hFrames hFront, .inl rfl,
          by simp [hWrite]⟩
      rw [hTaken, List.filter_append]
      simp [hFront.noLog]
  · refine
      ⟨frames, _, hTaken, hFirst,
        .inr
          ⟨frame, _, rfl, List.take_prefix _ _, ?_,
            hFront.noLog, hAfter hBytes hFrames hFront⟩,
        ?_⟩
    · intro hEq
      have hLength := congrArg List.length hEq
      rw [List.length_take] at hLength
      omega
    · intro hPoll
      simp [Bridge.Leaving, hPoll] at hLeft

/- The frames of a port in the first of some frames. -/
theorem prefix_framesOf
    (port : ι)
    {front whole : List (ι × List UInt8)}
    (hFront : front <+: whole) :
    framesOf port front <+: framesOf port whole := by
  unfold framesOf
  exact (hFront.filter _).map _

omit [DecidableEq ι] in
/- The first frames, with the ports they are of. -/
theorem exists_order
    {whole : List (ι × List UInt8)}
    {frames : List (List UInt8)}
    (hFrames : frames <+: whole.map Prod.snd) :
    frames = (whole.take frames.length).map Prod.snd := by
  rw [List.map_take]
  exact List.prefix_iff_eq_take.mp hFrames

variable (cmdevt : ι)

/-
  What has come whole through the host socket, and the rest: a
  part of a frame that the library takes
-/
theorem exists_whole
    {state : HostState ι}
    (hAtomic : FramesAtomic state) :
    ∃ (whole : List (ι × List UInt8)) (rest : List UInt8),
      state.delivered.map Prod.snd =
          (whole.map Prod.snd).flatten ++ rest ∧
        (∀ port,
          framesOf port whole <+:
            forwarded (state.received port)) ∧
        ∀ rule : FrameRule,
          (rule.framing.split rest).frames = [] := by
  rcases hAtomic with ⟨whole, last, hAtomic⟩
  refine
    ⟨whole, (last.toList.map Prod.snd).flatten, ?_,
      hAtomic.ordered, fun rule => ?_⟩
  · rw [hAtomic.delivered]
    simp [tagged, List.flatMap, Function.comp_def]
  · cases hLast : last with
    | none =>
        exact
          congrArg Split.frames
            (Framing.split_of_incomplete _ rule.verdict_nil)
    | some entry =>
        rcases entry with ⟨port, part⟩
        rcases hAtomic.truncated port part hLast with
          ⟨_, frame, hPart, hShort, hNext⟩
        have hMember : frame ∈ forwarded (state.received port) :=
          hNext.subset (by simp)
        simpa using
          split_of_part rule (admissible_of_forwarded hMember)
            hPart hShort

omit [DecidableEq ι] in
/- Whole frames at its front are the first ones. -/
theorem exists_first
    {whole : List (ι × List UInt8)}
    {rest : List UInt8}
    (hWhole : ∀ frame ∈ whole.map Prod.snd,
      scommRule.Admissible frame)
    (hRest : (scommRule.framing.split rest).frames = [])
    {events : List (List UInt8)}
    (hEvents : ∀ event ∈ events, scommRule.Admissible event)
    (hFront :
      events.flatten <+: (whole.map Prod.snd).flatten ++ rest) :
    ∃ first later,
      whole = first ++ later ∧ first.map Prod.snd = events := by
  have hFrames :=
    (scommRule.framing.frames_prefix hFront).trans
      (frames_prefix_of_admissible scommRule hWhole hRest)
  rw [Framing.split_flatten _ scommRule.verdict_nil hEvents]
    at hFrames
  exact
    ⟨whole.take events.length, whole.drop events.length,
      (List.take_append_drop _ _).symm,
      (exists_order hFrames).symm⟩

/-
  Every run of the bridge at the end of every run of the
  library whose threads write alone: what has come through the
  host socket, however it was cut, reaches the kernel, behind
  the answers that the main thread has read.
-/
theorem portsToKernel
    {running : ι → Bool}
    {actions : List (HostAction ι)}
    (hAlone : Schedule.Along (hostStep cmdevt)
      (WritesAlone cmdevt) (HostState.start running) actions)
    {state : HostState ι}
    (hState :
      Schedule.run (hostStep cmdevt) (HostState.start running)
          actions =
        state)
    (accepts : List Bool)
    (coming : Channel)
    (schedule : List BridgeAction)
    {bridge : Bridge}
    (hRun :
      Schedule.run bridgeStep (.start accepts coming) schedule =
        bridge)
    {i : Nat}
    (hCut :
      bridge.answers ++ bridge.received i <+:
        state.delivered.map Prod.snd) :
    FromPorts state bridge i := by
  have hBoth := Bridge.answered_run accepts coming schedule
  have hUnbroken := HostState.unbroken_run cmdevt hAlone
  have hKept := HostState.kept_run cmdevt running actions
  rw [hRun] at hBoth
  rw [hState] at hUnbroken hKept
  rcases hBoth with ⟨hInbound, hAnswered⟩
  by_cases hIdle : bridge.reader = .idle
  · -- the reader thread has not started
    refine
      ⟨⟨[], [], [], .inl hIdle, ?_, fun port => List.nil_prefix,
        .inl rfl⟩, fun hWaits => ?_⟩
    · rw [(hInbound.idle hIdle).2]
      rfl
    · rw [hIdle] at hWaits
      cases hWaits
  rcases (hAnswered.reader hIdle).frames with
    ⟨events, hAnswers, hEvents⟩
  rcases exists_whole
      (hUnbroken.framesAtomic cmdevt hKept) with
    ⟨whole, rest, hBytes, hOrdered, hRest⟩
  have hMember :
      ∀ port frame, (port, frame) ∈ whole →
        frame ∈ forwarded (state.received port) := by
    intro port frame hFrame
    apply (hOrdered port).subset
    simpa [framesOf] using hFrame
  have hWhole :
      ∀ frame ∈ whole.map Prod.snd,
        scommRule.Admissible frame ∧ isLog frame = false := by
    intro frame hFrame
    rcases List.mem_map.mp hFrame with
      ⟨⟨port, frame⟩, hPair, rfl⟩
    have hOf := hMember port frame hPair
    refine ⟨admissible_of_forwarded hOf, ?_⟩
    simpa using (List.mem_filter.mp hOf).2
  rw [hBytes] at hCut
  -- the answers are the first frames of the socket
  rcases exists_first (fun frame h => (hWhole frame h).1)
      (hRest scommRule) hEvents
      (hAnswers ▸ (List.prefix_append _ _).trans hCut) with
    ⟨first, later, rfl, hFirst⟩
  have hSame : (first.map Prod.snd).flatten = bridge.answers := by
    rw [hFirst, hAnswers]
  have hLater :
      ∀ frame ∈ later.map Prod.snd,
        scommRule.Admissible frame ∧ isLog frame = false := by
    intro frame hFrame
    rw [List.map_append] at hWhole
    exact hWhole frame (List.mem_append_right _ hFrame)
  -- the frames of the bridge are the first behind them
  have hFrames :
      (bridge.rule.framing.split (bridge.received i)).frames <+:
        later.map Prod.snd := by
    rw [List.map_append, List.flatten_append, List.append_assoc,
      hSame, List.prefix_append_right_inj] at hCut
    exact
      (bridge.rule.framing.frames_prefix hCut).trans
        (frames_prefix_of_admissible bridge.rule
          (fun frame h => (hLater frame h).1) (hRest bridge.rule))
  rcases hInbound.frames i with
    ⟨frames, short, hTaken, hFront, hShort, hPoll⟩
  have hPrefix := hFront.trans hFrames
  have hAll :
      frames.filter (fun frame => !isLog frame) = frames := by
    rw [List.filter_eq_self]
    intro frame hFrame
    rw [(hLater frame (hPrefix.subset hFrame)).2]
    rfl
  refine
    ⟨⟨first, later.take frames.length, short, .inr hSame, ?_,
        fun port => ?_, ?_⟩,
      fun hWaits => ?_⟩
  · rw [hTaken, hAll, ← exists_order hPrefix]
  · exact
      (prefix_framesOf port
        ((List.prefix_append_right_inj _).mpr
          (List.take_prefix frames.length later))).trans
        (hOrdered port)
  · rcases hShort with hNone |
      ⟨frame, part, rfl, hPart, hLess, _, hNext⟩
    · exact .inl hNone
    · -- the frame that was cut short is the next on the socket
      have hFound := exists_order (hNext.trans hFrames)
      have hMap :
          (later.take (frames ++ [frame]).length).map Prod.snd =
            (later.take frames.length).map Prod.snd ++ [frame] := by
        rw [← hFound, ← exists_order hPrefix]
      have hLength : frames.length < later.length := by
        have hCount := (hNext.trans hFrames).length_le
        simp only [List.length_append, List.length_map,
          List.length_cons, List.length_nil] at hCount
        omega
      rw [List.length_append, List.length_cons, List.length_nil,
        Nat.zero_add, List.take_succ_eq_append_getElem hLength,
        List.map_append, List.append_cancel_left_eq] at hMap
      have hEntry : later[frames.length].2 = frame := by
        simpa using hMap
      refine
        .inr
          ⟨later[frames.length].1, frame, part, rfl, hPart,
            hLess, ?_⟩
      refine .trans ?_ (hOrdered _)
      rw [← framesOf_append_self]
      have hTake :
          later.take frames.length ++
              [(later[frames.length].1, frame)] =
            later.take (frames.length + 1) := by
        rw [List.take_succ_eq_append_getElem hLength, ← hEntry]
      rw [List.append_assoc, hTake]
      exact
        prefix_framesOf _
          ((List.prefix_append_right_inj _).mpr
            (List.take_prefix _ _))
  · rcases hPoll hWaits with ⟨rfl, hEq⟩
    rw [hTaken, List.append_nil, hEq]

end Ports

/- A single thread writes alone. -/
theorem writesAlone_unit
    (state : HostState Unit)
    (action : HostAction Unit) :
    WritesAlone () state action := by
  cases action with
  | other op => trivial
  | reader i answer =>
      intro frame write hWrite _ _ _ j
      cases i
      cases j
      rw [hWrite]
      exact id

/-
  A port that brings the answers and then an event, in one
  piece, at most ten bytes a write
-/
def eventActions : List (HostAction Unit) :=
  List.replicate 35
    (.reader ()
      ⟨.events false
          ⟨false,
            some (.data (plainRun.answers ++ [4, 14, 1, 0])),
            false⟩,
        .sent 10, .ready⟩)

/- The bridge reads the event in two pieces. -/
def eventSchedule : List BridgeAction :=
  List.replicate 12 (.main plainAnswer) ++
    (List.replicate 9
        (.reader
          ⟨.events [⟨false, some (.data [4, 14, 1]), false⟩],
            .sent 4, .events false true⟩) ++
      List.replicate 12
        (.reader
          ⟨.events [⟨false, some (.data [0]), false⟩], .sent 4,
            .events false true⟩))

theorem portsToKernel_event :
    FromPorts
      (Schedule.run (hostStep ()) (.start fun _ => true)
        eventActions)
      (Schedule.run bridgeStep
        (.start [true, true, true, true] plainChannel)
        eventSchedule)
      0 := by
  have hAlone :=
    @Schedule.along_of_forall _ _ (hostStep ()) _ writesAlone_unit
      (.start fun _ => true) eventActions
  have hCut :
      (Schedule.run bridgeStep
              (.start [true, true, true, true] plainChannel)
              eventSchedule).answers ++
            (Schedule.run bridgeStep
              (.start [true, true, true, true] plainChannel)
              eventSchedule).received 0 ++ [] =
        (Schedule.run (hostStep ()) (.start fun _ => true)
          eventActions).delivered.map Prod.snd := by
    decide +kernel
  exact
    portsToKernel () hAlone rfl [true, true, true, true]
      plainChannel eventSchedule rfl ⟨[], hCut⟩

end Process

end Bluetooth

end MicaBoards
