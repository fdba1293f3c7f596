import MicaBoards.Bluetooth.HostSocket.Frames

/-
  The window between the release of the lock after a failing
  write and the mark on the transport. As long as no thread
  writes in it, frames are atomic on the host socket; as soon
  as one may, they need not be.

  Main declarations:
    * `HostState.ShutLast`
    * `not_framesAtomic_of_overlap`
    * `hostSocket_framesAtomic`
-/

------------------------------------------------------------
-- The Socket Is Shut Last
------------------------------------------------------------

namespace MicaBoards

namespace Bluetooth

section Overlap

variable {ι : Type}

variable [DecidableEq ι]

variable (cmdevt : ι)

/- Port 0 is stopped before its socket is shut down. -/
def StopsFirst : Prop → List (FailOp ι) → Prop
| _, [] => True
| stopped, op :: rest =>
    (op = .shutdown cmdevt → stopped) ∧
      StopsFirst (stopped ∨ op = .threadRunning cmdevt) rest

omit [DecidableEq ι] in
theorem StopsFirst.mono
    {stopped later : Prop}
    {ops : List (FailOp ι)}
    (hLater : stopped → later)
    (hStops : StopsFirst cmdevt stopped ops) :
    StopsFirst cmdevt later ops := by
  induction ops generalizing stopped later with
  | nil => trivial
  | cons op rest ih =>
      exact
        ⟨fun h => hLater (hStops.1 h),
          ih (Or.imp_left hLater) hStops.2⟩

/- `scomm_vendor_fail_transport` does it in this order. -/
theorem stopsFirst_scommVendorFailTransport
    (stopped : Prop)
    (port : ι) :
    StopsFirst cmdevt stopped
      (scommVendorFailTransport cmdevt port) := by
  unfold scommVendorFailTransport
  split_ifs with hPort
  · simp [StopsFirst, hPort]
  · simp [StopsFirst, hPort]

namespace HostState

/- While port 0 runs its socket is open. -/
structure ShutLast (state : HostState ι) : Prop where
  shut : state.shut cmdevt = true →
    state.running cmdevt = false
  ops : ∀ i,
    StopsFirst cmdevt (state.running cmdevt = false)
      (state.readers i).pc.ops

variable {state : HostState ι}

/- A port that has been stopped stays so. -/
theorem running_perform
    (op : FailOp ι)
    (hStopped : state.running cmdevt = false ∨
      op = .threadRunning cmdevt) :
    (state.perform op).running cmdevt = false := by
  cases op with
  | driverState port => simpa [perform] using hStopped
  | shutdown port => simpa [perform] using hStopped
  | threadRunning port =>
      by_cases hPort : cmdevt = port
      · subst hPort
        simp [perform]
      · simpa [perform, Function.update_of_ne hPort,
          Ne.symm hPort] using hStopped

/- An access keeps it, if it comes in its order. -/
theorem ShutLast.perform
    (hLast : state.ShutLast cmdevt)
    {op : FailOp ι}
    (hStopped : op = .shutdown cmdevt →
      state.running cmdevt = false) :
    (state.perform op).ShutLast cmdevt := by
  refine ⟨fun hShut => ?_, fun i => ?_⟩
  · apply running_perform
    left
    cases op with
    | driverState port => exact hLast.shut hShut
    | threadRunning port => exact hLast.shut hShut
    | shutdown port =>
        by_cases hPort : cmdevt = port
        · subst hPort
          exact hStopped rfl
        · apply hLast.shut
          simpa [HostState.perform, Function.update_of_ne hPort]
            using hShut
  · rw [readers_perform]
    exact
      (hLast.ops i).mono cmdevt
        fun h => running_perform cmdevt op (.inl h)

/- A thread that goes on, with accesses of this kind ahead. -/
theorem ShutLast.setReader
    {i : ι}
    {reader : Reader ι}
    (hLast : state.ShutLast cmdevt)
    (hOps : StopsFirst cmdevt (state.running cmdevt = false)
      reader.pc.ops) :
    (state.setReader i reader).ShutLast cmdevt := by
  refine ⟨hLast.shut, fun j => ?_⟩
  by_cases hEq : j = i
  · subst hEq
    rw [readers_setReader_self]
    exact hOps
  · rw [readers_setReader_of_ne hEq]
    exact hLast.ops j

/- A step of a thread keeps it. -/
theorem ShutLast.readerStep
    (hLast : state.ShutLast cmdevt)
    (i : ι)
    (answer : ReaderAnswer) :
    (Bluetooth.readerStep cmdevt state i answer).ShutLast
      cmdevt := by
  have hMove := readerStep_move cmdevt state i answer
  generalize Bluetooth.readerStep cmdevt state i answer = next
    at hMove
  cases hMove with
  | stays => exact hLast
  | goes pc hFollows hOps =>
      apply hLast.setReader
      rcases hOps with hNil | ⟨port, hPort⟩
      · simp [hNil, StopsFirst]
      · rw [hPort]
        exact stopsFirst_scommVendorFailTransport cmdevt _ port
  | performs op pc hFollows hOps =>
      have hAhead := hLast.ops i
      rw [hOps] at hAhead
      apply (hLast.perform cmdevt hAhead.1).setReader
      exact
        hAhead.2.mono cmdevt
          fun h => running_perform cmdevt op h
  | reads piece hangup hPc =>
      have hReceived : (state.receive i piece).ShutLast cmdevt :=
        ⟨hLast.shut, hLast.ops⟩
      apply hReceived.setReader
      simp [ReaderPc.ops, StopsFirst]
  | logs size hPc hVerdict hLog =>
      apply hLast.setReader
      simp [ReaderPc.ops, StopsFirst]
  | locks frame hPc hLock =>
      have hNext :
          (state.goto i (.write frame .start)).ShutLast
            cmdevt := by
        apply hLast.setReader
        simp [ReaderPc.ops, StopsFirst]
      exact ⟨hNext.shut, hNext.ops⟩
  | writes frame write answer hPc hPhase =>
      have hNext :
          (state.goto i
            (.write frame
              (state.nextWrite cmdevt frame.length write
                answer))).ShutLast cmdevt := by
        apply hLast.setReader
        simp [ReaderPc.ops, StopsFirst]
      exact ⟨hNext.shut, hNext.ops⟩
  | returns frame write hPc hPhase =>
      have hNext :
          (state.setReader i
            { state.readers i with
              stream :=
                (state.readers i).stream.drop frame.length
              pc := .decode }).ShutLast cmdevt := by
        apply hLast.setReader
        simp [ReaderPc.ops, StopsFirst]
      exact ⟨hNext.shut, hNext.ops⟩
  | fails frame write hPc hPhase =>
      have hNext :
          (state.goto i (.unsent write.written)).ShutLast
            cmdevt := by
        apply hLast.setReader
        simp [ReaderPc.ops, StopsFirst]
      exact ⟨hNext.shut, hNext.ops⟩

/- So does every step of the library. -/
theorem ShutLast.hostStep
    (hLast : state.ShutLast cmdevt)
    (action : HostAction ι) :
    (Bluetooth.hostStep cmdevt state action).ShutLast
      cmdevt := by
  cases action with
  | reader i answer => exact hLast.readerStep cmdevt i answer
  | other op =>
      cases op with
      | driverState port =>
          exact
            @ShutLast.perform _ _ cmdevt state hLast
              (.driverState port) (by simp)
      | threadRunning port =>
          exact
            @ShutLast.perform _ _ cmdevt state hLast
              (.threadRunning port) (by simp)
      | shutdown port =>
          simp only [Bluetooth.hostStep]
          split_ifs with hRunning
          · exact hLast
          · apply hLast.perform
            intro hPort
            cases hPort
            simpa using hRunning

theorem shutLast_run
    (running : ι → Bool)
    (schedule : List (HostAction ι)) :
    (Schedule.run (Bluetooth.hostStep cmdevt)
      (HostState.start running) schedule).ShutLast cmdevt := by
  apply
    (Schedule.along_true _ schedule).invariant
      (fun _ action hLast _ => hLast.hostStep cmdevt action)
  refine ⟨by simp [start], fun i => ?_⟩
  simp [start, ReaderPc.ops, StopsFirst]

end HostState

------------------------------------------------------------
-- Writing In The Window
------------------------------------------------------------

/- The bytes of one port on the socket. -/
def bytesOf
    (i : ι)
    (delivered : List (ι × UInt8)) : List UInt8 :=
  (delivered.filter (·.1 = i)).map Prod.snd

theorem bytesOf_append
    (i : ι)
    (front back : List (ι × UInt8)) :
    bytesOf i (front ++ back) =
      bytesOf i front ++ bytesOf i back := by
  simp [bytesOf]

theorem bytesOf_map_self
    (i : ι)
    (bytes : List UInt8) :
    bytesOf i (bytes.map (Prod.mk i)) = bytes := by
  induction bytes with
  | nil => rfl
  | cons byte bytes ih =>
      simpa [bytesOf] using ih

theorem bytesOf_map_of_ne
    {i j : ι}
    (hNe : i ≠ j)
    (bytes : List UInt8) :
    bytesOf i (bytes.map (Prod.mk j)) = [] := by
  simp [bytesOf, Ne.symm hNe]

/- They are those of its frames. -/
theorem bytesOf_tagged
    (i : ι)
    (sent : List (ι × List UInt8)) :
    bytesOf i (tagged sent) = (framesOf i sent).flatten := by
  induction sent using List.reverseRecOn with
  | nil => rfl
  | append_singleton sent entry ih =>
      rcases entry with ⟨j, frame⟩
      rw [tagged_append_singleton, bytesOf_append, ih]
      by_cases hEq : i = j
      · subst hEq
        rw [bytesOf_map_self, framesOf_append_self,
          List.flatten_append, List.flatten_singleton]
      · rw [bytesOf_map_of_ne hEq, framesOf_append_of_ne hEq,
          List.append_nil]

/- A part of a frame is not yet a frame. -/
theorem verdict_take
    {frame : List UInt8}
    {written : Nat}
    (hFrame : scommRule.Admissible frame)
    (hWritten : written < frame.length) :
    scommRule.verdict (frame.take written) = .incomplete := by
  have hAll := List.take_append_drop written frame
  cases hVerdict : scommRule.verdict (frame.take written) with
  | incomplete => rfl
  | invalid =>
      have hInvalid :=
        scommRule.framing.append_invalid (frame.drop written)
          hVerdict
      rw [hAll] at hInvalid
      exact absurd (hInvalid.symm.trans hFrame) (by simp)
  | complete size =>
      have hSize := (scommRule.framing.bounds hVerdict).2
      have hComplete :=
        scommRule.framing.append_complete (frame.drop written)
          hVerdict
      rw [hAll] at hComplete
      have hEq := hComplete.symm.trans hFrame
      simp only [Verdict.complete.injEq] at hEq
      rw [List.length_take] at hSize
      omega

/- Nor are frames and such a part only frames. -/
theorem flatten_ne_of_part
    {frames sent : List (List UInt8)}
    {left : List UInt8}
    {written : Nat}
    (hFrames : ∀ frame ∈ frames, scommRule.Admissible frame)
    (hSent : ∀ frame ∈ sent, scommRule.Admissible frame)
    (hLeft : scommRule.Admissible left)
    (hPos : 0 < written)
    (hShort : written < left.length) :
    frames.flatten ≠ sent.flatten ++ left.take written := by
  intro hEq
  have hWhole :=
    Framing.split_flatten scommRule.framing
      scommRule.verdict_nil hFrames
  have hFirst :=
    Framing.split_flatten scommRule.framing
      scommRule.verdict_nil hSent
  have hRest :=
    (scommRule.framing.split_append sent.flatten
      (left.take written)).2.2
  rw [← hEq, hWhole, hFirst, List.nil_append,
    Framing.split_of_incomplete _
      (verdict_take hLeft hShort)] at hRest
  have hNil := congrArg List.length (hRest rfl)
  rw [List.length_take, List.length_nil] at hNil
  omega

theorem admissible_of_forwarded
    {received frame : List UInt8}
    (hFrame : frame ∈ forwarded received) :
    scommRule.Admissible frame :=
  Framing.verdict_of_mem_frames _ (List.mem_of_mem_filter hFrame)

/- A part of a frame, and then a byte of another port. -/
theorem not_framesAtomic_of_byte
    {state : HostState ι}
    {k j : ι}
    {left : List UInt8}
    {written : Nat}
    (byte : UInt8)
    (hNe : k ≠ j)
    (hSent : ∀ frame ∈ framesOf k state.sent,
      scommRule.Admissible frame)
    (hLeft : scommRule.Admissible left)
    (hPos : 0 < written)
    (hShort : written < left.length)
    (hDelivered :
      state.delivered =
        tagged state.sent ++
          (left.take written).map (Prod.mk k) ++
            [(j, byte)]) :
    ¬ FramesAtomic state := by
  rintro ⟨whole, last, hAtomic⟩
  -- the last bytes are not those of the part
  have hLast :
      bytesOf k (tagged (whole ++ last.toList)) =
        (framesOf k whole).flatten := by
    cases last with
    | none => simp [bytesOf_tagged]
    | some entry =>
        rcases entry with ⟨i, part⟩
        have hPart := (hAtomic.truncated i part rfl).1
        have hEnd := hAtomic.delivered
        rw [hDelivered, Option.toList_some,
          tagged_append_singleton,
          ← List.dropLast_append_getLast hPart,
          List.map_append, ← List.append_assoc] at hEnd
        have hPort := List.append_inj_right' hEnd (by simp)
        have hSame : j = i := by
          simp only [List.map_cons, List.map_nil,
            List.cons.injEq, Prod.mk.injEq] at hPort
          exact hPort.1.1
        subst hSame
        rw [Option.toList_some, tagged_append_singleton,
          bytesOf_append, bytesOf_map_of_ne hNe, bytesOf_tagged,
          List.append_nil]
  have hBytes := congrArg (bytesOf k) hAtomic.delivered
  rw [hLast, hDelivered, bytesOf_append, bytesOf_append,
    bytesOf_tagged, bytesOf_map_self] at hBytes
  have hByte : bytesOf k [(j, byte)] = [] := by
    simp [bytesOf, Ne.symm hNe]
  rw [hByte, List.append_nil] at hBytes
  refine
    flatten_ne_of_part ?_ hSent hLeft hPos hShort hBytes.symm
  intro frame hFrame
  exact
    admissible_of_forwarded
      ((hAtomic.ordered k).subset hFrame)

namespace HostState

variable {state : HostState ι}

/- A thread that writes, but not alone. -/
structure Overlaps
    (state : HostState ι)
    (j : ι)
    (frame : List UInt8)
    (write : WriteState) : Prop where
  writing : (state.readers j).pc = .write frame write
  test : write.phase = .test
  more : write.written < frame.length
  running : state.running cmdevt = true

omit [DecidableEq ι] in
theorem overlaps_of_not_writesAlone
    {action : HostAction ι}
    (hOverlap : ¬ WritesAlone cmdevt state action) :
    ∃ j answer frame write,
      action = .reader j answer ∧
        state.Overlaps cmdevt j frame write ∧
          ∃ k, (state.readers k).pc.LeftPart cmdevt := by
  cases action with
  | other op => exact absurd trivial hOverlap
  | reader j answer =>
      simp only [WritesAlone, not_forall, not_not] at hOverlap
      rcases hOverlap with
        ⟨frame, write, hPc, hTest, hMore, hRunning, k, hLeft⟩
      exact
        ⟨j, answer, frame, write, rfl,
          ⟨hPc, hTest, hMore, hRunning⟩, k, hLeft⟩

/- It passes the check. -/
theorem Overlaps.passes
    {j : ι}
    {frame : List UInt8}
    {write : WriteState}
    (hOverlaps : state.Overlaps cmdevt j frame write)
    (answer : ReaderAnswer) :
    readerStep cmdevt state j answer =
      state.goto j
        (.write frame { write with phase := .send }) := by
  have hNext :
      state.nextWrite cmdevt frame.length write answer =
        { write with phase := .send } := by
    simp [nextWrite, writeTransportStep, hOverlaps.test,
      hOverlaps.more, hOverlaps.running]
  simp only [readerStep, hOverlaps.writing, hOverlaps.test,
    stepWrite, hNext, Nat.sub_self, List.take_zero,
    List.map_nil, List.append_nil]
  rfl

/- A socket with room for one byte takes it. -/
def oneByte : ReaderAnswer :=
  ⟨.interrupted, .sent 1, .interrupted⟩

/- Then the socket takes a byte of it. -/
theorem Overlaps.sends
    {j : ι}
    {frame : List UInt8}
    {write : WriteState}
    (hOverlaps : state.Overlaps cmdevt j frame write)
    (hShut : state.shut cmdevt = false)
    (hZero : write.written = 0) :
    ∃ byte, ∃ next,
      readerStep cmdevt
          (state.goto j
            (.write frame { write with phase := .send })) j
          oneByte =
        { state.goto j (.write frame next) with
          delivered := state.delivered ++ [(j, byte)] } := by
  have hFrame := hOverlaps.more
  rw [hZero] at hFrame
  cases frame with
  | nil => simp at hFrame
  | cons byte rest =>
      refine ⟨byte, ⟨1, .test⟩, ?_⟩
      have hNext :
          (state.goto j
              (.write (byte :: rest)
                { write with phase := .send })).nextWrite cmdevt
              (byte :: rest).length
              { write with phase := .send } oneByte =
            ⟨1, .test⟩ := by
        simp [nextWrite, writeTransportStep, sendReply, goto,
          setReader, hShut, hZero, oneByte]
      simp only [readerStep, goto, readers_setReader_self,
        stepWrite] at hNext ⊢
      rw [hNext]
      simp [setReader, hZero]

/- After a step into the window frames may not be atomic. -/
theorem not_framesAtomic_of_overlap
    {action : HostAction ι}
    (hKept : state.Kept)
    (hUnbroken : state.Unbroken cmdevt)
    (hLast : state.ShutLast cmdevt)
    (hOverlap : ¬ WritesAlone cmdevt state action) :
    ∃ j,
      ¬ FramesAtomic
        (Schedule.run (hostStep cmdevt) state
          [action, .reader j oneByte]) := by
  rcases overlaps_of_not_writesAlone cmdevt hOverlap with
    ⟨j, answer, frame, write, hAction, hOverlaps, k, hLeft⟩
  subst hAction
  refine ⟨j, ?_⟩
  rcases hUnbroken with hIntact | ⟨k, left, written, hBroken⟩
  · exact absurd hLeft (hIntact.left k)
  · have hZero := (hBroken.quiet j _ _ hOverlaps.writing).1
    have hShut : state.shut cmdevt = false := by
      by_contra hShut
      have hStopped := hLast.shut (by simpa using hShut)
      exact absurd (hStopped.symm.trans hOverlaps.running) (by simp)
    have hNe : k ≠ j := by
      intro hEq
      subst hEq
      have hGone := hBroken.gone
      rw [hOverlaps.writing] at hGone
      exact hGone
    rcases hOverlaps.sends cmdevt hShut hZero with
      ⟨byte, next, hNext⟩
    simp only [Schedule.run_cons, Schedule.run_nil, hostStep,
      hOverlaps.passes, hNext]
    have hSent :
        ∀ frame ∈ framesOf k state.sent,
          scommRule.Admissible frame :=
      fun frame hFrame =>
        admissible_of_forwarded
          ((hKept.ordered k).subset hFrame)
    have hWhole : scommRule.Admissible left :=
      hBroken.front.take ▸
        scommRule.admissible_take hBroken.front.verdict
    refine
      not_framesAtomic_of_byte byte hNe ?_ hWhole hBroken.pos
        hBroken.lt ?_
    · exact hSent
    · rw [hBroken.delivered]
      rfl

end HostState

------------------------------------------------------------
-- Runs Of The Library
------------------------------------------------------------

/-
  Frames are atomic in every run in which threads write alone.
  If some thread does not, they may not be.
-/
theorem hostSocket_framesAtomic
    (running : ι → Bool) :
    (∀ schedule,
      Schedule.Along (hostStep cmdevt) (WritesAlone cmdevt)
          (HostState.start running) schedule →
        FramesAtomic
          (Schedule.run (hostStep cmdevt)
            (HostState.start running) schedule)) ∧
    ((∀ schedule,
        FramesAtomic
          (Schedule.run (hostStep cmdevt)
            (HostState.start running) schedule)) →
      ∀ schedule,
        Schedule.Along (hostStep cmdevt) (WritesAlone cmdevt)
          (HostState.start running) schedule) := by
  refine ⟨?_, ?_⟩
  · intro schedule hAlone
    exact
      (HostState.unbroken_run cmdevt hAlone).framesAtomic cmdevt
        (HostState.kept_run cmdevt running schedule)
  · intro hAtomic schedule
    induction schedule using List.reverseRecOn with
    | nil => trivial
    | append_singleton schedule action ih =>
        refine Schedule.along_append.mpr ⟨ih, ?_, trivial⟩
        by_contra hOverlap
        rcases
            HostState.not_framesAtomic_of_overlap cmdevt
              (HostState.kept_run cmdevt running schedule)
              (HostState.unbroken_run cmdevt ih)
              (HostState.shutLast_run cmdevt running schedule)
              hOverlap with
          ⟨j, hBroken⟩
        apply hBroken
        rw [← Schedule.run_append]
        exact hAtomic _

end Overlap

------------------------------------------------------------
-- Two Ports
------------------------------------------------------------

/- A thread whose system calls end like this takes a step. -/
def portStep
    (i : Bool)
    (send : SendReply) : HostAction Bool :=
  .reader i
    ⟨.events false ⟨false, some (.data [4, 14, 1, 7]), false⟩,
      send, .ready⟩

/-
  The thread of a port sends the first byte of an event, its
  next send fails, and before it marks the transport the
  thread of port 0 sends the first byte of its own.
-/
def overlapSchedule : List (HostAction Bool) :=
  List.replicate 6 (portStep true (.sent 1)) ++
    List.replicate 3 (portStep true .failed) ++
    List.replicate 6 (portStep false (.sent 1))

theorem not_framesAtomic_overlapSchedule :
    ¬ ∀ (running : Bool → Bool)
      (schedule : List (HostAction Bool)),
      FramesAtomic
        (Schedule.run (hostStep false)
          (HostState.start running) schedule) := by
  intro hAtomic
  refine
    @not_framesAtomic_of_byte Bool _ _ true false [4, 14, 1, 7]
      1 4 (by simp) ?_ ?_ (by simp) (by simp) ?_
      (hAtomic (fun _ => true) overlapSchedule)
  · have hSent :
        (Schedule.run (hostStep false)
          (HostState.start fun _ => true)
          overlapSchedule).sent = [] := by decide
    rw [hSent]
    simp [framesOf]
  · show scommRule.verdict _ = _
    decide
  · decide

end Bluetooth

end MicaBoards
