import MicaBoards.Bluetooth.HostSocket

/-
  What a step of a thread does to the state it shares with
  the others.

  Main declarations:
    * `WriteState.Within`
    * `ReaderMove`
    * `readerStep_move`
-/

------------------------------------------------------------
-- The Write Of A Frame
------------------------------------------------------------

namespace MicaBoards

namespace Bluetooth

/- How much a call of `write_transport` has written. -/
def WriteState.Within
    (length : Nat)
    (write : WriteState) : Prop :=
  match write.phase with
  | .test => write.written ≤ length
  | .returned true => write.written = length
  | _ => write.written < length

theorem WriteState.Within.le
    {length : Nat}
    {write : WriteState}
    (hWithin : write.Within length) :
    write.written ≤ length := by
  unfold Within at hWithin
  split at hWithin <;> omega

/- A step writes no more than the rest of the frame. -/
theorem WriteState.Within.step
    {length : Nat}
    {write : WriteState}
    (hWithin : write.Within length)
    (answer : WriteAnswer)
    (hSent : ∀ count, answer.send = .sent count →
      write.written + count ≤ length) :
    (writeTransportStep length write answer).Within length ∧
      write.written ≤
        (writeTransportStep length write answer).written := by
  rcases write with ⟨written, phase⟩
  rcases answer with ⟨running, send, poll⟩
  cases phase with
  | test =>
      simp only [Within] at hWithin
      simp only [writeTransportStep]
      split_ifs with hMore
      · exact ⟨hMore.1, Nat.le_refl _⟩
      · refine ⟨?_, Nat.le_refl _⟩
        by_cases hWhole : written = length
        · simp [Within, hWhole]
        · simp only [Within, hWhole, decide_false]
          omega
  | send =>
      simp only [Within] at hWithin
      cases send with
      | sent count =>
          have hCount := hSent count rfl
          simp only [writeTransportStep, Within] at hCount ⊢
          omega
      | interrupted =>
          simp only [writeTransportStep, Within]
          omega
      | again =>
          simp only [writeTransportStep, Within]
          omega
      | zero =>
          simp only [writeTransportStep, Within]
          omega
      | failed =>
          simp only [writeTransportStep, Within]
          omega
  | poll =>
      simp only [Within] at hWithin
      cases poll <;> simp only [writeTransportStep, Within] <;>
        omega
  | repoll =>
      simp only [Within] at hWithin
      simp only [writeTransportStep]
      split_ifs <;> simp only [Within] <;> omega
  | polled ready =>
      simp only [Within] at hWithin
      simp only [writeTransportStep]
      split_ifs <;> simp only [Within] <;> omega
  | returned ok => exact ⟨hWithin, Nat.le_refl _⟩

------------------------------------------------------------
-- What A Step Does
------------------------------------------------------------

section Steps

variable {ι : Type}

variable [DecidableEq ι]

variable (cmdevt : ι)

/- A stream begins with a frame for the host. -/
structure AtFront
    (stream frame : List UInt8) : Prop where
  verdict : scommRule.verdict stream = .complete frame.length
  take : stream.take frame.length = frame
  noLog : isLog frame = false

namespace ReaderPc

/- A thread whose write has failed, or that is leaving. -/
def Gone : ReaderPc ι → Prop
| .unsent _ => True
| .failHost _ _ => True
| .unsentOwn => True
| .failOwn _ => True
| .exited => True
| _ => False

/-
  A thread that has released the lock with a part of its frame
  written, and has not yet stopped port 0.
-/
def LeftPart : ReaderPc ι → Prop
| .unsent written => 0 < written
| .failHost written ops =>
    0 < written ∧ FailOp.threadRunning cmdevt ∈ ops
| _ => False

/- What is left of a call of `scomm_vendor_fail_transport`. -/
def ops : ReaderPc ι → List (FailOp ι)
| .failHost _ ops => ops
| .failOwn ops => ops
| _ => []

end ReaderPc

/- How a thread that does not hold the lock goes on. -/
structure Follows
    (state : HostState ι)
    (i : ι)
    (pc : ReaderPc ι) : Prop where
  before : ∀ frame write,
    (state.readers i).pc ≠ .write frame write
  after : ∀ frame write, pc ≠ .write frame write
  front : ∀ frame,
    pc = .lock frame → AtFront (state.readers i).stream frame
  gone : (state.readers i).pc.Gone → pc.Gone
  left : pc.LeftPart cmdevt →
    (state.readers i).pc.LeftPart cmdevt
  marks : state.running cmdevt = true →
    (state.readers i).pc.LeftPart cmdevt → pc.LeftPart cmdevt

/- What a thread can do in a step. -/
inductive ReaderMove
    (state : HostState ι)
    (i : ι) : HostState ι → Prop where
| stays : ReaderMove state i state
/- it goes on by itself -/
| goes (pc : ReaderPc ι)
    (hFollows : Follows cmdevt state i pc)
    (hOps : pc.ops = [] ∨
      ∃ port, pc.ops = scommVendorFailTransport cmdevt port) :
    ReaderMove state i (state.goto i pc)
/- it makes an access of `scomm_vendor_fail_transport` -/
| performs (op : FailOp ι) (pc : ReaderPc ι)
    (hFollows : Follows cmdevt (state.perform op) i pc)
    (hOps : (state.readers i).pc.ops = op :: pc.ops) :
    ReaderMove state i ((state.perform op).goto i pc)
/- it reads from its port -/
| reads (piece : List UInt8) (hangup : Bool)
    (hPc : (state.readers i).pc = .poll) :
    ReaderMove state i
      ((state.receive i piece).setReader i
        { stream := (state.readers i).stream ++ piece
          hangup := hangup
          pc := .decode })
/- it drops a log -/
| logs (size : Nat)
    (hPc : (state.readers i).pc = .decode)
    (hVerdict :
      scommRule.verdict (state.readers i).stream =
        .complete size)
    (hLog :
      isLog ((state.readers i).stream.take size) = true) :
    ReaderMove state i
      (state.setReader i
        { stream := (state.readers i).stream.drop size
          hangup := (state.readers i).hangup
          pc := .decode })
/- it takes the lock -/
| locks (frame : List UInt8)
    (hPc : (state.readers i).pc = .lock frame)
    (hLock : state.lock = none) :
    ReaderMove state i
      { state.goto i (.write frame .start) with
        lock := some i }
/- it is in `write_transport` -/
| writes (frame : List UInt8) (write : WriteState)
    (answer : ReaderAnswer)
    (hPc : (state.readers i).pc = .write frame write)
    (hPhase : ∀ ok, write.phase ≠ .returned ok) :
    ReaderMove state i
      (state.stepWrite cmdevt i frame write answer)
/- it releases the lock after a whole frame -/
| returns (frame : List UInt8) (write : WriteState)
    (hPc : (state.readers i).pc = .write frame write)
    (hPhase : write.phase = .returned true) :
    ReaderMove state i
      { state.setReader i
          { state.readers i with
            stream :=
              (state.readers i).stream.drop frame.length
            pc := .decode } with
        lock := none
        sent := state.sent ++ [(i, frame)] }
/- it releases the lock after less -/
| fails (frame : List UInt8) (write : WriteState)
    (hPc : (state.readers i).pc = .write frame write)
    (hPhase : write.phase = .returned false) :
    ReaderMove state i
      { state.goto i (.unsent write.written) with
        lock := none }

omit [DecidableEq ι] in
/- A thread before its frame goes on. -/
theorem follows_of_not_gone
    {state : HostState ι}
    {i : ι}
    {pc : ReaderPc ι}
    (hBefore : ∀ frame write,
      (state.readers i).pc ≠ .write frame write)
    (hGone : ¬ (state.readers i).pc.Gone)
    (hAfter : ∀ frame write, pc ≠ .write frame write)
    (hFront : ∀ frame, pc ≠ .lock frame)
    (hLeft : ¬ pc.LeftPart cmdevt) :
    Follows cmdevt state i pc := by
  have hStart : ¬ (state.readers i).pc.LeftPart cmdevt := by
    intro hPart
    apply hGone
    revert hPart
    cases (state.readers i).pc <;>
      simp [ReaderPc.LeftPart, ReaderPc.Gone]
  exact
    { before := hBefore
      after := hAfter
      front := fun frame hPc => absurd hPc (hFront frame)
      gone := fun h => absurd h hGone
      left := fun h => absurd h hLeft
      marks := fun _ h => absurd h hStart }

omit [DecidableEq ι] in
/- So does one that sends no more. -/
theorem follows_of_gone
    {state : HostState ι}
    {i : ι}
    {pc : ReaderPc ι}
    (hBefore : (state.readers i).pc.Gone)
    (hAfter : pc.Gone)
    (hLeft : pc.LeftPart cmdevt →
      (state.readers i).pc.LeftPart cmdevt)
    (hMarks : state.running cmdevt = true →
      (state.readers i).pc.LeftPart cmdevt →
        pc.LeftPart cmdevt) :
    Follows cmdevt state i pc where
  before frame write hPc := by simp [hPc, ReaderPc.Gone] at hBefore
  after frame write hPc := by simp [hPc, ReaderPc.Gone] at hAfter
  front frame hPc := by simp [hPc, ReaderPc.Gone] at hAfter
  gone _ := hAfter
  left := hLeft
  marks := hMarks

/- An access of the kind leaves the threads as they are. -/
@[simp] theorem readers_perform
    (state : HostState ι)
    (op : FailOp ι) :
    (state.perform op).readers = state.readers := by
  cases op <;> rfl

/- The loop goes on to a frame that its rule takes. -/
theorem verdict_of_taken
    {stream : List UInt8}
    (hStream : stream ≠ [])
    (hInvalid :
      ¬ ((skwH4Decode stream).1 = .invalid ∨
        scommRule.refuses (skwH4Decode stream).2 = true))
    (hIncomplete : (skwH4Decode stream).1 ≠ .incomplete) :
    scommRule.verdict stream =
      .complete (skwH4Decode stream).2.frameSize := by
  rw [FrameRule.verdict, if_neg hStream, if_neg hInvalid,
    if_neg hIncomplete]

theorem atFront_take
    {stream : List UInt8}
    {size : Nat}
    (hVerdict : scommRule.verdict stream = .complete size)
    (hLog : isLog (stream.take size) = false) :
    AtFront stream (stream.take size) := by
  have hSize := (scommRule.framing.bounds hVerdict).2
  have hLength : (stream.take size).length = size := by
    rw [List.length_take, Nat.min_eq_left hSize]
  exact
    { verdict := hLength.symm ▸ hVerdict
      take := by rw [hLength]
      noLog := hLog }

/- A step is one of these. -/
theorem readerStep_move
    (state : HostState ι)
    (i : ι)
    (answer : ReaderAnswer) :
    ReaderMove cmdevt state i
      (readerStep cmdevt state i answer) := by
  have hEarly :
      ∀ pc : ReaderPc ι,
        (∀ frame write,
          (state.readers i).pc ≠ .write frame write) →
        ¬ (state.readers i).pc.Gone →
        (pc = .loop ∨ pc = .poll ∨ pc = .decoded ∨
          pc = .exited ∨
          pc = .failOwn (scommVendorFailTransport cmdevt i)) →
        ReaderMove cmdevt state i (state.goto i pc) := by
    intro pc hWrite hGone hPc
    refine
      .goes pc
        (follows_of_not_gone cmdevt hWrite hGone ?_ ?_ ?_)
        ?_ <;>
      rcases hPc with rfl | rfl | rfl | rfl | rfl <;>
      simp [ReaderPc.LeftPart, ReaderPc.ops]
  cases hPc : (state.readers i).pc with
  | loop =>
      have hNext := fun pc =>
        hEarly pc (by simp [hPc]) (by simp [hPc, ReaderPc.Gone])
      simp only [readerStep, hPc]
      split_ifs <;> exact hNext _ (by simp)
  | poll =>
      have hNext := fun pc =>
        hEarly pc (by simp [hPc]) (by simp [hPc, ReaderPc.Gone])
      simp only [readerStep, hPc]
      cases answer.port with
      | interrupted =>
          simp only
          split_ifs
          · exact .stays
          · exact hNext _ (by simp)
      | failed =>
          simp only
          split_ifs <;> exact hNext _ (by simp)
      | events signal event =>
          by_cases hStop : signal = true ∧ state.running i = false
          · simp only [if_pos hStop]
            exact hNext _ (by simp)
          · simp only [if_neg hStop]
            cases event.readable with
            | none =>
                simp only
                split_ifs <;> exact hNext _ (by simp)
            | some reply =>
                cases reply with
                | again =>
                    simp only
                    split_ifs <;> exact hNext _ (by simp)
                | closed =>
                    simp only
                    split_ifs <;> exact hNext _ (by simp)
                | data piece =>
                    simp only
                    split_ifs
                    · exact hNext _ (by simp)
                    · exact .reads piece _ hPc
  | decode =>
      have hNext := fun pc =>
        hEarly pc (by simp [hPc]) (by simp [hPc, ReaderPc.Gone])
      simp only [readerStep, hPc]
      split_ifs with hStream hInvalid hIncomplete hLog
      · exact hNext _ (by simp)
      · exact hNext _ (by simp)
      · exact hNext _ (by simp)
      · exact
          .logs _ hPc
            (verdict_of_taken hStream hInvalid hIncomplete) hLog
      · refine .goes _ ?_ (.inl rfl)
        exact
          { before := by simp [hPc]
            after := by simp
            front := by
              intro frame hFrame
              cases hFrame
              exact
                atFront_take
                  (verdict_of_taken hStream hInvalid
                    hIncomplete)
                  (by simpa using hLog)
            gone := by simp [hPc, ReaderPc.Gone]
            left := by simp [ReaderPc.LeftPart]
            marks := by simp [hPc, ReaderPc.LeftPart] }
  | decoded =>
      have hNext := fun pc =>
        hEarly pc (by simp [hPc]) (by simp [hPc, ReaderPc.Gone])
      simp only [readerStep, hPc]
      split_ifs <;> exact hNext _ (by simp)
  | lock frame =>
      simp only [readerStep, hPc]
      cases hLock : state.lock with
      | none => exact .locks frame hPc hLock
      | some j => exact .stays
  | write frame write =>
      cases hPhase : write.phase with
      | returned ok =>
          cases ok with
          | true =>
              simp only [readerStep, hPc, hPhase]
              exact .returns frame write hPc hPhase
          | false =>
              simp only [readerStep, hPc, hPhase]
              exact .fails frame write hPc hPhase
      | test =>
          simp only [readerStep, hPc, hPhase]
          exact .writes frame write answer hPc (by simp [hPhase])
      | send =>
          simp only [readerStep, hPc, hPhase]
          exact .writes frame write answer hPc (by simp [hPhase])
      | poll =>
          simp only [readerStep, hPc, hPhase]
          exact .writes frame write answer hPc (by simp [hPhase])
      | repoll =>
          simp only [readerStep, hPc, hPhase]
          exact .writes frame write answer hPc (by simp [hPhase])
      | polled ready =>
          simp only [readerStep, hPc, hPhase]
          exact .writes frame write answer hPc (by simp [hPhase])
  | unsent written =>
      simp only [readerStep, hPc]
      split_ifs with hRunning
      · refine
          .goes _
            (follows_of_gone cmdevt (hPc ▸ trivial) trivial ?_
              ?_)
            (.inr ⟨cmdevt, rfl⟩) <;>
          simp +contextual [hPc, ReaderPc.LeftPart,
            scommVendorFailTransport]
      · refine
          .goes _
            (follows_of_gone cmdevt (hPc ▸ trivial) trivial ?_
              ?_)
            (.inl rfl) <;>
          simp [hRunning, ReaderPc.LeftPart]
  | failHost written ops =>
      cases ops with
      | nil =>
          simp only [readerStep, hPc]
          refine
            .goes _
              (follows_of_gone cmdevt (hPc ▸ trivial) trivial ?_
                ?_)
              (.inl rfl) <;>
            simp [hPc, ReaderPc.LeftPart]
      | cons op rest =>
          simp only [readerStep, hPc]
          refine
            .performs op _
              (follows_of_gone cmdevt
                (by rw [readers_perform, hPc]; trivial) trivial
                ?_ ?_)
              (by rw [hPc]; rfl)
          · simp +contextual [hPc, ReaderPc.LeftPart]
          · -- unless the access is the one that stops port 0
            intro hRunning hLeft
            simp only [readers_perform, hPc, ReaderPc.LeftPart,
              List.mem_cons] at hLeft ⊢
            refine ⟨hLeft.1, hLeft.2.resolve_left ?_⟩
            rintro rfl
            simp [HostState.perform] at hRunning
  | unsentOwn =>
      simp only [readerStep, hPc]
      split_ifs <;>
        refine
          .goes _
            (follows_of_gone cmdevt (hPc ▸ trivial) trivial ?_
              ?_)
            ?_ <;>
        simp [hPc, ReaderPc.LeftPart, ReaderPc.ops]
  | failOwn ops =>
      cases ops with
      | nil =>
          simp only [readerStep, hPc]
          refine
            .goes _
              (follows_of_gone cmdevt (hPc ▸ trivial) trivial ?_
                ?_)
              (.inl rfl) <;>
            simp [hPc, ReaderPc.LeftPart]
      | cons op rest =>
          simp only [readerStep, hPc]
          refine
            .performs op _
              (follows_of_gone cmdevt
                (by rw [readers_perform, hPc]; trivial) trivial
                ?_ ?_)
              (by rw [hPc]; rfl) <;>
            simp [hPc, ReaderPc.LeftPart]
  | exited =>
      simpa only [readerStep, hPc] using .stays

end Steps

end Bluetooth

end MicaBoards
