import MicaBoards.Bluetooth.H4
import Mathlib.Data.List.Induction

/-
  The receivers of H4 streams. `chip_to_kernel` of the bridge,
  `scomm_vendor_recv_rawdata` and
  `scomm_vendor_recv_scomm_thread` of the library have one
  loop in common: they read into a `skw_h4_stream`, decode,
  refuse frames by a rule of their own, and hand each whole
  frame on. A receiver that hands every frame on decodes its
  stream as if it came at once.

  Key definitions include:
    * `decodeLoop`
    * `readTurn`
    * `ReceivedAs`
-/

------------------------------------------------------------
-- The Loop
------------------------------------------------------------

namespace MicaBoards

namespace Bluetooth

/-
  The stream of a receiver, what it has handed on, and
  whether it still runs.
-/
structure Receiver (σ : Type) where
  stream : List UInt8
  done : σ
  running : Bool
deriving DecidableEq, Repr

/- How one `read` of the stream's descriptor ends. -/
inductive ReadReply where
| data (piece : List UInt8)
/- EINTR or EAGAIN -/
| again
/- end of file or an error -/
| closed
deriving DecidableEq, Repr

section Loop

variable {σ : Type}

variable (rule : FrameRule)

/- How a frame is handed on, and whether it could be. -/
variable (hand : σ → List UInt8 → σ × Bool)

/-
  `while (stream.length > 0)`. A frame that could not be
  handed on stays in the stream.
-/
def decodeLoop (receiver : Receiver σ) : Receiver σ :=
  if _hStream : receiver.stream = [] then
    receiver
  else
    let status := (skwH4Decode receiver.stream).1
    let frame := (skwH4Decode receiver.stream).2
    let handed :=
      hand receiver.done (receiver.stream.take frame.frameSize)
    if _hInvalid :
        status = .invalid ∨ rule.refuses frame = true then
      { receiver with running := false }
    else if _hIncomplete : status = .incomplete then
      receiver
    else if handed.2 = false then
      { receiver with done := handed.1, running := false }
    else
      decodeLoop
        { receiver with
          stream := receiver.stream.drop frame.frameSize
          done := handed.1 }
termination_by receiver.stream.length
decreasing_by
  have hComplete : status = .complete := by
    cases hStatus : status with
    | invalid => exact absurd (Or.inl hStatus) _hInvalid
    | incomplete => exact absurd hStatus _hIncomplete
    | complete => rfl
  have hBounds := frameSize_of_complete _hStream hComplete
  rw [List.length_drop]
  omega

/- A `read` into the room the stream has, and the loop. -/
def readTurn
    (receiver : Receiver σ)
    (reply : ReadReply) : Receiver σ :=
  if receiver.running = false then
    receiver
  else if skwH4StreamCapacity - receiver.stream.length = 0 then
    -- "frame exceeds"
    { receiver with running := false }
  else
    match reply with
    | .again => receiver
    | .closed => { receiver with running := false }
    | .data piece =>
        decodeLoop rule hand
          { receiver with stream := receiver.stream ++ piece }

/- A receiver before its first read. -/
def Receiver.start (done : σ) : Receiver σ := ⟨[], done, true⟩

------------------------------------------------------------
-- Invariants
------------------------------------------------------------

variable {rule hand}

/- The loop leaves what is not yet a frame. -/
theorem decodeLoop_of_incomplete
    {receiver : Receiver σ}
    (hVerdict : rule.verdict receiver.stream = .incomplete) :
    decodeLoop rule hand receiver = receiver := by
  rw [decodeLoop]
  rcases rule.verdict_eq_incomplete_iff.mp hVerdict with
    hNil | ⟨hStatus, hTaken⟩
  · rw [dif_pos hNil]
  · split_ifs <;> simp_all

/- The loop stops at what is invalid. -/
theorem decodeLoop_of_invalid
    {receiver : Receiver σ}
    (hVerdict : rule.verdict receiver.stream = .invalid) :
    decodeLoop rule hand receiver =
      { receiver with running := false } := by
  rcases rule.verdict_eq_invalid_iff.mp hVerdict with
    ⟨hStream, hRefused⟩
  rw [decodeLoop, dif_neg hStream, dif_pos hRefused]

/- The loop hands the first frame on. -/
theorem decodeLoop_of_complete
    {receiver : Receiver σ}
    {size : Nat}
    (hVerdict : rule.verdict receiver.stream = .complete size) :
    decodeLoop rule hand receiver =
      let handed :=
        hand receiver.done (receiver.stream.take size)
      if handed.2 = false then
        { receiver with done := handed.1, running := false }
      else
        decodeLoop rule hand
          { receiver with
            stream := receiver.stream.drop size
            done := handed.1 } := by
  rcases rule.verdict_eq_complete_iff.mp hVerdict with
    ⟨hStream, hStatus, hTaken, rfl⟩
  rw [decodeLoop, dif_neg hStream,
    dif_neg (by simp [hStatus, hTaken]),
    dif_neg (by simp [hStatus])]

/-
  What handing on an admissible frame preserves, the loop
  preserves.
-/
theorem decodeLoop_invariant
    {P : σ → Prop}
    (hHand : ∀ done frame,
      rule.Admissible frame → P done → P (hand done frame).1)
    (receiver : Receiver σ)
    (hDone : P receiver.done) :
    P (decodeLoop rule hand receiver).done := by
  induction hStream : receiver.stream using
      rule.framing.induction_on generalizing receiver with
  | invalid stream hVerdict =>
      subst hStream
      rwa [decodeLoop_of_invalid hVerdict]
  | incomplete stream hVerdict =>
      subst hStream
      rwa [decodeLoop_of_incomplete hVerdict]
  | complete stream size hVerdict ih =>
      subst hStream
      have hNext :=
        hHand _ _ (rule.admissible_take hVerdict) hDone
      rw [decodeLoop_of_complete hVerdict]
      simp only
      split_ifs
      · exact hNext
      · exact ih _ hNext rfl

/- So does a read. -/
theorem readTurn_invariant
    {P : σ → Prop}
    (hHand : ∀ done frame,
      rule.Admissible frame → P done → P (hand done frame).1)
    (receiver : Receiver σ)
    (reply : ReadReply)
    (hDone : P receiver.done) :
    P (readTurn rule hand receiver reply).done := by
  unfold readTurn
  split_ifs
  · exact hDone
  · exact hDone
  · cases reply with
    | again => exact hDone
    | closed => exact hDone
    | data piece => exact decodeLoop_invariant hHand _ hDone

------------------------------------------------------------
-- Decoding At Once
------------------------------------------------------------

/- What is handed on, frame after frame. -/
def handAll
    (hand : σ → List UInt8 → σ × Bool)
    (done : σ)
    (frames : List (List UInt8)) : σ :=
  frames.foldl (fun done frame => (hand done frame).1) done

@[simp] theorem handAll_nil
    (done : σ) :
    handAll hand done [] = done := rfl

@[simp] theorem handAll_cons
    (done : σ)
    (frame : List UInt8)
    (frames : List (List UInt8)) :
    handAll hand done (frame :: frames) =
      handAll hand (hand done frame).1 frames := rfl

/- The loop decodes its stream at once. -/
theorem decodeLoop_eq
    (hHand : ∀ done frame,
      rule.Admissible frame → (hand done frame).2 = true)
    (stream : List UInt8)
    (done : σ) :
    decodeLoop rule hand ⟨stream, done, true⟩ =
      ⟨(rule.framing.split stream).rest,
        handAll hand done (rule.framing.split stream).frames,
        (rule.framing.split stream).valid⟩ := by
  -- the loop takes one frame a turn, as the split does
  induction stream using rule.framing.induction_on
    generalizing done with
  | invalid stream hVerdict =>
      rw [Framing.split_of_invalid _ hVerdict,
        @decodeLoop_of_invalid _ rule hand ⟨stream, done, true⟩
          hVerdict]
      rfl
  | incomplete stream hVerdict =>
      rw [Framing.split_of_incomplete _ hVerdict,
        @decodeLoop_of_incomplete _ rule hand
          ⟨stream, done, true⟩ hVerdict]
      rfl
  | complete stream size hVerdict ih =>
      have hHanded :=
        hHand done _ (rule.admissible_take hVerdict)
      rw [Framing.split_of_complete _ hVerdict,
        @decodeLoop_of_complete _ rule hand
          ⟨stream, done, true⟩ _ hVerdict]
      simp only [hHanded, Bool.true_eq_false, if_false]
      exact ih _

variable (rule hand)

/- The receiver has decoded the bytes. -/
def ReceivedAs
    (start : σ)
    (bytes : List UInt8)
    (receiver : Receiver σ) : Prop :=
  ∃ frames,
    receiver.done = handAll hand start frames ∧
      rule.framing.FedAs
        ⟨frames, receiver.stream, receiver.running⟩ bytes

variable {rule hand}

/- Nothing is received before the first read. -/
theorem receivedAs_start (done : σ) :
    ReceivedAs rule hand done [] (Receiver.start done) :=
  ⟨[], rfl, rule.framing.fedAs_start rule.verdict_nil⟩

namespace ReceivedAs

variable {start : σ}
variable {bytes : List UInt8}
variable {receiver : Receiver σ}

/- What is handed on are the frames of the bytes. -/
theorem done_eq
    (hReceived : ReceivedAs rule hand start bytes receiver) :
    receiver.done =
      handAll hand start (rule.framing.split bytes).frames := by
  rcases hReceived with ⟨frames, hDone, hFed⟩
  rw [hDone, ← hFed.frames]

/- The receiver runs unless the bytes are invalid. -/
theorem running_eq
    (hReceived : ReceivedAs rule hand start bytes receiver) :
    receiver.running = (rule.framing.split bytes).valid := by
  rcases hReceived with ⟨frames, hDone, hFed⟩
  exact hFed.valid

/- A running receiver holds what is left of the bytes. -/
theorem stream_eq
    (hReceived : ReceivedAs rule hand start bytes receiver)
    (hRunning : receiver.running = true) :
    receiver.stream = (rule.framing.split bytes).rest := by
  rcases hReceived with ⟨frames, hDone, hFed⟩
  exact hFed.rest hRunning

/- What a running receiver holds is not yet a frame. -/
theorem verdict_stream
    (hReceived : ReceivedAs rule hand start bytes receiver)
    (hRunning : receiver.running = true) :
    rule.verdict receiver.stream = .incomplete := by
  have hVerdict := rule.framing.verdict_rest bytes
  rw [← hReceived.stream_eq hRunning, ← hReceived.running_eq,
    if_pos hRunning] at hVerdict
  exact hVerdict

/- It has room for the next read. -/
theorem length_lt
    (hReceived : ReceivedAs rule hand start bytes receiver)
    (hRunning : receiver.running = true) :
    receiver.stream.length < skwH4StreamCapacity :=
  rule.length_lt_of_verdict (hReceived.verdict_stream hRunning)

end ReceivedAs

/- The bytes a reply brings. -/
def ReadReply.bytes : ReadReply → List UInt8
| .data piece => piece
| .again => []
| .closed => []

/- A read of an open descriptor feeds its bytes. -/
theorem ReceivedAs.readTurn
    (hHand : ∀ done frame,
      rule.Admissible frame → (hand done frame).2 = true)
    {start : σ}
    {bytes : List UInt8}
    {receiver : Receiver σ}
    (hReceived : ReceivedAs rule hand start bytes receiver)
    {reply : ReadReply}
    (hOpen : reply ≠ .closed) :
    ReceivedAs rule hand start (bytes ++ reply.bytes)
      (readTurn rule hand receiver reply) := by
  have hRoom :
      receiver.running = true →
      skwH4StreamCapacity - receiver.stream.length ≠ 0 := by
    intro hRunning
    have hLength := hReceived.length_lt hRunning
    omega
  rcases hReceived with ⟨frames, hDone, hFed⟩
  rcases receiver with ⟨stream, done, running⟩
  have hNext := hFed.feed _ reply.bytes
  cases running with
  | false => exact ⟨frames, hDone, hNext⟩
  | true =>
      have hCapacity := hRoom rfl
      simp only at hCapacity hDone
      cases reply with
      | closed => exact absurd rfl hOpen
      | again =>
          refine ⟨frames, ?_, ?_⟩ <;>
            simpa [MicaBoards.Bluetooth.readTurn, hCapacity,
              ReadReply.bytes]
      | data piece =>
          have hTurn :
              MicaBoards.Bluetooth.readTurn rule hand
                  ⟨stream, done, true⟩ (.data piece) =
                decodeLoop rule hand
                  ⟨stream ++ piece, done, true⟩ := by
            simp [MicaBoards.Bluetooth.readTurn, hCapacity]
          rw [hTurn, decodeLoop_eq hHand]
          refine ⟨_, ?_, hNext⟩
          simp only [hDone, handAll, List.foldl_append]
          rfl

end Loop

------------------------------------------------------------
-- Channels
------------------------------------------------------------

/- What one `poll` reports for a channel of the controller. -/
structure ChannelEvent where
  /- POLLNVAL -/
  invalid : Bool
  /- POLLIN, with the reply of the read it leads to -/
  readable : Option ReadReply
  /- POLLERR, POLLHUP or POLLRDHUP -/
  hangup : Bool
deriving DecidableEq, Repr

namespace ChannelEvent

/- The bytes an event of the channel brings. -/
def bytes (event : ChannelEvent) : List UInt8 :=
  match event.readable with
  | none => []
  | some reply => reply.bytes

/- Events of a channel that stays open. -/
def KeepsOpen (event : ChannelEvent) : Prop :=
  event.invalid = false ∧ event.hangup = false ∧
    event.readable ≠ some .closed

end ChannelEvent

/- The bytes of a channel, in order. -/
def channelBytes (events : List ChannelEvent) : List UInt8 :=
  (events.map ChannelEvent.bytes).flatten

section Channel

variable {σ : Type}

variable (rule : FrameRule)

variable (hand : σ → List UInt8 → σ × Bool)

/- The check for POLLERR and POLLHUP after the read. -/
def channelHangup
    (event : ChannelEvent)
    (receiver : Receiver σ) : Receiver σ :=
  if receiver.running = false then receiver
  else if event.hangup then { receiver with running := false }
  else receiver

/-
  The handling of a channel's events, from POLLIN on. After
  EINTR or EAGAIN the loop continues with the next poll.
-/
def channelTurn
    (receiver : Receiver σ)
    (event : ChannelEvent) : Receiver σ :=
  match event.readable with
  | none => channelHangup event receiver
  | some reply =>
      let next := readTurn rule hand receiver reply
      if reply = .again then next
      else channelHangup event next

variable {rule hand}

/- An event of an open channel feeds its bytes. -/
theorem ReceivedAs.channelTurn
    (hHand : ∀ done frame,
      rule.Admissible frame → (hand done frame).2 = true)
    {start : σ}
    {bytes : List UInt8}
    {receiver : Receiver σ}
    (hReceived : ReceivedAs rule hand start bytes receiver)
    {event : ChannelEvent}
    (hOpen : event.KeepsOpen) :
    ReceivedAs rule hand start (bytes ++ event.bytes)
      (channelTurn rule hand receiver event) := by
  rcases event with ⟨invalid, readable, hangup⟩
  rcases hOpen with ⟨hInvalid, hHangup, hClosed⟩
  simp only at hInvalid hHangup hClosed
  subst hHangup
  have hStays :
      ∀ next : Receiver σ,
        channelHangup ⟨invalid, readable, false⟩ next = next := by
    intro next
    simp [channelHangup]
  cases readable with
  | none =>
      simpa [MicaBoards.Bluetooth.channelTurn, hStays,
        ChannelEvent.bytes] using hReceived
  | some reply =>
      have hReply : reply ≠ .closed := by
        rintro rfl
        exact hClosed rfl
      simpa [MicaBoards.Bluetooth.channelTurn, hStays,
        ChannelEvent.bytes] using
          hReceived.readTurn hHand hReply

/- A receiver that has stopped stays as it is. -/
theorem channelTurn_of_stopped
    {receiver : Receiver σ}
    (hStopped : receiver.running = false)
    (event : ChannelEvent) :
    channelTurn rule hand receiver event = receiver := by
  simp [channelTurn, channelHangup, readTurn, hStopped]
  split <;> rfl

/- What a read preserves, an event preserves. -/
theorem channelTurn_invariant
    {P : σ → Prop}
    (hHand : ∀ done frame,
      rule.Admissible frame → P done → P (hand done frame).1)
    (receiver : Receiver σ)
    (event : ChannelEvent)
    (hDone : P receiver.done) :
    P (channelTurn rule hand receiver event).done := by
  have hHangup :
      ∀ next : Receiver σ,
        (channelHangup event next).done = next.done := by
    intro next
    unfold channelHangup
    split_ifs <;> rfl
  unfold channelTurn
  cases event.readable with
  | none =>
      simp only
      rwa [hHangup]
  | some reply =>
      have hNext :=
        readTurn_invariant hHand receiver reply hDone
      simp only
      split_ifs
      · exact hNext
      · rwa [hHangup]

end Channel

end Bluetooth

end MicaBoards
