import MicaBoards.Bluetooth.Receiver

/-
  The transport of the vendor library
  (`boards/s905x5m/userland/skwbt/src/scom_vendor.c`): the
  write of one frame, the receiver of the host socket, and
  the receiver of one port of the controller.

  Key definitions include:
    * `writeTransportStep` and `writeTransport`
    * `hostRule` and `scommVendorRecvRawdata`
    * `scommRule` and `scommVendorRecvScommThread`
-/

------------------------------------------------------------
-- Writing A Frame
------------------------------------------------------------

namespace MicaBoards

namespace Bluetooth

/- How one `send` or `write` ends. -/
inductive SendReply where
/- a positive count -/
| sent (count : Nat)
/- EINTR -/
| interrupted
/- EAGAIN or EWOULDBLOCK -/
| again
/- zero -/
| zero
/- another error -/
| failed
deriving DecidableEq, Repr

/- How one `poll` for POLLOUT ends. -/
inductive PollReply where
/- EINTR -/
| interrupted
/- a result without POLLERR, POLLHUP and POLLNVAL -/
| ready
/- one of these, or another error -/
| broken
deriving DecidableEq, Repr

/- Where `write_transport` is. -/
inductive WritePhase where
/- at the condition of its loop -/
| test
/- at `send` or `write` -/
| send
/- at `poll` -/
| poll
/- at the condition of the loop around `poll` -/
| repoll
/- at the check of `thread_running` after `poll` -/
| polled (ready : Bool)
/- behind the call, which has returned 0 or -1 -/
| returned (ok : Bool)
deriving DecidableEq, Repr

/- `written`, and where the call is. -/
structure WriteState where
  written : Nat
  phase : WritePhase
deriving DecidableEq, Repr

/-
  What the next step of a call would be told: the value of
  `thread_running`, or the end of its system call.
-/
structure WriteAnswer where
  running : Bool
  send : SendReply
  poll : PollReply
deriving DecidableEq, Repr

/- One step of `write_transport`. -/
def writeTransportStep
    (length : Nat)
    (state : WriteState)
    (answer : WriteAnswer) : WriteState :=
  match state.phase with
  | .test =>
      if state.written < length ∧ answer.running = true then
        { state with phase := .send }
      else
        { state with
          phase := .returned (state.written = length) }
  | .send =>
      match answer.send with
      | .sent count =>
          { written := state.written + count, phase := .test }
      | .interrupted => { state with phase := .test }
      | .again => { state with phase := .poll }
      | .zero => { state with phase := .returned false }
      | .failed => { state with phase := .returned false }
  | .poll =>
      match answer.poll with
      | .interrupted => { state with phase := .repoll }
      | .ready => { state with phase := .polled true }
      | .broken => { state with phase := .polled false }
  | .repoll =>
      if answer.running then { state with phase := .poll }
      else { state with phase := .returned false }
  | .polled ready =>
      if answer.running = false then
        { state with phase := .returned false }
      else if ready then { state with phase := .test }
      else { state with phase := .returned false }
  | .returned _ => state

/- A call before its first step. -/
def WriteState.start : WriteState := ⟨0, .test⟩

/- `write_transport`, as far as the answers lead it. -/
def writeTransport
    (length : Nat)
    (answers : List WriteAnswer) : WriteState :=
  answers.foldl (writeTransportStep length) .start

/- A call that has returned 0 has written everything. -/
def WriteState.Whole
    (length : Nat)
    (state : WriteState) : Prop :=
  state.phase = .returned true → state.written = length

/- Every step keeps that. -/
theorem WriteState.Whole.step
    {length : Nat}
    {state : WriteState}
    (hWhole : state.Whole length)
    (answer : WriteAnswer) :
    (writeTransportStep length state answer).Whole length := by
  rcases state with ⟨written, phase⟩
  cases phase with
  | test =>
      simp only [writeTransportStep]
      split_ifs with hMore
      · simp [Whole]
      · intro hReturned
        simpa using hReturned
  | send =>
      simp only [writeTransportStep]
      cases answer.send <;> simp [Whole]
  | poll =>
      simp only [writeTransportStep]
      cases answer.poll <;> simp [Whole]
  | repoll =>
      simp only [writeTransportStep]
      split_ifs <;> simp [Whole]
  | polled ready =>
      simp only [writeTransportStep]
      split_ifs <;> simp [Whole]
  | returned ok => exact hWhole

/- So every call keeps it. -/
theorem whole_writeTransport
    (length : Nat)
    (answers : List WriteAnswer) :
    (writeTransport length answers).Whole length := by
  have hAll :
      ∀ state : WriteState,
        state.Whole length →
        (answers.foldl (writeTransportStep length) state).Whole
          length := by
    induction answers with
    | nil => exact fun _ hWhole => hWhole
    | cons answer answers ih =>
        intro state hWhole
        rw [List.foldl_cons]
        exact ih _ (hWhole.step answer)
  exact hAll .start (by simp [WriteState.Whole, WriteState.start])

/- Answers to a call whose first write takes everything. -/
def oneWrite (length : Nat) : List WriteAnswer :=
  [⟨true, .again, .ready⟩, ⟨true, .sent length, .ready⟩,
    ⟨true, .again, .ready⟩]

/- The call returns 0. -/
theorem writeTransport_oneWrite
    (length : Nat) :
    (writeTransport length (oneWrite length)).phase =
      .returned true := by
  cases length with
  | zero => rfl
  | succ length =>
      simp [oneWrite, writeTransport, writeTransportStep,
        WriteState.start]

------------------------------------------------------------
-- From The Host Socket
------------------------------------------------------------

/- The ports of `scomm_vnd`. -/
inductive BtComPort where
| cmdevt
| acl
| audio
| iso
deriving DecidableEq, Repr

/- `host_frame_allowed` -/
def hostFrameAllowed (frame : SkwH4Frame) : Bool :=
  if frame.type = skwH4CommandPkt then
    frame.frameSize ≤ skwH4CommandMaxFrame
  else if frame.type = skwH4AclPkt then
    frame.frameSize ≤ skwH4KernelMaxFrame
  else if frame.type = skwH4ScoPkt then
    frame.frameSize ≤ skwH4ScoMaxFrame
  else if frame.type = skwH4IsoPkt then
    frame.frameSize ≤ skwH4IsoMaxFrame
  else
    false

/- `host_frame_port`, by SKWBT_TRANS_TYPE_SDIO -/
def hostFramePort (sdio : Bool) (pktType : UInt8) : BtComPort :=
  if sdio = false then .cmdevt
  else if pktType = skwH4AclPkt then .acl
  else if pktType = skwH4ScoPkt then .audio
  else if pktType = skwH4IsoPkt then .iso
  else .cmdevt

/- What a device does with a frame for it. -/
structure DeviceReply where
  /- `fd` is open, and `driver_state` is set -/
  connected : Bool
  answers : List WriteAnswer
deriving DecidableEq, Repr

/- The port of a host packet, by `buffer[0]`. -/
def packetPort (sdio : Bool) (packet : List UInt8) : BtComPort :=
  hostFramePort sdio (packet.headD 0)

/-
  `send_host_frame_to_device`, for a frame that is sent after
  others: what its device takes of it, and whether the call
  returns 0.
-/
def sendHostFrameToDevice
    (sdio : Bool)
    (device : Nat → List UInt8 → DeviceReply)
    (taken : List (BtComPort × List UInt8))
    (buffer : List UInt8) :
    List (BtComPort × List UInt8) × Bool :=
  let reply := device taken.length buffer
  if reply.connected = false then
    (taken, false)
  else
    let write := writeTransport buffer.length reply.answers
    (taken ++
        [(packetPort sdio buffer, buffer.take write.written)],
      write.phase = .returned true)

/- What the receiver of the host socket refuses. -/
def hostRule : FrameRule where
  refuses frame :=
    frame.frameSize ≠ 0 ∧ hostFrameAllowed frame = false
  early := by
    intro frame later _ hSize hRefuses
    simp [hSize] at hRefuses

/-
  One turn of the loop of `scomm_vendor_recv_rawdata`. The
  receiver's `done` is what the devices have taken, and it
  runs until its transport has failed.
-/
def scommVendorRecvRawdata
    (sdio : Bool)
    (device : Nat → List UInt8 → DeviceReply)
    (receiver : Receiver (List (BtComPort × List UInt8)))
    (reply : ReadReply) :
    Receiver (List (BtComPort × List UInt8)) :=
  readTurn hostRule (sendHostFrameToDevice sdio device)
    receiver reply

/- The receiver of the host socket over its reads. -/
def hostSocketRun
    (sdio : Bool)
    (device : Nat → List UInt8 → DeviceReply)
    (replies : List ReadReply) :
    Receiver (List (BtComPort × List UInt8)) :=
  replies.foldl (scommVendorRecvRawdata sdio device) (.start [])

------------------------------------------------------------
-- From The Controller
------------------------------------------------------------

/- The limits of `scomm_vendor_recv_scomm_thread`. -/
def scommFrameLimit (type : UInt8) : Nat :=
  if type = skwH4EventPkt then skwH4EventMaxFrame
  else if type = skwH4AclPkt then skwH4KernelMaxFrame
  else if type = skwH4ScoPkt then skwH4ScoMaxFrame
  else if type = skwH4IsoPkt then skwH4IsoMaxFrame
  else if type = skwH4LogPkt then skwH4StreamCapacity
  else 0

/- What the receiver of a port refuses. -/
def scommRule : FrameRule where
  refuses frame :=
    scommFrameLimit frame.type = 0 ∨
      (frame.frameSize ≠ 0 ∧
        scommFrameLimit frame.type < frame.frameSize)
  early := by
    intro frame later hType hSize hRefuses
    simp only [decide_eq_true_eq] at hRefuses ⊢
    rcases hRefuses with hLimit | ⟨hSized, _⟩
    · exact Or.inl (hType ▸ hLimit)
    · exact absurd hSize hSized

/-
  A whole frame of the loop: a log goes to the log file, and
  another to the host socket (`scomm_vendor_send_to_host`).
  The answers are those to a frame that is sent after so
  many others; the frames that were sent whole are kept.
-/
def handToHost
    (host : Nat → List UInt8 → List WriteAnswer)
    (sent : List (List UInt8))
    (frame : List UInt8) : List (List UInt8) × Bool :=
  if isLog frame then
    (sent, true)
  else
    let write :=
      writeTransport frame.length (host sent.length frame)
    if write.phase = .returned true then (sent ++ [frame], true)
    else (sent, false)

/-
  What `scomm_vendor_recv_scomm_thread` does when its port
  has events. POLLNVAL is handled as POLLERR is.
-/
def scommVendorRecvScommThread
    (host : Nat → List UInt8 → List WriteAnswer)
    (receiver : Receiver (List (List UInt8)))
    (event : ChannelEvent) : Receiver (List (List UInt8)) :=
  if receiver.running = false then
    receiver
  else
    channelTurn scommRule (handToHost host) receiver
      { event with hangup := event.invalid || event.hangup }

/- The receiver of a port over its events. -/
def scommPortRun
    (host : Nat → List UInt8 → List WriteAnswer)
    (events : List ChannelEvent) :
    Receiver (List (List UInt8)) :=
  events.foldl (scommVendorRecvScommThread host) (.start [])

end Bluetooth

end MicaBoards
