import MicaBoards.Bluetooth.VendorTransport
import MicaBoards.Foundations.Schedule
import Mathlib.Logic.Function.Basic

/-
  The threads that share the host socket
  (`boards/s905x5m/userland/skwbt/src/scom_vendor.c`). Each
  port has a `scomm_vendor_recv_scomm_thread`, and all send to
  the socket of port 0, one at a time, under
  `write2host_lock`. A step is one access to what they share;
  what a thread does by itself goes with it.

  Key definitions include:
    * `scommVendorFailTransport`
    * `readerStep`
    * `hostStep`
-/

------------------------------------------------------------
-- Threads
------------------------------------------------------------

namespace MicaBoards

namespace Bluetooth

/- The accesses of `scomm_vendor_fail_transport`. -/
inductive FailOp (ι : Type) where
/- `driver_state` becomes false -/
| driverState (port : ι)
/- `thread_running` becomes false -/
| threadRunning (port : ι)
/- `shutdown` of `uart_fd[1]` -/
| shutdown (port : ι)
deriving DecidableEq, Repr

/- Where a `scomm_vendor_recv_scomm_thread` is. -/
inductive ReaderPc (ι : Type) where
/- at the condition of its loop -/
| loop
/- at `poll`, and the `read` it leads to -/
| poll
/- at the condition of the loop over its stream -/
| decode
/- behind that loop -/
| decoded
/- in `scomm_vendor_send_to_host`, at the lock -/
| lock (frame : List UInt8)
/- in `write_transport`, and when it returns at the unlock -/
| write (frame : List UInt8) (write : WriteState)
/-
  behind the unlock, at the check of port 0, when the write
  has failed after so many bytes
-/
| unsent (written : Nat)
/- in `scomm_vendor_fail_transport(0)` after that -/
| failHost (written : Nat) (ops : List (FailOp ι))
/- at the check of its own port after that -/
| unsentOwn
/- in `scomm_vendor_fail_transport` for its own port -/
| failOwn (ops : List (FailOp ι))
/- it has returned -/
| exited
deriving DecidableEq, Repr

/- A thread: its stream, and the revents of its last poll. -/
structure Reader (ι : Type) where
  stream : List UInt8
  hangup : Bool
  pc : ReaderPc ι
deriving DecidableEq, Repr

/- How one `poll` of a thread ends. -/
inductive PortPoll where
/- EINTR -/
| interrupted
/- another error -/
| failed
/- with events of `signal_fd[1]`, and of the port -/
| events (signal : Bool) (event : ChannelEvent)
deriving DecidableEq, Repr

/-
  How the next system call of a thread would end: its poll,
  its send, with the room the socket has, or the poll for
  POLLOUT.
-/
structure ReaderAnswer where
  port : PortPoll
  send : SendReply
  poll : PollReply
deriving DecidableEq, Repr

/-
  The threads and what they share. Kept of the past are the
  bytes each has read, the frames whose write has returned 0,
  and the bytes on the host socket with the ports they are of.
-/
structure HostState (ι : Type) where
  readers : ι → Reader ι
  driverState : ι → Bool
  running : ι → Bool
  shut : ι → Bool
  lock : Option ι
  received : ι → List UInt8
  sent : List (ι × List UInt8)
  delivered : List (ι × UInt8)

------------------------------------------------------------
-- Steps
------------------------------------------------------------

section Threads

variable {ι : Type}

variable [DecidableEq ι]

/- BT_COM_PORT_CMDEVT, port 0 -/
variable (cmdevt : ι)

/- `scomm_vendor_fail_transport` -/
def scommVendorFailTransport
    (failedPort : ι) : List (FailOp ι) :=
  [.driverState failedPort, .threadRunning failedPort,
      .shutdown failedPort] ++
    if failedPort = cmdevt then []
    else
      [.driverState cmdevt, .threadRunning cmdevt,
        .shutdown cmdevt]

namespace HostState

variable (state : HostState ι)

/- A thread goes on. -/
def setReader (i : ι) (reader : Reader ι) : HostState ι :=
  { state with
    readers := Function.update state.readers i reader }

def goto (i : ι) (pc : ReaderPc ι) : HostState ι :=
  state.setReader i { state.readers i with pc := pc }

/- A thread has read some bytes. -/
def receive (i : ι) (piece : List UInt8) : HostState ι :=
  { state with
    received :=
      Function.update state.received i
        (state.received i ++ piece) }

/- One access of `scomm_vendor_fail_transport`. -/
def perform : FailOp ι → HostState ι
| .driverState port =>
    { state with
      driverState :=
        Function.update state.driverState port false }
| .threadRunning port =>
    { state with
      running := Function.update state.running port false }
| .shutdown port =>
    { state with shut := Function.update state.shut port true }

/- `send` of so many bytes to the host socket. -/
def sendReply
    (length : Nat)
    (reply : SendReply) : SendReply :=
  if state.shut cmdevt then .failed
  else
    match reply with
    | .sent 0 => .zero
    | .sent count => .sent (min count length)
    | .interrupted => .interrupted
    | .again => .again
    | .zero => .zero
    | .failed => .failed

/- One step of `write_transport` on the host socket. -/
def nextWrite
    (length : Nat)
    (write : WriteState)
    (answer : ReaderAnswer) : WriteState :=
  writeTransportStep length write
    { running := state.running cmdevt
      send :=
        state.sendReply cmdevt (length - write.written)
          answer.send
      poll := answer.poll }

/- What a thread sends by it. -/
def stepWrite
    (i : ι)
    (frame : List UInt8)
    (write : WriteState)
    (answer : ReaderAnswer) : HostState ι :=
  let next := state.nextWrite cmdevt frame.length write answer
  let bytes :=
    (frame.drop write.written).take
      (next.written - write.written)
  { state.goto i (.write frame next) with
    delivered := state.delivered ++ bytes.map (Prod.mk i) }

end HostState

/-
  One step of `scomm_vendor_recv_scomm_thread`. The host
  socket stays open, and a reader whose own transport has
  failed finds `thread_running` false and leaves its loop.
-/
def readerStep
    (state : HostState ι)
    (i : ι)
    (answer : ReaderAnswer) : HostState ι :=
  let reader := state.readers i
  let failTransport :=
    state.goto i
      (.failOwn (scommVendorFailTransport cmdevt i))
  match reader.pc with
  | .loop =>
      if state.running i then state.goto i .poll
      else state.goto i .exited
  | .poll =>
      match answer.port with
      | .interrupted =>
          if state.running i then state
          else state.goto i .exited
      | .failed =>
          if state.running i then failTransport
          else state.goto i .exited
      | .events signal event =>
          if signal = true ∧ state.running i = false then
            state.goto i .exited
          else
            let hangup := event.invalid || event.hangup
            match event.readable with
            | none =>
                if hangup then failTransport
                else state.goto i .loop
            | some reply =>
                if skwH4StreamCapacity - reader.stream.length =
                    0 then
                  -- "controller frame exceeds"
                  failTransport
                else
                  match reply with
                  | .again => state.goto i .loop
                  | .closed => failTransport
                  | .data piece =>
                      (state.receive i piece).setReader i
                        { stream := reader.stream ++ piece
                          hangup := hangup
                          pc := .decode }
  | .decode =>
      if reader.stream = [] then
        state.goto i .decoded
      else
        let status := (skwH4Decode reader.stream).1
        let decoded := (skwH4Decode reader.stream).2
        let frame := reader.stream.take decoded.frameSize
        if status = .invalid ∨
            scommRule.refuses decoded = true then
          failTransport
        else if status = .incomplete then
          state.goto i .decoded
        else if isLog frame then
          -- to the log file
          state.setReader i
            { reader with
              stream := reader.stream.drop decoded.frameSize }
        else
          state.goto i (.lock frame)
  | .decoded =>
      if state.running i = false then state.goto i .exited
      else if reader.hangup then failTransport
      else state.goto i .loop
  | .lock frame =>
      match state.lock with
      | none =>
          { state.goto i (.write frame .start) with
            lock := some i }
      | some _ => state
  | .write frame write =>
      match write.phase with
      | .returned true =>
          -- the unlock, and `skw_h4_stream_consume`
          { state.setReader i
              { reader with
                stream := reader.stream.drop frame.length
                pc := .decode } with
            lock := none
            sent := state.sent ++ [(i, frame)] }
      | .returned false =>
          { state.goto i (.unsent write.written) with
            lock := none }
      | _ => state.stepWrite cmdevt i frame write answer
  | .unsent written =>
      if state.running cmdevt then
        state.goto i
          (.failHost written
            (scommVendorFailTransport cmdevt cmdevt))
      else
        state.goto i .unsentOwn
  | .failHost written ops =>
      match ops with
      | [] => state.goto i .unsentOwn
      | op :: rest =>
          (state.perform op).goto i (.failHost written rest)
  | .unsentOwn =>
      if state.running i then failTransport
      else state.goto i .exited
  | .failOwn ops =>
      match ops with
      | [] => state.goto i .exited
      | op :: rest => (state.perform op).goto i (.failOwn rest)
  | .exited => state

/- Who takes the next step. -/
inductive HostAction (ι : Type) where
/- a thread of a port -/
| reader (i : ι) (answer : ReaderAnswer)
/-
  the thread of the host socket, or `scomm_vendor_close`; they
  shut a port's socket down when they have stopped the port
-/
| other (op : FailOp ι)
deriving DecidableEq, Repr

/- One step of the library. -/
def hostStep
    (state : HostState ι)
    (action : HostAction ι) : HostState ι :=
  match action with
  | .reader i answer => readerStep cmdevt state i answer
  | .other (.shutdown port) =>
      if state.running port then state
      else state.perform (.shutdown port)
  | .other op => state.perform op

/- The threads of the ports that run, before their first step. -/
def HostState.start (running : ι → Bool) : HostState ι where
  readers := fun _ => ⟨[], false, .loop⟩
  driverState := fun _ => true
  running := running
  shut := fun _ => false
  lock := none
  received := fun _ => []
  sent := []
  delivered := []

end Threads

end Bluetooth

end MicaBoards
