import MicaBoards.Bluetooth.Bridge
import MicaBoards.Bluetooth.Process.Commands
import MicaBoards.Bluetooth.VendorTransport
import MicaBoards.Foundations.Schedule

/-
  The process of the bridge
  (`boards/s905x5m/userland/skw_bridge/skw_vhci_bridge.c`):
  `main`, which goes on to be `kernel_to_chip`, the thread of
  `chip_to_kernel`, and signals. They share `running`,
  `runtime_failed` and the pipe of the signal handler. A step
  is one access to what they share or one system call; what a
  thread does by itself goes with it. The reads that empty the
  pipe are one, and the commands of the setup are.

  Key definitions include:
    * `Control`, `Call`, `callStep`
    * `MainPc`, `ReaderPc`, `Bridge`
    * `mainStep`, `readerStep`, `bridgeStep`
-/

------------------------------------------------------------
-- What The Threads Share
------------------------------------------------------------

namespace MicaBoards

namespace Bluetooth

namespace Process

/- The atomics of the bridge, and the pipe of `on_signal`. -/
structure Control where
  running : Bool
  runtimeFailed : Bool
  /- whether the pipe holds bytes -/
  signalled : Bool
deriving DecidableEq, Repr

/- The reads of `consume_signal_request`, up to the empty pipe -/
def Control.drain (control : Control) : Control :=
  { control with signalled := false }

/- The two stores of `request_shutdown`. -/
def Control.fail (control : Control) : Control :=
  { control with runtimeFailed := true }

def Control.stop (control : Control) : Control :=
  { control with running := false }

/- `on_signal` -/
def Control.signal (control : Control) : Control :=
  { control with signalled := true }

------------------------------------------------------------
-- Writes
------------------------------------------------------------

/- How one `poll` in `wait_writable` ends. -/
inductive WaitReply where
/- EINTR -/
| interrupted
/- another error -/
| failed
/- POLLERR, POLLHUP or POLLNVAL, and POLLOUT -/
| events (broken writable : Bool)
deriving DecidableEq, Repr

/- Where a write goes on after it has looked for signals. -/
inductive AfterCheck where
/- at the write -/
| write
/- at the `poll` of `wait_writable` -/
| wait
/- behind `wait_writable`, which has returned -1 -/
| broken
deriving DecidableEq, Repr

/- Where `write_all` or `write_vhci_frame` is. -/
inductive CallPc where
/- at `write` -/
| write
/- at `poll` in `wait_writable` -/
| wait
/- at the reads of `consume_signal_request` -/
| consume (next : AfterCheck)
/- at its `request_shutdown(0)`, when it has read something -/
| request (next : AfterCheck)
/- at `bridge_should_run` -/
| check (next : AfterCheck)
/- it has returned 0 or more, or -1 -/
| returned (ok : Bool)
deriving DecidableEq, Repr

/- `done`, and where the call is. -/
structure Call where
  done : Nat
  pc : CallPc
deriving DecidableEq, Repr

/- `write_all` before its first write -/
def Call.writeAll (length : Nat) : Call :=
  ⟨0, if 0 < length then .write else .returned true⟩

/- `write_vhci_frame` before its first write -/
def Call.writeVhciFrame : Call := ⟨0, .write⟩

/- What `write_all` does when some bytes are taken. -/
def writeAllTook
    (length : Nat)
    (call : Call)
    (count : Nat) : Call :=
  let done := call.done + count
  ⟨done, if done < length then .write else .returned true⟩

/- What `write_vhci_frame` does then. -/
def writeVhciFrameTook
    (length : Nat)
    (_call : Call)
    (count : Nat) : Call :=
  ⟨count, .returned (count = length)⟩

/-
  One step of a write of so many bytes. The two writes differ
  in what they do when bytes are taken; at most what is left
  is.
-/
def callStep
    (took : Nat → Call → Nat → Call)
    (length : Nat)
    (control : Control)
    (call : Call)
    (send : SendReply)
    (wait : WaitReply) : Control × Call :=
  match call.pc with
  | .write =>
      match send with
      | .sent 0 => (control, { call with pc := .returned false })
      | .sent count =>
          (control,
            took length call (min count (length - call.done)))
      | .interrupted =>
          (control, { call with pc := .consume .write })
      | .again => (control, { call with pc := .wait })
      | .zero => (control, { call with pc := .returned false })
      | .failed =>
          (control, { call with pc := .returned false })
  | .wait =>
      match wait with
      | .interrupted =>
          (control, { call with pc := .consume .wait })
      | .failed =>
          (control, { call with pc := .returned false })
      | .events broken writable =>
          let next :=
            if broken then AfterCheck.broken
            else if writable then AfterCheck.write
            else AfterCheck.wait
          if control.signalled then
            (control, { call with pc := .consume next })
          else
            (control, { call with pc := .check next })
  | .consume next =>
      if control.signalled then
        (control.drain, { call with pc := .request next })
      else
        (control, { call with pc := .check next })
  | .request next =>
      (control.stop, { call with pc := .check next })
  | .check next =>
      if control.running = false then
        (control, { call with pc := .returned false })
      else
        match next with
        | .write => (control, { call with pc := .write })
        | .wait => (control, { call with pc := .wait })
        | .broken =>
            (control, { call with pc := .returned false })
  | .returned _ => (control, call)

------------------------------------------------------------
-- The Main Thread
------------------------------------------------------------

/- VENDOR_OPEN_ATTEMPTS -/
def vendorOpenAttempts : Nat := 15

/- CH_MAX -/
def chMax : Nat := 4

/- HCI_VENDOR_PKT -/
def hciVendorPkt : UInt8 := 0xff

/- The revents of /dev/vhci. -/
structure VhciEvents where
  /- POLLNVAL -/
  invalid : Bool
  /- POLLIN -/
  readable : Bool
  /- POLLERR or POLLHUP -/
  hangup : Bool
deriving DecidableEq, Repr

/- How the `poll` of `kernel_to_chip` ends. -/
inductive VhciPoll where
/- EINTR -/
| interrupted
/- another error -/
| failed
/- otherwise; when the time is up there are no events -/
| events (events : VhciEvents)
deriving DecidableEq, Repr

/- How the `poll` between two attempts ends. -/
inductive DelayReply where
/- EINTR -/
| interrupted
/- another error -/
| failed
/- the time is up, or there is a signal -/
| elapsed
deriving DecidableEq, Repr

/- Where the main thread goes on after it has looked for signals. -/
inductive MainLook where
/- at the check after the delay in `open_vendor_channels` -/
| delayCheck (attempt : Nat) (failed : Bool)
/- at `cleanup_vendor_library`, when a command has failed -/
| cleanup
/- at the condition of the loop of `kernel_to_chip` -/
| loop
/- at the check after its `poll` -/
| check (events : VhciEvents)
deriving DecidableEq, Repr

/- Where the main thread is. -/
inductive MainPc where
/- at the reads of `consume_signal_request` -/
| consume (next : MainLook)
/- at its `request_shutdown(0)`, when it has read something -/
| request (next : MainLook)
/- `setup_signal_handling` -/
| signals
/- `init_vendor_library` -/
| bdaddr
| dlopen
| dlsym
| vendorInit
| powerCtrl
/- `open_vendor_channels` -/
| userialOpen (attempt : Nat)
| userialClose (attempt : Nat)
| retry (attempt : Nat)
| delay (attempt : Nat)
| delayCheck (attempt : Nat) (failed : Bool)
/- `init_vendor_library`, after it -/
| channels
| address
| bufferSizes
/- `main`, after it -/
| openVhci
| createReader
/- `kernel_to_chip`, at the condition of its loop -/
| loop
| poll
/- at `bridge_should_run` after it -/
| check (events : VhciEvents)
| read (hangup : Bool)
| write (hangup : Bool) (packet : List UInt8) (call : Call)
/- at `bridge_should_run` when the write has failed -/
| writeFailed
/- at the stores of `request_shutdown(1)`, before `continue`
   or `return` -/
| fail (continues : Bool)
| stop (continues : Bool)
/- `main`, after it -/
| requestShutdown
| join
| closeVhci (failed : Bool)
/- `cleanup_vendor_library` -/
| closeChannels (failed : Bool)
| epilog (failed : Bool)
| dlclose (failed : Bool)
/- `cleanup_signal_handling` -/
| closeSignals (failed : Bool)
| exited (status : Nat)
deriving DecidableEq, Repr

def MainLook.pc : MainLook → MainPc
| .delayCheck attempt failed => .delayCheck attempt failed
| .cleanup => .closeChannels true
| .loop => .loop
| .check events => .check events

/- How the next system call of the main thread would end. -/
structure MainAnswer where
  /- a call that succeeds or fails -/
  ok : Bool
  /- the address file, when it is one line that is read whole -/
  text : Option Bytes
  /- whether a failed command has looked for signals, and how
     many bytes are written of one that is not written whole -/
  seen : Bool
  count : Nat
  /- the descriptors of USERIAL_OPEN: whether those of CH_CMD
     and CH_EVT are set, and how many differ -/
  command : Bool
  event : Bool
  distinct : Nat
  delay : DelayReply
  poll : VhciPoll
  read : ReadReply
  send : SendReply
  wait : WaitReply

------------------------------------------------------------
-- The Reader Thread
------------------------------------------------------------

/- How the `poll` of `chip_to_kernel` ends. -/
inductive ChannelsPoll where
/- EINTR -/
| interrupted
/- another error -/
| failed
/- otherwise, with the events of each descriptor -/
| events (events : List ChannelEvent)
deriving DecidableEq, Repr

/-
  A turn of the loop over the descriptors: the index, whether
  it has POLLERR or POLLHUP, and the events of the next ones.
-/
structure ChannelTurn where
  index : Nat
  hangup : Bool
  later : List ChannelEvent
deriving DecidableEq, Repr

/- Where it goes on after it has looked for signals. -/
inductive ReaderLook where
/- at the condition of its loop -/
| loop
/- at the check after its `poll` -/
| check (events : List ChannelEvent)
deriving DecidableEq, Repr

/- Where the thread of `chip_to_kernel` is. -/
inductive ReaderPc where
/- it has not been created -/
| idle
/- at the check of `nfds` -/
| start
/- at the condition of its loop -/
| loop
| poll
/- at the reads of `consume_signal_request` -/
| consume (next : ReaderLook)
/- at its `request_shutdown(0)`, when it has read something -/
| request (next : ReaderLook)
/- at `bridge_should_run` after the poll -/
| check (events : List ChannelEvent)
/- at the loop over the descriptors, from one on -/
| channels (index : Nat) (events : List ChannelEvent)
/- at the loop over the stream -/
| decode (turn : ChannelTurn)
| write (turn : ChannelTurn) (frame : List UInt8) (call : Call)
/- at `bridge_should_run` when the write has failed -/
| writeFailed (turn : ChannelTurn)
/- at `bridge_should_run` behind that loop -/
| handled (turn : ChannelTurn)
/- at the stores of `request_shutdown(1)`, in a turn or not -/
| fail (turn : Option ChannelTurn)
| stop (turn : Option ChannelTurn)
| exited
deriving DecidableEq, Repr

def ReaderLook.pc : ReaderLook → ReaderPc
| .loop => .loop
| .check events => .check events

/- How the next system call of the thread would end. -/
structure ReaderAnswer where
  poll : ChannelsPoll
  send : SendReply
  wait : WaitReply

------------------------------------------------------------
-- The Process
------------------------------------------------------------

/- What the bridge takes and gives back. -/
inductive ResourceOp where
| openSignals
| closeSignals
| dlopen
| dlclose
| vendorInit
/- BT_VND_OP_EPILOG and `cleanup` -/
| vendorCleanup
/- BT_VND_OP_USERIAL_OPEN and BT_VND_OP_USERIAL_CLOSE -/
| userialOpen (ok : Bool)
| userialClose
/- the commands before /dev/vhci is opened have succeeded -/
| configured
| openVhci
| closeVhci
| createReader
| joinReader
deriving DecidableEq

/-
  The threads, what they share, and the static variables of
  the bridge, with what the controller does during the commands
  of `init_vendor_library`. Kept of the past are the operations
  on its resources, the number of signals, the part of a command
  that was not written whole, what the commands have read, the
  packets that were read from /dev/vhci and those whose write
  has succeeded, the bytes these have put on the vendor channel,
  the bytes read from each descriptor, and the writes /dev/vhci
  has taken, with the descriptors they are from.
-/
structure Bridge where
  control : Control
  main : MainPc
  reader : ReaderPc
  signalFds : Bool
  libHandle : Bool
  vendorInterface : Bool
  vendorInitialized : Bool
  vendorChannelsOpen : Bool
  commandChannel : Bool
  eventChannel : Bool
  nfds : Nat
  vhciFd : Bool
  link : ControllerLink
  localBdaddr : Option BdAddr
  buffers : Option ControllerBuffers
  streams : Nat → List UInt8
  ops : List ResourceOp
  signals : Nat
  cut : List UInt8
  answers : List UInt8
  packets : List (List UInt8)
  forwarded : List (List UInt8)
  socket : List UInt8
  received : Nat → List UInt8
  kernel : List (Nat × List UInt8)

namespace Bridge

variable (bridge : Bridge)

/- The main thread goes on. -/
def goto (pc : MainPc) : Bridge :=
  { bridge with main := pc }

/- The reader thread goes on. -/
def readerGoto (pc : ReaderPc) : Bridge :=
  { bridge with reader := pc }

def perform (op : ResourceOp) : Bridge :=
  { bridge with ops := bridge.ops ++ [op] }

def setControl (control : Control) : Bridge :=
  { bridge with control := control }

/- The main thread looks for signals. -/
def look (next : MainLook) : Bridge :=
  if bridge.control.signalled then
    (bridge.setControl bridge.control.drain).goto (.request next)
  else
    bridge.goto next.pc

/- The reader thread looks for signals. -/
def readerLook (next : ReaderLook) : Bridge :=
  if bridge.control.signalled then
    (bridge.setControl bridge.control.drain).readerGoto
      (.request next)
  else
    bridge.readerGoto next.pc

/- Commands of the setup have been tried. -/
def tries (tried : Tried) : Bridge :=
  { bridge with
    link := tried.link
    cut := tried.cut
    answers := bridge.answers ++ tried.answers }

/- One of them has failed. -/
def refuse (seen : Bool) : Bridge :=
  -- "controller address verification failed", and others
  if seen then bridge.goto (.consume .cleanup)
  else bridge.goto (.closeChannels true)

/- A write by the main thread goes on. -/
def mainWrite
    (hangup : Bool)
    (packet : List UInt8)
    (call : Call)
    (answer : MainAnswer) : Bridge :=
  let next :=
    callStep writeAllTook packet.length bridge.control call
      answer.send answer.wait
  { bridge with
    control := next.1
    main := .write hangup packet next.2
    socket :=
      bridge.socket ++
        (packet.drop call.done).take (next.2.done - call.done) }

/- A write by the reader thread goes on. -/
def readerWrite
    (turn : ChannelTurn)
    (frame : List UInt8)
    (call : Call)
    (answer : ReaderAnswer) : Bridge :=
  let next :=
    callStep writeVhciFrameTook frame.length bridge.control call
      answer.send answer.wait
  { bridge with
    control := next.1
    reader := .write turn frame next.2
    kernel :=
      if call.done < next.2.done then
        bridge.kernel ++ [(turn.index, frame.take next.2.done)]
      else
        bridge.kernel }

/- The main thread has read a packet. -/
def readPacket (packet : List UInt8) : Bridge :=
  { bridge with packets := bridge.packets ++ [packet] }

/- The reader thread has read some bytes. -/
def receive (i : Nat) (piece : List UInt8) : Bridge :=
  { bridge with
    streams :=
      Function.update bridge.streams i (bridge.streams i ++ piece)
    received :=
      Function.update bridge.received i
        (bridge.received i ++ piece) }

/- `skw_h4_stream_consume` -/
def dropFrame (i size : Nat) : Bridge :=
  { bridge with
    streams :=
      Function.update bridge.streams i
        ((bridge.streams i).drop size) }

end Bridge

/- The main thread at a packet from /dev/vhci. -/
def packetStep
    (bridge : Bridge)
    (hangup : Bool)
    (packet : List UInt8) : Bridge :=
  let bridge := bridge.readPacket packet
  if packet.headD 0 = hciVendorPkt then
    -- "not forwarding packet type"
    if hangup then bridge.goto (.fail true)
    else bridge.goto .loop
  else
    match bridge.buffers with
    | none => bridge.goto (.fail false)
    | some buffers =>
        if validateHostFrame buffers packet = false then
          -- "malformed host frame"
          bridge.goto (.fail false)
        else if bridge.commandChannel = false then
          -- "vendor channel not open"
          bridge.goto (.fail false)
        else
          bridge.goto
            (.write hangup packet (.writeAll packet.length))

/- One step of the main thread. -/
def mainStep
    (bridge : Bridge)
    (answer : MainAnswer) : Bridge :=
  match bridge.main with
  | .consume next => bridge.look next
  | .request next =>
      (bridge.setControl bridge.control.stop).goto next.pc
  | .signals =>
      if answer.ok then
        { (bridge.perform .openSignals).goto .bdaddr with
          signalFds := true }
      else
        bridge.goto (.exited 1)
  | .bdaddr =>
      match parseBdaddrText answer.text with
      | none => bridge.goto (.closeChannels true)
      | some addr =>
          { bridge.goto .dlopen with localBdaddr := some addr }
  | .dlopen =>
      if answer.ok then
        { (bridge.perform .dlopen).goto .dlsym with
          libHandle := true }
      else
        bridge.goto (.closeChannels true)
  | .dlsym =>
      if answer.ok then
        { bridge.goto .vendorInit with vendorInterface := true }
      else
        bridge.goto (.closeChannels true)
  | .vendorInit =>
      if answer.ok then
        { (bridge.perform .vendorInit).goto .powerCtrl with
          vendorInitialized := true }
      else
        bridge.goto (.closeChannels true)
  | .powerCtrl => bridge.goto (.userialOpen 1)
  | .userialOpen attempt =>
      if answer.ok then
        { (bridge.perform (.userialOpen true)).goto .channels with
          vendorChannelsOpen := true
          commandChannel := answer.command
          eventChannel := answer.event
          nfds := min answer.distinct chMax }
      else
        { (bridge.perform (.userialOpen false)).goto
            (.userialClose attempt) with
          commandChannel := false
          eventChannel := false
          nfds := 0 }
  | .userialClose attempt =>
      (bridge.perform .userialClose).goto (.retry attempt)
  | .retry attempt =>
      if attempt = vendorOpenAttempts ∨
          bridge.control.running = false then
        bridge.goto (.closeChannels true)
      else
        bridge.goto (.delay attempt)
  | .delay attempt =>
      match answer.delay with
      | .interrupted => bridge.goto (.delayCheck attempt false)
      | .failed => bridge.goto (.delayCheck attempt true)
      | .elapsed =>
          if bridge.control.signalled then
            bridge.goto (.consume (.delayCheck attempt false))
          else
            bridge.goto (.delayCheck attempt false)
  | .delayCheck attempt failed =>
      if bridge.control.running = false ∨ failed = true then
        bridge.goto (.closeChannels true)
      else
        bridge.goto (.userialOpen (attempt + 1))
  | .channels =>
      if bridge.commandChannel = true ∧
          bridge.eventChannel = true then
        bridge.goto .address
      else
        -- "command or event channel missing"
        bridge.goto (.closeChannels true)
  | .address =>
      match bridge.localBdaddr with
      | none => bridge.refuse false
      | some addr =>
          let next :=
            bridge.tries
              (commandsTried bridge.link (addressCommands addr)
                answer.count)
          match
              configureControllerAddressWithTimeout bridge.link
                addr with
          | some _ => next.goto .bufferSizes
          | none => next.refuse answer.seen
  | .bufferSizes =>
      let next :=
        bridge.tries
          (commandsTried bridge.link bufferCommands answer.count)
      match
          controllerCommand bridge.link hciReadBufferSize [] 7 with
      | some (sizes, _) =>
          match readControllerBufferSizes (some sizes) with
          | some buffers =>
              { (next.perform .configured).goto .openVhci with
                buffers := some buffers }
          | none => next.refuse false
      | none => next.refuse answer.seen
  | .openVhci =>
      if answer.ok then
        { (bridge.perform .openVhci).goto .createReader with
          vhciFd := true }
      else
        bridge.goto (.closeChannels true)
  | .createReader =>
      if answer.ok then
        { (bridge.perform .createReader).goto .loop with
          reader := .start }
      else
        bridge.goto (.closeVhci true)
  | .loop =>
      if bridge.control.running then bridge.goto .poll
      else bridge.goto .requestShutdown
  | .poll =>
      match answer.poll with
      | .interrupted => bridge.goto (.consume .loop)
      | .failed => bridge.goto (.fail false)
      | .events events =>
          if bridge.control.signalled then
            bridge.goto (.consume (.check events))
          else
            bridge.goto (.check events)
  | .check events =>
      if bridge.control.running = false then
        bridge.goto .requestShutdown
      else if events.invalid then
        bridge.goto (.fail false)
      else if events.readable = false then
        if events.hangup then bridge.goto (.fail false)
        else bridge.goto .loop
      else
        bridge.goto (.read events.hangup)
  | .read hangup =>
      match answer.read with
      | .again => bridge.goto .loop
      | .closed => bridge.goto (.fail false)
      | .data piece =>
          let packet := piece.take skwH4KernelMaxFrame
          if packet = [] then bridge.goto (.fail false)
          else packetStep bridge hangup packet
  | .write hangup packet call =>
      match call.pc with
      | .returned true =>
          let next :=
            { bridge with
              forwarded := bridge.forwarded ++ [packet] }
          if hangup then next.goto (.fail false)
          else next.goto .loop
      | .returned false => bridge.goto .writeFailed
      | _ => bridge.mainWrite hangup packet call answer
  | .writeFailed =>
      if bridge.control.running then bridge.goto (.fail false)
      else bridge.goto .requestShutdown
  | .fail continues =>
      (bridge.setControl bridge.control.fail).goto
        (.stop continues)
  | .stop continues =>
      (bridge.setControl bridge.control.stop).goto
        (if continues then .loop else .requestShutdown)
  | .requestShutdown =>
      (bridge.setControl bridge.control.stop).goto .join
  | .join =>
      if answer.ok = false then
        -- "cannot join reader thread"
        (bridge.setControl bridge.control.fail).goto
          (.closeVhci false)
      else if bridge.reader = .exited then
        (bridge.perform .joinReader).goto (.closeVhci false)
      else
        bridge
  | .closeVhci failed =>
      { (bridge.perform .closeVhci).goto (.closeChannels failed)
          with
        vhciFd := false }
  | .closeChannels failed =>
      if bridge.vendorInterface = true ∧
          bridge.vendorChannelsOpen = true then
        { (bridge.perform .userialClose).goto (.epilog failed)
            with
          vendorChannelsOpen := false }
      else
        bridge.goto (.epilog failed)
  | .epilog failed =>
      if bridge.vendorInterface = true ∧
          bridge.vendorInitialized = true then
        { (bridge.perform .vendorCleanup).goto (.dlclose failed)
            with
          vendorInitialized := false
          vendorInterface := false }
      else
        { bridge.goto (.dlclose failed) with
          vendorInterface := false }
  | .dlclose failed =>
      if bridge.libHandle then
        { (bridge.perform .dlclose).goto (.closeSignals failed)
            with
          libHandle := false }
      else
        bridge.goto (.closeSignals failed)
  | .closeSignals failed =>
      { (bridge.perform .closeSignals).goto
          (.exited
            (if failed || bridge.control.runtimeFailed then 1
            else 0)) with
        signalFds := false }
  | .exited _ => bridge

/- The reader thread at the events of a descriptor. -/
def channelStep
    (bridge : Bridge)
    (index : Nat)
    (event : ChannelEvent)
    (later : List ChannelEvent) : Bridge :=
  let available :=
    skwH4StreamCapacity - (bridge.streams index).length
  if event.invalid then
    bridge.readerGoto (.fail none)
  else
    match event.readable with
    | none =>
        if event.hangup then bridge.readerGoto (.fail none)
        else bridge.readerGoto (.channels (index + 1) later)
    | some reply =>
        if available = 0 then
          -- "vendor frame exceeds"
          bridge.readerGoto (.fail none)
        else
          match reply with
          | .again =>
              bridge.readerGoto (.channels (index + 1) later)
          | .closed => bridge.readerGoto (.fail none)
          | .data piece =>
              if piece.take available = [] then
                bridge.readerGoto (.fail none)
              else
                (bridge.receive index
                    (piece.take available)).readerGoto
                  (.decode ⟨index, event.hangup, later⟩)

/- Without limits every type is refused. -/
def refuseAll : FrameRule where
  refuses _ := true
  early _ _ hRefuses := hRefuses

/- What the decode loop refuses. -/
def Bridge.rule (bridge : Bridge) : FrameRule :=
  match bridge.buffers with
  | none => refuseAll
  | some buffers => controllerRule buffers

/- The reader thread at a frame of its stream. -/
def decodeStep
    (bridge : Bridge)
    (turn : ChannelTurn) : Bridge :=
  let stream := bridge.streams turn.index
  let status := (skwH4Decode stream).1
  let decoded := (skwH4Decode stream).2
  let frame := stream.take decoded.frameSize
  if stream = [] then
    bridge.readerGoto (.handled turn)
  else if
      status = .invalid ∨ bridge.rule.refuses decoded = true then
    -- "invalid controller frame"
    bridge.readerGoto (.fail (some turn))
  else if status = .incomplete then
    bridge.readerGoto (.handled turn)
  else if isLog frame then
    bridge.dropFrame turn.index decoded.frameSize
  else
    bridge.readerGoto (.write turn frame .writeVhciFrame)

/- One step of the reader thread. -/
def readerStep
    (bridge : Bridge)
    (answer : ReaderAnswer) : Bridge :=
  match bridge.reader with
  | .idle => bridge
  | .start =>
      if bridge.nfds = 0 then
        -- "no vendor channels to read"
        bridge.readerGoto (.fail none)
      else
        bridge.readerGoto .loop
  | .loop =>
      if bridge.control.running then bridge.readerGoto .poll
      else bridge.readerGoto .exited
  | .poll =>
      match answer.poll with
      | .interrupted => bridge.readerGoto (.consume .loop)
      | .failed => bridge.readerGoto (.fail none)
      | .events events =>
          bridge.readerGoto
            (.consume (.check (events.take bridge.nfds)))
  | .consume next => bridge.readerLook next
  | .request next =>
      (bridge.setControl bridge.control.stop).readerGoto next.pc
  | .check events =>
      if bridge.control.running = false then
        bridge.readerGoto .exited
      else
        bridge.readerGoto (.channels 0 events)
  | .channels index events =>
      match events with
      | [] => bridge.readerGoto .loop
      | event :: later => channelStep bridge index event later
  | .decode turn => decodeStep bridge turn
  | .write turn frame call =>
      match call.pc with
      | .returned true =>
          (bridge.dropFrame turn.index frame.length).readerGoto
            (.decode turn)
      | .returned false => bridge.readerGoto (.writeFailed turn)
      | _ => bridge.readerWrite turn frame call answer
  | .writeFailed turn =>
      if bridge.control.running then
        bridge.readerGoto (.fail (some turn))
      else
        bridge.readerGoto (.handled turn)
  | .handled turn =>
      if bridge.control.running = false then
        bridge.readerGoto .loop
      else if turn.hangup then
        bridge.readerGoto (.fail none)
      else
        bridge.readerGoto (.channels (turn.index + 1) turn.later)
  | .fail turn =>
      (bridge.setControl bridge.control.fail).readerGoto
        (.stop turn)
  | .stop turn =>
      (bridge.setControl bridge.control.stop).readerGoto
        (match turn with
        | none => .loop
        | some turn => .handled turn)
  | .exited => bridge

/- What happens next. -/
inductive BridgeAction where
| main (answer : MainAnswer)
| reader (answer : ReaderAnswer)
/- SIGINT or SIGTERM -/
| signal

/-
  One step of the process. A signal reaches `on_signal` while
  that is installed.
-/
def bridgeStep
    (bridge : Bridge)
    (action : BridgeAction) : Bridge :=
  match action with
  | .main answer => mainStep bridge answer
  | .reader answer => readerStep bridge answer
  | .signal =>
      if bridge.signalFds then
        { bridge with
          control := bridge.control.signal
          signals := bridge.signals + 1 }
      else
        bridge

/-
  The process after `reset_shutdown_state`, with the results of
  the writes of the first commands, and what the channel will
  bring meanwhile.
-/
def Bridge.start
    (accepts : List Bool)
    (coming : Channel) : Bridge where
  control := ⟨true, false, false⟩
  main := .signals
  reader := .idle
  signalFds := false
  libHandle := false
  vendorInterface := false
  vendorInitialized := false
  vendorChannelsOpen := false
  commandChannel := false
  eventChannel := false
  nfds := 0
  vhciFd := false
  link := ⟨accepts, [], coming⟩
  localBdaddr := none
  buffers := none
  streams := fun _ => []
  ops := []
  signals := 0
  cut := []
  answers := []
  packets := []
  forwarded := []
  socket := []
  received := fun _ => []
  kernel := []

/- What `main` makes of its arguments, the program's name first -/
def mainArguments (argv : List Bytes) : Option Nat :=
  match argv with
  | [_] => none
  | [_, argument] =>
      if argument = ascii "--version" then some 0
      else
        -- "usage: skw_vhci_bridge [--version]"
        some 2
  | _ => some 2

/-
  The process as it is called: it returns for its arguments, or
  goes on to `reset_shutdown_state`.
-/
def Bridge.called
    (argv : List Bytes)
    (accepts : List Bool)
    (coming : Channel) : Bridge :=
  match mainArguments argv with
  | none => .start accepts coming
  | some status =>
      { Bridge.start accepts coming with main := .exited status }

end Process

end Bluetooth

end MicaBoards
