import MicaBoards.Bluetooth.Receiver

/-
  The vHCI bridge's handling of frames
  (`boards/s905x5m/userland/skw_bridge/skw_vhci_bridge.c`):
  the limits it takes from the controller's answer, the
  check of a host packet, and the reader of one controller
  channel.

  Key definitions include:
    * `readControllerBufferSizes`
    * `validateHostFrame`
    * `writeVhciFrame`
    * `controllerRule`
    * `chipToKernel`
-/

------------------------------------------------------------
-- Limits
------------------------------------------------------------

namespace MicaBoards

namespace Bluetooth

/-
  `controller_acl_mtu` and `controller_sco_mtu`, as
  `read_controller_buffer_sizes` leaves them.
-/
structure ControllerBuffers where
  aclMtu : Nat
  scoMtu : Nat
  acl_pos : 0 < aclMtu
  acl_le : aclMtu ≤ skwH4KernelMaxFrame - 5
  sco_le : scoMtu ≤ skwH4ScoMaxFrame - 4

section Accepted

variable {aclMtu scoMtu : Nat}

/- Sizes that are not refused. -/
theorem aclMtu_pos
    (hAccepted :
      ¬ (aclMtu = 0 ∨ skwH4KernelMaxFrame - 5 < aclMtu ∨
        skwH4ScoMaxFrame - 4 < scoMtu)) :
    0 < aclMtu := by
  omega

theorem aclMtu_le
    (hAccepted :
      ¬ (aclMtu = 0 ∨ skwH4KernelMaxFrame - 5 < aclMtu ∨
        skwH4ScoMaxFrame - 4 < scoMtu)) :
    aclMtu ≤ skwH4KernelMaxFrame - 5 := by
  omega

theorem scoMtu_le
    (hAccepted :
      ¬ (aclMtu = 0 ∨ skwH4KernelMaxFrame - 5 < aclMtu ∨
        skwH4ScoMaxFrame - 4 < scoMtu)) :
    scoMtu ≤ skwH4ScoMaxFrame - 4 := by
  omega

end Accepted

/-
  `read_controller_buffer_sizes_with_timeout` on the return
  parameters of the command, if it has succeeded.
-/
def readControllerBufferSizes
    (answer : Option (List UInt8)) :
    Option ControllerBuffers :=
  match answer with
  | none => none
  | some sizes =>
    if sizes.length < 7 then none
    else
      let aclMtu := byteAt sizes 0 + 256 * byteAt sizes 1
      let scoMtu := byteAt sizes 2
      if hRefused :
          aclMtu = 0 ∨ skwH4KernelMaxFrame - 5 < aclMtu ∨
            skwH4ScoMaxFrame - 4 < scoMtu then
        none
      else
        some
          { aclMtu := aclMtu
            scoMtu := scoMtu
            acl_pos := aclMtu_pos hRefused
            acl_le := aclMtu_le hRefused
            sco_le := scoMtu_le hRefused }

/- All buffers are those of some answer. -/
theorem exists_answer
    (buffers : ControllerBuffers) :
    ∃ answer,
      readControllerBufferSizes (some answer) = some buffers := by
  have hAcl := buffers.acl_le
  have hSco := buffers.sco_le
  have hPositive := buffers.acl_pos
  have hKernel : skwH4KernelMaxFrame = 1028 := rfl
  have hScoMax : skwH4ScoMaxFrame = 259 := rfl
  refine
    ⟨[UInt8.ofNat (buffers.aclMtu % 256),
      UInt8.ofNat (buffers.aclMtu / 256),
      UInt8.ofNat buffers.scoMtu, 0, 0, 0, 0], ?_⟩
  have hMtu :
      buffers.aclMtu % 256 + 256 * (buffers.aclMtu / 256 % 256) =
        buffers.aclMtu := by omega
  have hScoMtu : buffers.scoMtu % 256 = buffers.scoMtu := by
    omega
  have hAccepted :
      buffers.aclMtu ≠ 0 ∧
        buffers.aclMtu ≤ skwH4KernelMaxFrame - 5 ∧
        buffers.scoMtu ≤ skwH4ScoMaxFrame - 4 := by
    omega
  rcases buffers with ⟨aclMtu, scoMtu, _, _, _⟩
  simpa [readControllerBufferSizes, byteAt, hMtu, hScoMtu]
    using hAccepted

section Limits

variable (buffers : ControllerBuffers)

/- `controller_frame_limit` -/
def controllerFrameLimit (type : UInt8) : Nat :=
  if type = skwH4EventPkt then skwH4EventMaxFrame
  else if type = skwH4AclPkt then
    if buffers.aclMtu ≠ 0 then buffers.aclMtu + 5 else 0
  else if type = skwH4ScoPkt then
    if buffers.scoMtu ≠ 0 then buffers.scoMtu + 4 else 0
  else if type = skwH4IsoPkt then skwH4IsoMaxFrame
  else if type = skwH4LogPkt then skwH4StreamCapacity
  else 0

/- `host_frame_limit` -/
def hostFrameLimit (type : UInt8) : Nat :=
  if type = skwH4CommandPkt then skwH4CommandMaxFrame
  else if type = skwH4AclPkt then
    if buffers.aclMtu ≠ 0 then buffers.aclMtu + 5 else 0
  else if type = skwH4ScoPkt then
    if buffers.scoMtu ≠ 0 then buffers.scoMtu + 4 else 0
  else if type = skwH4IsoPkt then skwH4IsoMaxFrame
  else 0

/- `frame_within_limit` -/
def frameWithinLimit
    (frame : SkwH4Frame)
    (limit : Nat) : Bool :=
  0 < limit ∧ frame.frameSize ≤ limit ∧
    frame.frameSize ≤ skwH4KernelMaxFrame

/- `validate_host_frame` -/
def validateHostFrame (buffer : List UInt8) : Bool :=
  let (status, frame) := skwH4Decode buffer
  if status = .complete ∧ frame.type = skwH4IsoPkt ∧
      64 ≤ byteAt buffer 4 then
    false
  else
    status = .complete ∧ frame.frameSize = buffer.length ∧
      frameWithinLimit frame (hostFrameLimit buffers frame.type)

------------------------------------------------------------
-- Chip To Kernel
------------------------------------------------------------

/- How one `write` to /dev/vhci ends. -/
inductive VhciReply where
| whole
| short
| failed
/- EINTR, and whether the bridge should still run -/
| interrupted (running : Bool)
/- EAGAIN, and whether the device became writable -/
| again (writable : Bool)
deriving DecidableEq, Repr

/-
  `write_vhci_frame`, true where it returns 0. Without a
  further reply the call does not return.
-/
def writeVhciFrame : List VhciReply → Bool
| [] => false
| .whole :: _ => true
| .short :: _ => false
| .failed :: _ => false
| .interrupted running :: replies =>
    if running then writeVhciFrame replies else false
| .again writable :: replies =>
    if writable then writeVhciFrame replies else false

/-
  What the decode loop of `chip_to_kernel` refuses: a type
  without a limit, and a frame whose size is known and over
  the limit.
-/
def controllerRule : FrameRule where
  refuses frame :=
    let limit := controllerFrameLimit buffers frame.type
    let sizeValid :=
      if frame.type = skwH4LogPkt then
        decide (frame.frameSize ≤ limit)
      else
        frameWithinLimit frame limit
    limit = 0 ∨ (frame.frameSize ≠ 0 ∧ sizeValid = false)
  early := by
    intro frame later hType hSize hRefuses
    simp only [decide_eq_true_eq] at hRefuses ⊢
    rcases hRefuses with hLimit | ⟨hSized, _⟩
    · exact Or.inl (hType ▸ hLimit)
    · exact absurd hSize hSized

/-
  The replies of /dev/vhci to the frame that is written
  after so many others.
-/
variable (vhci : Nat → List VhciReply)

/- A whole frame of the loop: logs are dropped. -/
def handToKernel
    (written : List (List UInt8))
    (frame : List UInt8) : List (List UInt8) × Bool :=
  if isLog frame then (written, true)
  else if writeVhciFrame (vhci written.length) then
    (written ++ [frame], true)
  else
    (written, false)

/-
  What `chip_to_kernel` does when one of its channels has
  events. The receiver's `done` is the list of the frames
  /dev/vhci has taken, and it runs until the bridge is asked
  to shut down.
-/
def chipToKernel
    (receiver : Receiver (List (List UInt8)))
    (event : ChannelEvent) : Receiver (List (List UInt8)) :=
  if receiver.running = false then
    receiver
  else if event.invalid then
    { receiver with running := false }
  else
    channelTurn (controllerRule buffers) (handToKernel vhci)
      receiver event

/- The reader of a channel over its events. -/
def chipToKernelRun
    (events : List ChannelEvent) :
    Receiver (List (List UInt8)) :=
  events.foldl (chipToKernel buffers vhci) (.start [])

end Limits

end Bluetooth

end MicaBoards
