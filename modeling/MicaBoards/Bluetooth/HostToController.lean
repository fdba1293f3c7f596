import MicaBoards.Bluetooth.Bridge
import MicaBoards.Bluetooth.VendorTransport

/-
  The bridge and the vendor library agree on the stream from
  the host to the controller: the library takes every packet
  the bridge sends, whatever limits the controller has
  answered, and hands it whole to its port.

  Main declarations:
    * `admissible_of_validateHostFrame`
    * `receivedAs_hostSocketRun`
    * `hostToController_agreed`
-/

------------------------------------------------------------
-- The Two Validators
------------------------------------------------------------

namespace MicaBoards

namespace Bluetooth

/-
  What the bridge lets through is a whole frame of the size
  of the packet, and within the limit of its type.
-/
theorem complete_of_validateHostFrame
    {buffers : ControllerBuffers}
    {packet : List UInt8}
    (hPacket : validateHostFrame buffers packet = true) :
    (skwH4Decode packet).1 = .complete ∧
      (skwH4Decode packet).2.frameSize = packet.length ∧
      0 < hostFrameLimit buffers (skwH4Decode packet).2.type ∧
      packet.length ≤
        hostFrameLimit buffers (skwH4Decode packet).2.type := by
  unfold validateHostFrame at hPacket
  split at hPacket
  rename_i status frame hDecode
  split_ifs at hPacket
  simp only [decide_eq_true_eq, frameWithinLimit] at hPacket
  rcases hPacket with ⟨hStatus, hSize, hLimit, hWithin, _⟩
  rw [hDecode]
  exact ⟨hStatus, hSize, hLimit, hSize ▸ hWithin⟩

/- The bridge's limits are within the library's. -/
theorem hostFrameAllowed_of_le
    {buffers : ControllerBuffers}
    {frame : SkwH4Frame}
    (hLimit : 0 < hostFrameLimit buffers frame.type)
    (hSize :
      frame.frameSize ≤ hostFrameLimit buffers frame.type) :
    hostFrameAllowed frame = true := by
  have hAcl := buffers.acl_le
  have hSco := buffers.sco_le
  have hKernel : skwH4KernelMaxFrame = 1028 := rfl
  have hScoMax : skwH4ScoMaxFrame = 259 := rfl
  unfold hostFrameLimit at hLimit hSize
  unfold hostFrameAllowed
  split_ifs at hLimit hSize ⊢ <;>
    first
    | exact absurd hLimit (Nat.lt_irrefl 0)
    | simp only [decide_eq_true_eq]; omega

/- The library takes every packet the bridge sends. -/
theorem admissible_of_validateHostFrame
    {buffers : ControllerBuffers}
    {packet : List UInt8}
    (hPacket : validateHostFrame buffers packet = true) :
    hostRule.Admissible packet := by
  rcases complete_of_validateHostFrame hPacket with
    ⟨hStatus, hSize, hLimit, hWithin⟩
  have hNonempty : packet ≠ [] := by
    rintro rfl
    cases hStatus
  rw [← hSize] at hWithin
  have hAllowed := hostFrameAllowed_of_le hLimit hWithin
  apply hostRule.verdict_eq_complete_iff.mpr
  exact ⟨hNonempty, hStatus, by simp [hostRule, hAllowed], hSize⟩

------------------------------------------------------------
-- Devices
------------------------------------------------------------

/- Every write of a device succeeds. -/
structure DeviceTakes
    (device : Nat → List UInt8 → DeviceReply) : Prop where
  connected : ∀ k packet, (device k packet).connected = true
  takes : ∀ k packet,
    (writeTransport packet.length
      (device k packet).answers).phase = .returned true

variable {sdio : Bool}
variable {device : Nat → List UInt8 → DeviceReply}

/- A packet is handed whole to its port. -/
theorem sendHostFrameToDevice_of_takes
    (hDevice : DeviceTakes device)
    (taken : List (BtComPort × List UInt8))
    (packet : List UInt8) :
    sendHostFrameToDevice sdio device taken packet =
      (taken ++ [(packetPort sdio packet, packet)], true) := by
  have hWritten :=
    whole_writeTransport packet.length
      (device taken.length packet).answers
      (hDevice.takes taken.length packet)
  simp [sendHostFrameToDevice, hWritten,
    hDevice.connected taken.length packet,
    hDevice.takes taken.length packet]

/- Packets in a row are handed on in their order. -/
theorem handAll_sendHostFrameToDevice
    (hDevice : DeviceTakes device)
    (taken : List (BtComPort × List UInt8))
    (packets : List (List UInt8)) :
    handAll (sendHostFrameToDevice sdio device) taken packets =
      taken ++
        packets.map
          (fun packet => (packetPort sdio packet, packet)) := by
  induction packets generalizing taken with
  | nil => simp
  | cons packet packets ih =>
      rw [handAll_cons, sendHostFrameToDevice_of_takes hDevice,
        ih]
      simp

------------------------------------------------------------
-- The Stream
------------------------------------------------------------

/- The bytes of the reads of the host socket. -/
def socketBytes (replies : List ReadReply) : List UInt8 :=
  (replies.map ReadReply.bytes).flatten

/- The receiver of the host socket after its reads. -/
theorem receivedAs_hostSocketRun
    (hDevice : DeviceTakes device)
    {replies : List ReadReply}
    (hOpen : .closed ∉ replies) :
    ReceivedAs hostRule (sendHostFrameToDevice sdio device) []
      (socketBytes replies)
      (hostSocketRun sdio device replies) := by
  have hHand :
      ∀ taken packet,
        hostRule.Admissible packet →
        (sendHostFrameToDevice sdio device taken packet).2 =
          true := by
    intro taken packet _
    rw [sendHostFrameToDevice_of_takes hDevice]
  induction replies using List.reverseRecOn with
  | nil => exact receivedAs_start []
  | append_singleton replies reply ih =>
      rw [List.mem_append, not_or] at hOpen
      have hReply : reply ≠ .closed := by
        rintro rfl
        exact hOpen.2 (by simp)
      have hAfter := (ih hOpen.1).readTurn hHand hReply
      simpa [hostSocketRun, scommVendorRecvRawdata,
        socketBytes] using hAfter

/-
  The receiver has taken the packets whose bytes it has got
  so far, and nothing else: it runs, its stream has room, and
  at the end of the packets it has handed on all of them.
-/
structure HostStreamAgreed
    (sdio : Bool)
    (packets : List (List UInt8))
    (bytes : List UInt8)
    (receiver : Receiver (List (BtComPort × List UInt8))) :
    Prop where
  running : receiver.running = true
  room : receiver.stream.length < skwH4StreamCapacity
  inOrder :
    receiver.done <+:
      packets.map
        (fun packet => (packetPort sdio packet, packet))
  all :
    bytes = packets.flatten →
    receiver.done =
        packets.map
          (fun packet => (packetPort sdio packet, packet)) ∧
      receiver.stream = []

/-
  Whatever part of the bridge's packets has come through the
  socket, and however it was cut, the library has handed on
  the packets that are complete, each to its port.
-/
theorem hostToController_agreed
    {buffers : ControllerBuffers}
    {packets : List (List UInt8)}
    {replies : List ReadReply}
    (hPackets : ∀ packet ∈ packets,
      validateHostFrame buffers packet = true)
    (hOpen : .closed ∉ replies)
    (hCut : socketBytes replies <+: packets.flatten)
    (hDevice : DeviceTakes device) :
    HostStreamAgreed sdio packets (socketBytes replies)
      (hostSocketRun sdio device replies) := by
  have hSplit :
      hostRule.framing.split packets.flatten =
        ⟨packets, [], true⟩ :=
    Framing.split_flatten _ hostRule.verdict_nil
      fun packet hPacket =>
        admissible_of_validateHostFrame (hPackets packet hPacket)
  have hReceived :=
    @receivedAs_hostSocketRun sdio device hDevice replies hOpen
  generalize hostSocketRun sdio device replies = receiver
    at hReceived ⊢
  generalize socketBytes replies = bytes at hReceived hCut ⊢
  rcases hCut with ⟨later, hLater⟩
  rcases hostRule.framing.split_append bytes later with
    ⟨hFrames, hValid, _⟩
  rw [hLater, hSplit] at hFrames hValid
  simp only at hFrames hValid
  -- the bytes so far begin packets that are all valid
  have hOpened :
      (hostRule.framing.split bytes).valid = true := by
    by_contra hInvalid
    rw [if_neg hInvalid] at hValid
    cases hValid
  rw [if_pos hOpened] at hFrames
  have hRunning : receiver.running = true := by
    rw [hReceived.running_eq, hOpened]
  have hDone :
      receiver.done =
        (hostRule.framing.split bytes).frames.map
          (fun packet => (packetPort sdio packet, packet)) := by
    rw [hReceived.done_eq, handAll_sendHostFrameToDevice hDevice,
      List.nil_append]
  refine ⟨hRunning, hReceived.length_lt hRunning, ?_, ?_⟩
  · rw [hDone, hFrames, List.map_append]
    exact List.prefix_append _ _
  · intro hAll
    rw [hAll, hSplit] at hDone
    refine ⟨hDone, ?_⟩
    rw [hReceived.stream_eq hRunning, hAll, hSplit]

/- A device that takes every packet in one write. -/
def readyDevice (_k : Nat) (packet : List UInt8) : DeviceReply :=
  ⟨true, oneWrite packet.length⟩

theorem deviceTakes_readyDevice : DeviceTakes readyDevice where
  connected _ _ := rfl
  takes _ packet := writeTransport_oneWrite packet.length

theorem hostToController_agreed_twoPackets :
    HostStreamAgreed true [[1, 3, 12, 0], [2, 0, 0, 1, 0, 9]]
      (socketBytes
        [.data [1], .again, .data [3, 12, 0, 2, 0],
          .data [0, 1, 0, 9]])
      (hostSocketRun true readyDevice
        [.data [1], .again, .data [3, 12, 0, 2, 0],
          .data [0, 1, 0, 9]]) := by
  have hPackets :
      ∀ packet ∈ [[1, 3, 12, 0], [2, 0, 0, 1, 0, 9]],
        validateHostFrame ⟨27, 60, by decide, by decide, by decide⟩
          packet = true := by
    decide
  exact
    hostToController_agreed hPackets (by simp)
      ⟨[], by simp [socketBytes, ReadReply.bytes]⟩
      deviceTakes_readyDevice

end Bluetooth

end MicaBoards
