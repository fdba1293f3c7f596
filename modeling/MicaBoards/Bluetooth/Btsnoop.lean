import MicaBoards.Bluetooth.VendorTransport
import MicaBoards.Foundations.BigEndian

/-
  The capture of the vendor library
  (`boards/s905x5m/userland/skwbt/src/skw_btsnoop.c`), and the
  frames that the transport passes to it.

  A packet is the memory from its first byte on: its frame, and
  what is behind it.

  Key definitions include:
    * `captureLength` and `skwBtsnoopCapture`
    * `Passed`
    * `BtsnoopRecords`
  Main declarations:
    * `capture_agrees_iff`
-/

------------------------------------------------------------
-- The Capture
------------------------------------------------------------

namespace MicaBoards

namespace Bluetooth

/- `length_he`, none for another type. -/
def captureLength (packet : List UInt8) : Option Nat :=
  let type := packet.headD 0
  if type = skwH4CommandPkt then
    some (byteAt packet 3 + 4)
  else if type = skwH4AclPkt ∨ type = skwH4IsoPkt then
    some (256 * byteAt packet 4 + byteAt packet 3 + 5)
  else if type = skwH4ScoPkt then
    some (byteAt packet 3 + 4)
  else if type = skwH4EventPkt ∨ type = skwH4LogPkt then
    some (byteAt packet 2 + 3)
  else
    none

/- `flags`, before its byte order is changed -/
def captureFlags
    (packet : List UInt8)
    (isReceived : Bool) : Nat :=
  let type := packet.headD 0
  if type = skwH4CommandPkt then 2
  else if type = skwH4EventPkt ∨ type = skwH4LogPkt then 3
  else if isReceived then 1
  else 0

/- `skw_btsnoop_timestamp`, as its halves are written -/
def timeBytes (timestamp : UInt64) : List UInt8 :=
  be32 (timestamp.toNat / 4294967296) ++
    be32 (timestamp.toNat % 4294967296)

/-
  `skw_btsnoop_capture`: what it appends to its open file.
  Numbers are written after `htonl`.
-/
def skwBtsnoopCapture
    (packet : List UInt8)
    (isReceived : Bool)
    (timestamp : UInt64) : List UInt8 :=
  match captureLength packet with
  | none => []
  | some length =>
      be32 length ++ be32 length ++
        be32 (captureFlags packet isReceived) ++ be32 0 ++
        timeBytes timestamp ++ packet.take length

------------------------------------------------------------
-- Passed Frames
------------------------------------------------------------

/-
  What the transport passes to the capture: a frame that the
  receiver of the host socket sends to a device, or one that
  the receiver of a port sends to the host.
-/
def Passed (packet : List UInt8) (isReceived : Bool) : Prop :=
  let frame := (skwH4Decode packet).2
  packet ≠ [] ∧ (skwH4Decode packet).1 = .complete ∧
    if isReceived then
      scommRule.refuses frame = false ∧ isLog packet = false
    else
      hostRule.refuses frame = false

/- The length is that of the frame. -/
def CaptureAgrees (packet : List UInt8) : Prop :=
  captureLength packet = some (skwH4Decode packet).2.frameSize

/- ISO data with one of the flags above its length. -/
def isFlaggedIso (packet : List UInt8) : Bool :=
  packet.head? = some skwH4IsoPkt ∧ 64 ≤ byteAt packet 4

/- The frame, without what is behind it. -/
def frameOf (packet : List UInt8) : List UInt8 :=
  packet.take (skwH4Decode packet).2.frameSize

/- A file of records of these packets. -/
inductive BtsnoopRecords :
    List UInt8 → List (List UInt8) → Prop
| done : BtsnoopRecords [] []
| record
    {flags drops time packet file : List UInt8}
    {packets : List (List UInt8)}
    (hFlags : flags.length = 4)
    (hDrops : drops.length = 4)
    (hTime : time.length = 8)
    (hRest : BtsnoopRecords file packets) :
    BtsnoopRecords
      (be32 packet.length ++ be32 packet.length ++ flags ++
        drops ++ time ++ packet ++ file)
      (packet :: packets)

/- No log is passed. -/
theorem Passed.type_ne_log
    {packet : List UInt8}
    {isReceived : Bool}
    (hPassed : Passed packet isReceived) :
    (skwH4Decode packet).2.type ≠ skwH4LogPkt := by
  rcases hPassed with ⟨hData, hComplete, hRule⟩
  have hType := type_skwH4Decode hData
  have hSize := (frameSize_of_complete hData hComplete).1
  intro hLog
  cases isReceived with
  | true =>
      have hNotLog : isLog packet = false := hRule.2
      unfold isLog at hNotLog
      rw [hType, hLog] at hNotLog
      exact absurd hNotLog (by decide)
  | false =>
      have hAllowed := of_decide_eq_false hRule
      apply hAllowed
      refine ⟨by omega, ?_⟩
      unfold hostFrameAllowed
      rw [hLog]
      rfl

/- The length field of ISO data has 14 bits. -/
theorem skwH4PayloadSize_iso (data : List UInt8) :
    skwH4PayloadSize skwH4IsoPkt data =
      if (byteAt data 3 + 256 * byteAt data 4) / 16384 = 3 then
        none
      else
        some ((byteAt data 3 + 256 * byteAt data 4) % 16384) :=
  rfl

/- The lengths differ for flagged ISO data and no other. -/
theorem captureAgrees_iff
    {packet : List UInt8}
    {isReceived : Bool}
    (hPassed : Passed packet isReceived) :
    CaptureAgrees packet ↔ isFlaggedIso packet = false := by
  have hNotLog := hPassed.type_ne_log
  have hData := hPassed.1
  have hHead := type_skwH4Decode hData
  have hDecoded := decoded_skwH4Decode hData
  rw [hPassed.2.1] at hDecoded
  unfold CaptureAgrees isFlaggedIso
  generalize (skwH4Decode packet).2 = frame at *
  cases hDecoded with
  | sized hType hHeader hPayload hStatus =>
      rename_i type rest headerSize payloadSize
      have hFourth : byteAt (type :: rest) 4 < 256 :=
        UInt8.toNat_lt _
      have hThird : byteAt (type :: rest) 3 < 256 :=
        UInt8.toNat_lt _
      unfold skwH4HeaderSize at hType
      split_ifs at hType with hCommand hAcl hSco hEvent hIso
      · subst hCommand
        simp [captureLength, skwH4PayloadSize, skwH4CommandPkt,
          skwH4IsoPkt] at hType hPayload ⊢
        omega
      · subst hAcl
        simp [captureLength, skwH4PayloadSize, skwH4CommandPkt,
          skwH4AclPkt, skwH4ScoPkt, skwH4EventPkt, skwH4IsoPkt]
          at hType hPayload ⊢
        omega
      · subst hSco
        simp [captureLength, skwH4PayloadSize, skwH4CommandPkt,
          skwH4AclPkt, skwH4ScoPkt, skwH4IsoPkt]
          at hType hPayload ⊢
        omega
      · subst hEvent
        simp [captureLength, skwH4PayloadSize, skwH4CommandPkt,
          skwH4AclPkt, skwH4ScoPkt, skwH4EventPkt, skwH4IsoPkt]
          at hType hPayload ⊢
        omega
      · subst hIso
        rw [skwH4PayloadSize_iso] at hPayload
        change some (256 * byteAt (5 :: rest) 4 +
          byteAt (5 :: rest) 3 + 5) = _ ↔ _
        change byteAt (5 :: rest) 4 < 256 at hFourth
        change byteAt (5 :: rest) 3 < 256 at hThird
        have hHeaderSize : 5 = headerSize := Option.some.inj hType
        by_cases hFlags :
            (byteAt (skwH4IsoPkt :: rest) 3 +
              256 * byteAt (skwH4IsoPkt :: rest) 4) / 16384 = 3
        · rw [if_pos hFlags] at hPayload
          cases hPayload
        · rw [if_neg hFlags] at hPayload
          have hSize :
              (byteAt (5 :: rest) 3 +
                256 * byteAt (5 :: rest) 4) % 16384 =
                payloadSize :=
            Option.some.inj hPayload
          have hBit :
              ¬ (byteAt (5 :: rest) 3 +
                256 * byteAt (5 :: rest) 4) / 16384 = 3 :=
            hFlags
          simp [skwH4IsoPkt]
          omega

------------------------------------------------------------
-- The File
------------------------------------------------------------

/- A capture that agrees is a record of the frame. -/
theorem skwBtsnoopCapture_of_agrees
    {packet : List UInt8}
    (hAgrees : CaptureAgrees packet)
    (hWhole :
      (skwH4Decode packet).2.frameSize ≤ packet.length)
    (isReceived : Bool)
    (timestamp : UInt64)
    {file : List UInt8}
    {packets : List (List UInt8)}
    (hRest : BtsnoopRecords file packets) :
    BtsnoopRecords
      (skwBtsnoopCapture packet isReceived timestamp ++ file)
      (frameOf packet :: packets) := by
  have hLength :
      (frameOf packet).length =
        (skwH4Decode packet).2.frameSize :=
    List.length_take_of_le hWhole
  have hCapture :
      skwBtsnoopCapture packet isReceived timestamp =
        be32 (frameOf packet).length ++
          be32 (frameOf packet).length ++
          be32 (captureFlags packet isReceived) ++ be32 0 ++
          timeBytes timestamp ++ frameOf packet := by
    unfold skwBtsnoopCapture
    rw [hAgrees, hLength]
    rfl
  rw [hCapture]
  exact .record rfl rfl rfl hRest

/- A packet that is passed, its direction, and the time. -/
structure CaptureCall where
  packet : List UInt8
  isReceived : Bool
  timestamp : UInt64

/- The records of captures in a row. -/
def captureFile (calls : List CaptureCall) : List UInt8 :=
  calls.flatMap fun call =>
    skwBtsnoopCapture call.packet call.isReceived call.timestamp

/- Captures that agree make a file of records of the frames. -/
theorem btsnoopRecords_captureFile
    {calls : List CaptureCall}
    (hPassed :
      ∀ call ∈ calls, Passed call.packet call.isReceived)
    (hAgrees : ∀ call ∈ calls, CaptureAgrees call.packet) :
    BtsnoopRecords (captureFile calls)
      (calls.map fun call => frameOf call.packet) := by
  induction calls with
  | nil => exact .done
  | cons call calls ih =>
      rcases List.forall_mem_cons.mp hPassed with
        ⟨hFirst, hRest⟩
      rcases List.forall_mem_cons.mp hAgrees with
        ⟨hAgree, hAgrees⟩
      have hSize := frameSize_of_complete hFirst.1 hFirst.2.1
      exact skwBtsnoopCapture_of_agrees hAgree hSize.2.1 _ _
        (ih hRest hAgrees)

/-
  In a run of captures, the capture's length is the decoder's
  for every frame, and the file is one of records of these
  frames, exactly when none is ISO data with a flag above its
  length.
-/
theorem capture_agrees_iff
    (calls : List CaptureCall)
    (hPassed :
      ∀ call ∈ calls, Passed call.packet call.isReceived) :
    ((∀ call ∈ calls, CaptureAgrees call.packet) ∧
        BtsnoopRecords (captureFile calls)
          (calls.map fun call => frameOf call.packet)) ↔
      ∀ call ∈ calls, isFlaggedIso call.packet = false := by
  constructor
  · rintro ⟨hAgrees, _⟩ call hCall
    exact (captureAgrees_iff (hPassed call hCall)).mp
      (hAgrees call hCall)
  · intro hFlags
    have hAgrees : ∀ call ∈ calls, CaptureAgrees call.packet :=
      fun call hCall =>
        (captureAgrees_iff (hPassed call hCall)).mpr
          (hFlags call hCall)
    exact ⟨hAgrees, btsnoopRecords_captureFile hPassed hAgrees⟩

/-
  A command and ACL data from the host, and an event and ISO
  data from the controller.
-/
def mixedCalls : List CaptureCall :=
  [⟨[0x01, 0x03, 0x0c, 0x00], false, 0⟩,
    ⟨[0x02, 0x01, 0x00, 0x03, 0x00, 0x0a, 0x0b, 0x0c], false, 1⟩,
    ⟨[0x04, 0x0e, 0x02, 0x01, 0x05], true, 2⟩,
    ⟨[0x05, 0x00, 0x00, 0x02, 0x00, 0x07, 0x08], true, 3⟩]

theorem capture_agrees_iff_mixed :
    (∀ call ∈ mixedCalls, CaptureAgrees call.packet) ∧
      BtsnoopRecords (captureFile mixedCalls)
        (mixedCalls.map CaptureCall.packet) := by
  have hPassed :
      ∀ call ∈ mixedCalls,
        Passed call.packet call.isReceived := by
    simp only [mixedCalls, List.forall_mem_cons]
    refine ⟨?_, ?_, ?_, ?_, fun _ hNone => ?_⟩
    · exact ⟨by decide, by decide, by decide⟩
    · exact ⟨by decide, by decide, by decide⟩
    · exact ⟨by decide, by decide, by decide, by decide⟩
    · exact ⟨by decide, by decide, by decide, by decide⟩
    · exact absurd hNone List.not_mem_nil
  refine (capture_agrees_iff mixedCalls hPassed).mpr ?_
  simp only [mixedCalls, List.forall_mem_cons]
  exact
    ⟨by decide, by decide, by decide, by decide,
      fun _ hNone => absurd hNone List.not_mem_nil⟩

/- ISO data without payload, and a packet boundary flag. -/
def flaggedIso : List UInt8 :=
  [0x05, 0x00, 0x00, 0x00, 0x40]

theorem not_captureAgrees_flaggedIso :
    ¬ ∀ (packet : List UInt8) (isReceived : Bool),
      Passed packet isReceived → CaptureAgrees packet := by
  intro hAgrees
  have hPassed : Passed flaggedIso true := by
    refine ⟨by decide, by decide, ?_⟩
    exact ⟨by decide, by decide⟩
  have hLength := hAgrees flaggedIso true hPassed
  unfold CaptureAgrees at hLength
  exact absurd hLength (by decide)

end Bluetooth

end MicaBoards
