import MicaBoards.Bluetooth.Bridge

/-
  What the bridge writes to the kernel does not depend on how
  the controller's stream is cut into reads.

  Main declarations:
    * `HeldPrefix` and `HalfHeader`
    * `receivedAs_chipToKernelRun`
    * `chipToKernel_framing`
-/

------------------------------------------------------------
-- The Rule Of The Bridge
------------------------------------------------------------

namespace MicaBoards

namespace Bluetooth

section Limits

variable (buffers : ControllerBuffers)

/- The limit of a type but the log's is one of the kernel. -/
theorem controllerFrameLimit_le
    {type : UInt8}
    (hLog : type ≠ skwH4LogPkt) :
    controllerFrameLimit buffers type ≤
      skwH4KernelMaxFrame := by
  have hAcl := buffers.acl_le
  have hSco := buffers.sco_le
  have hKernel : skwH4KernelMaxFrame = 1028 := rfl
  have hScoMax : skwH4ScoMaxFrame = 259 := rfl
  have hEvent : skwH4EventMaxFrame = 258 := rfl
  have hIso : skwH4IsoMaxFrame = 256 := rfl
  unfold controllerFrameLimit
  split_ifs <;> omega

/- The rule, without the kernel's own limit. -/
theorem refuses_controllerRule_iff
    (frame : SkwH4Frame) :
    (controllerRule buffers).refuses frame = true ↔
      controllerFrameLimit buffers frame.type = 0 ∨
        (frame.frameSize ≠ 0 ∧
          controllerFrameLimit buffers frame.type <
            frame.frameSize) := by
  simp only [controllerRule, decide_eq_true_eq]
  split_ifs with hLog
  · simp
  · have hLimit := controllerFrameLimit_le buffers hLog
    simp only [frameWithinLimit, decide_eq_false_iff_not]
    omega

/- What the rule takes. -/
theorem not_refuses_controllerRule_iff
    (frame : SkwH4Frame) :
    (controllerRule buffers).refuses frame = false ↔
      controllerFrameLimit buffers frame.type ≠ 0 ∧
        frame.frameSize ≤
          controllerFrameLimit buffers frame.type := by
  rw [Bool.eq_false_iff, ne_eq, refuses_controllerRule_iff]
  omega

------------------------------------------------------------
-- What The Stream Holds
------------------------------------------------------------

/- Bytes that an admissible frame begins with. -/
def HeldPrefix (held : List UInt8) : Prop :=
  ∃ rest,
    rest ≠ [] ∧
      (controllerRule buffers).Admissible (held ++ rest)

/-
  A data header without its last byte, whose length is over
  the limit by its low byte alone.
-/
def HalfHeader (held : List UInt8) : Prop :=
  ∃ type rest,
    held = type :: rest ∧
      held.length = 4 ∧
      (type = skwH4AclPkt ∨ type = skwH4IsoPkt) ∧
      controllerFrameLimit buffers type < 5 + byteAt held 3

/- A byte past the end is zero. -/
theorem byteAt_append_zeros
    {xs : List UInt8}
    {count i : Nat}
    (hLength : xs.length ≤ i) :
    byteAt (xs ++ List.replicate count 0) i = 0 := by
  have hZero :
      (xs ++ List.replicate count (0 : UInt8)).getD i 0 = 0 := by
    rw [List.getD_append_right _ _ _ _ hLength]
    by_cases hCount : i - xs.length < count
    · simp [List.getD_eq_getElem?_getD, hCount]
    · simp [List.getD_eq_getElem?_getD, hCount]
  rw [byteAt, hZero]
  rfl

/-
  Bytes that are completed to a header whose frame is taken
  begin an admissible frame.
-/
theorem heldPrefix_of_header
    {type : UInt8}
    {rest : List UInt8}
    {headerSize payloadSize : Nat}
    (hType : skwH4HeaderSize type = some headerSize)
    (hShort : rest.length + 1 < headerSize)
    (hPayload :
      skwH4PayloadSize type
          (type :: rest ++
            List.replicate (headerSize - (rest.length + 1)) 0) =
        some payloadSize)
    (hCapacity :
      headerSize + payloadSize ≤ skwH4StreamCapacity)
    (hLimit :
      headerSize + payloadSize ≤
        controllerFrameLimit buffers type) :
    HeldPrefix buffers (type :: rest) := by
  have hLength :
      (rest ++
          List.replicate (headerSize - (rest.length + 1))
            (0 : UInt8)).length + 1 =
        headerSize := by
    rw [List.length_append, List.length_replicate]
    omega
  have hPositive := (skwH4HeaderSize_bounds hType).1
  have hTaken :
      (controllerRule buffers).refuses
          ⟨type, headerSize, payloadSize,
            headerSize + payloadSize⟩ =
        false := by
    rw [not_refuses_controllerRule_iff]
    simp only
    omega
  have hFill :=
    (controllerRule buffers).admissible_fill hType
      (Nat.le_of_eq hLength.symm) hPayload hCapacity
      (by omega) hTaken
  rw [List.cons_append, List.append_assoc] at hFill
  refine ⟨_, ?_, hFill⟩
  simp only [ne_eq, List.append_eq_nil_iff,
    List.replicate_eq_nil_iff, not_and]
  omega

/-
  A data header that lacks its last byte is completed by a
  zero, unless its length is over the limit already.
-/
theorem held_of_dataHeader
    {type : UInt8}
    {rest : List UInt8}
    (hData : type = skwH4AclPkt ∨ type = skwH4IsoPkt)
    (hShort : rest.length + 1 < 5)
    (hLimit : 5 ≤ controllerFrameLimit buffers type) :
    HeldPrefix buffers (type :: rest) ∨
      HalfHeader buffers (type :: rest) := by
  have hCapacity : skwH4StreamCapacity = 4096 := rfl
  have hKernel : skwH4KernelMaxFrame = 1028 := rfl
  have hFilled :
      ∃ filled,
        filled =
          type :: rest ++ List.replicate (5 - (rest.length + 1)) 0 :=
    ⟨_, rfl⟩
  rcases hFilled with ⟨filled, hFilled⟩
  have hLast : byteAt filled 4 = 0 := by
    rw [hFilled]
    exact byteAt_append_zeros (by rw [List.length_cons]; omega)
  have hByte : byteAt filled 3 < 256 :=
    UInt8.toNat_lt (filled.getD 3 0)
  have hPayload :
      skwH4PayloadSize type filled = some (byteAt filled 3) := by
    rcases hData with rfl | rfl
    · simp [skwH4PayloadSize, skwH4CommandPkt, skwH4AclPkt,
        skwH4ScoPkt, skwH4EventPkt, hLast]
    · have hFlags : ¬ byteAt filled 3 / 16384 = 3 := by omega
      have hMask : byteAt filled 3 % 16384 = byteAt filled 3 := by
        omega
      simp [skwH4PayloadSize, skwH4CommandPkt, skwH4AclPkt,
        skwH4ScoPkt, skwH4EventPkt, skwH4IsoPkt, hLast, hFlags,
        hMask]
  have hType : skwH4HeaderSize type = some 5 := by
    rcases hData with rfl | rfl <;> rfl
  have hLog : type ≠ skwH4LogPkt := by
    rcases hData with rfl | rfl <;> decide
  have hMax := controllerFrameLimit_le buffers hLog
  by_cases hOver :
      controllerFrameLimit buffers type < 5 + byteAt filled 3
  · -- only the low byte of the length can be over the limit
    have hThere : ¬ rest.length + 1 ≤ 3 := by
      intro hMissing
      have hZero : byteAt filled 3 = 0 := by
        rw [hFilled]
        exact byteAt_append_zeros hMissing
      omega
    have hKept : byteAt filled 3 = byteAt (type :: rest) 3 := by
      rw [hFilled]
      exact byteAt_append _ (by rw [List.length_cons]; omega)
    rw [hKept] at hOver
    refine Or.inr ⟨type, rest, rfl, ?_, hData, hOver⟩
    rw [List.length_cons]
    omega
  · rw [hFilled] at hPayload hOver
    exact
      Or.inl
        (heldPrefix_of_header buffers hType hShort hPayload
          (by omega) (by omega))

/- The types with a limit. -/
theorem type_of_controllerFrameLimit
    {type : UInt8}
    (hLimit : controllerFrameLimit buffers type ≠ 0) :
    type = skwH4EventPkt ∨ type = skwH4AclPkt ∨
      type = skwH4ScoPkt ∨ type = skwH4IsoPkt ∨
      type = skwH4LogPkt := by
  unfold controllerFrameLimit at hLimit
  split_ifs at hLimit <;> simp_all

/- Part of a header, of a type with a limit. -/
theorem held_of_header
    {type : UInt8}
    {rest : List UInt8}
    {headerSize : Nat}
    (hType : skwH4HeaderSize type = some headerSize)
    (hShort : rest.length + 1 < headerSize)
    (hLimit : controllerFrameLimit buffers type ≠ 0) :
    HeldPrefix buffers (type :: rest) ∨
      HalfHeader buffers (type :: rest) := by
  have hCapacity : skwH4StreamCapacity = 4096 := rfl
  rcases type_of_controllerFrameLimit buffers hLimit with
    rfl | rfl | rfl | rfl | rfl
  · -- an event: the length is the last byte
    cases hType
    have hPayload :=
      @byteAt_append_zeros (skwH4EventPkt :: rest)
        (3 - (rest.length + 1)) 2
        (by rw [List.length_cons]; omega)
    exact
      Or.inl
        (heldPrefix_of_header buffers rfl hShort
          (congrArg some hPayload) (by omega)
          (by decide : 3 + 0 ≤ skwH4EventMaxFrame))
  · cases hType
    have hAcl :
        controllerFrameLimit buffers skwH4AclPkt =
          buffers.aclMtu + 5 :=
      if_pos (Nat.pos_iff_ne_zero.mp buffers.acl_pos)
    exact
      held_of_dataHeader buffers (Or.inl rfl) hShort
        (by omega)
  · -- SCO data: the length is the last byte
    cases hType
    have hPayload :=
      @byteAt_append_zeros (skwH4ScoPkt :: rest)
        (4 - (rest.length + 1)) 3
        (by rw [List.length_cons]; omega)
    have hSco :
        controllerFrameLimit buffers skwH4ScoPkt =
          if buffers.scoMtu ≠ 0 then buffers.scoMtu + 4
          else 0 := rfl
    refine
      Or.inl
        (heldPrefix_of_header buffers rfl hShort
          (congrArg some hPayload) (by omega) ?_)
    split_ifs at hSco <;> omega
  · cases hType
    exact
      held_of_dataHeader buffers (Or.inr rfl) hShort
        (by decide : 5 ≤ skwH4IsoMaxFrame)
  · -- a log: one byte of the length may be there
    cases hType
    have hLast :=
      @byteAt_append_zeros (skwH4LogPkt :: rest)
        (4 - (rest.length + 1)) 3
        (by rw [List.length_cons]; omega)
    have hByte :=
      UInt8.toNat_lt
        ((skwH4LogPkt :: rest ++
          List.replicate (4 - (rest.length + 1)) 0).getD 2 0)
    have hPayload :
        skwH4PayloadSize skwH4LogPkt
            (skwH4LogPkt :: rest ++
              List.replicate (4 - (rest.length + 1)) 0) =
          some
            (byteAt
              (skwH4LogPkt :: rest ++
                List.replicate (4 - (rest.length + 1)) 0) 2) :=
      congrArg some (by rw [hLast]; rfl)
    have hLimit :
        controllerFrameLimit buffers skwH4LogPkt =
          skwH4StreamCapacity := rfl
    refine
      Or.inl
        (heldPrefix_of_header buffers rfl hShort hPayload ?_ ?_)
    all_goals
      unfold byteAt
      omega

/-
  What is kept begins an admissible frame, or is half a
  header.
-/
theorem held_of_incomplete
    {held : List UInt8}
    (hVerdict :
      (controllerRule buffers).verdict held = .incomplete) :
    HeldPrefix buffers held ∨ HalfHeader buffers held := by
  by_cases hHeld : held = []
  · subst hHeld
    refine Or.inl ⟨[skwH4EventPkt, 0, 0], by simp, ?_⟩
    rw [List.nil_append, FrameRule.Admissible]
    apply FrameRule.verdict_eq_complete_iff _ |>.mpr
    simp [skwH4Decode, skwH4HeaderSize, skwH4PayloadSize,
      byteAt, controllerRule, controllerFrameLimit,
      frameWithinLimit, skwH4EventPkt, skwH4CommandPkt,
      skwH4AclPkt, skwH4ScoPkt, skwH4EventMaxFrame,
      skwH4KernelMaxFrame, skwH4StreamCapacity]
  · rcases (FrameRule.verdict_eq_incomplete_iff _).mp hVerdict
      with hNil | ⟨hStatus, hTaken⟩
    · exact absurd hNil hHeld
    have hDecoded := decoded_skwH4Decode hHeld
    rw [hStatus] at hDecoded
    generalize (skwH4Decode held).2 = frame at hDecoded hTaken
    cases hDecoded with
    | header hType hShort =>
        rw [not_refuses_controllerRule_iff] at hTaken
        exact held_of_header buffers hType hShort hTaken.1
    | @sized type rest headerSize payloadSize _ hType hHeader
        hPayload hStatus =>
        split_ifs at hStatus with hLarge hMore
        refine
          Or.inl
            ⟨_, ?_,
              (controllerRule buffers).admissible_fill hType
                hHeader hPayload (Nat.le_of_not_lt hLarge)
                (Nat.le_of_lt hMore) hTaken⟩
        rw [ne_eq, List.replicate_eq_nil_iff]
        omega

------------------------------------------------------------
-- Runs Of The Reader
------------------------------------------------------------

/-
  /dev/vhci takes the frame, after it was interrupted or
  not ready any number of times.
-/
def TakesWhole (replies : List VhciReply) : Prop :=
  ∃ retries rest,
    replies = retries ++ VhciReply.whole :: rest ∧
      ∀ reply ∈ retries,
        reply = .interrupted true ∨ reply = .again true

/- The frame is written. -/
theorem TakesWhole.writeVhciFrame
    {replies : List VhciReply}
    (hReplies : TakesWhole replies) :
    writeVhciFrame replies = true := by
  rcases hReplies with ⟨retries, rest, rfl, hRetries⟩
  induction retries with
  | nil => rfl
  | cons reply retries ih =>
      have hRest :=
        ih fun later hLater =>
          hRetries later (List.mem_cons_of_mem _ hLater)
      rcases hRetries reply (by simp) with rfl | rfl <;>
        simpa [MicaBoards.Bluetooth.writeVhciFrame] using hRest

variable {vhci : Nat → List VhciReply}

/- The frames handed on are those that are no logs. -/
theorem handAll_handToKernel
    (hVhci : ∀ k, writeVhciFrame (vhci k) = true)
    (written frames : List (List UInt8)) :
    handAll (handToKernel vhci) written frames =
      written ++ frames.filter (fun frame => !isLog frame) := by
  induction frames generalizing written with
  | nil => simp
  | cons frame frames ih =>
      rw [handAll_cons, ih]
      cases hLog : isLog frame <;>
        simp [handToKernel, hLog, hVhci]

/- The reader at the end of its events. -/
theorem receivedAs_chipToKernelRun
    (hVhci : ∀ k, writeVhciFrame (vhci k) = true)
    {events : List ChannelEvent}
    (hOpen : ∀ event ∈ events, event.KeepsOpen) :
    ReceivedAs (controllerRule buffers) (handToKernel vhci) []
      (channelBytes events)
      (chipToKernelRun buffers vhci events) := by
  have hHand :
      ∀ written frame,
        (controllerRule buffers).Admissible frame →
        (handToKernel vhci written frame).2 = true := by
    intro written frame _
    unfold handToKernel
    split_ifs with hLog hTaken
    · rfl
    · rfl
    · exact absurd (hVhci _) hTaken
  -- on the events so far: one more feeds its bytes
  induction events using List.reverseRecOn with
  | nil => exact receivedAs_start []
  | append_singleton events event ih =>
      have hBefore :=
        ih fun earlier hEarlier =>
          hOpen earlier (List.mem_append_left _ hEarlier)
      have hEvent := hOpen event (by simp)
      have hAfter := hBefore.channelTurn hHand hEvent
      have hBytes :
          channelBytes (events ++ [event]) =
            channelBytes events ++ event.bytes := by
        simp [channelBytes]
      have hRun :
          chipToKernelRun buffers vhci (events ++ [event]) =
            chipToKernel buffers vhci
              (chipToKernelRun buffers vhci events) event := by
        simp [chipToKernelRun]
      rw [hBytes, hRun, chipToKernel]
      split_ifs with hStopped hInvalid
      · -- a reader that has stopped stays as it is
        rwa [channelTurn_of_stopped hStopped] at hAfter
      · rw [hEvent.1] at hInvalid
        cases hInvalid
      · exact hAfter

/-
  The reader of a channel agrees with decoding the bytes of
  the channel at once, and a running one holds less than its
  stream has room for.
-/
structure FramingCorrect
    (Held : List UInt8 → Prop)
    (bytes : List UInt8)
    (receiver : Receiver (List (List UInt8))) : Prop where
  written :
    receiver.done =
      ((controllerRule buffers).framing.split bytes).frames.filter
        (fun frame => !isLog frame)
  running :
    receiver.running =
      ((controllerRule buffers).framing.split bytes).valid
  held :
    receiver.running = true →
    Held receiver.stream ∧
      receiver.stream.length < skwH4StreamCapacity

/-
  However the stream of a channel is cut, the frames the
  kernel gets are those of the whole stream, without logs, up
  to its first invalid one; the reader stops at that one, and
  otherwise holds the beginning of an admissible frame, or
  half a header.
-/
theorem chipToKernel_framing
    {events : List ChannelEvent}
    (hOpen : ∀ event ∈ events, event.KeepsOpen)
    (hVhci : ∀ k, TakesWhole (vhci k)) :
    FramingCorrect buffers
      (fun held =>
        HeldPrefix buffers held ∨ HalfHeader buffers held)
      (channelBytes events)
      (chipToKernelRun buffers vhci events) := by
  have hTaken := fun k => (hVhci k).writeVhciFrame
  have hReceived :=
    receivedAs_chipToKernelRun buffers hTaken hOpen
  refine ⟨?_, hReceived.running_eq, ?_⟩
  · rw [hReceived.done_eq, handAll_handToKernel hTaken,
      List.nil_append]
  · intro hRunning
    exact
      ⟨held_of_incomplete buffers
          (hReceived.verdict_stream hRunning),
        hReceived.length_lt hRunning⟩

end Limits

/- Buffers of a controller with a small ACL limit. -/
def smallBuffers : ControllerBuffers where
  aclMtu := 27
  scoMtu := 60
  acl_pos := by decide
  acl_le := by decide
  sco_le := by decide

/- A channel that brings one piece. -/
def onePiece (piece : List UInt8) : List ChannelEvent :=
  [⟨false, some (.data piece), false⟩]

/- A piece keeps its channel open. -/
theorem keepsOpen_onePiece
    (piece : List UInt8)
    (event : ChannelEvent)
    (hEvent : event ∈ onePiece piece) :
    event.KeepsOpen := by
  rw [onePiece, List.mem_singleton] at hEvent
  subst hEvent
  exact ⟨rfl, rfl, by simp⟩

/- A write that succeeds once it was interrupted. -/
theorem takesWhole_interrupted :
    TakesWhole [.interrupted true, .again true, .whole] :=
  ⟨[.interrupted true, .again true], [], rfl, by simp⟩

/- An event and ACL data, in reads that cut both headers. -/
def threePieces : List ChannelEvent :=
  onePiece [4, 14] ++
    (onePiece [3, 7, 1, 2, 2, 0] ++ onePiece [0, 1, 0, 9])

theorem chipToKernel_framing_cutHeaders :
    FramingCorrect smallBuffers
      (fun held =>
        HeldPrefix smallBuffers held ∨
          HalfHeader smallBuffers held)
      [4, 14, 3, 7, 1, 2, 2, 0, 0, 1, 0, 9]
      (chipToKernelRun smallBuffers
        (fun _ => [.interrupted true, .again true, .whole])
        threePieces) := by
  have hBytes :
      channelBytes threePieces =
        [4, 14, 3, 7, 1, 2, 2, 0, 0, 1, 0, 9] := by
    decide
  rw [← hBytes]
  refine
    chipToKernel_framing smallBuffers (fun event hEvent => ?_)
      (fun _ => takesWhole_interrupted)
  rcases List.mem_append.mp hEvent with hFirst | hRest
  · exact keepsOpen_onePiece _ event hFirst
  · rcases List.mem_append.mp hRest with hSecond | hThird
    · exact keepsOpen_onePiece _ event hSecond
    · exact keepsOpen_onePiece _ event hThird

/- No ISO frame within its limit has such a length. -/
theorem not_heldPrefix_iso
    (buffers : ControllerBuffers) :
    ¬ HeldPrefix buffers [5, 0, 0, 255] := by
  rintro ⟨rest, hRest, hAdmissible⟩
  cases rest with
  | nil => exact hRest rfl
  | cons last rest =>
      rcases (controllerRule buffers).verdict_eq_complete_iff.mp
          hAdmissible with
        ⟨_, hStatus, hTaken, _⟩
      have hDecoded :=
        @decoded_skwH4Decode ([5, 0, 0, 255] ++ last :: rest)
          (by simp)
      rw [hStatus] at hDecoded
      generalize
        (skwH4Decode ([5, 0, 0, 255] ++ last :: rest)).2 = frame
        at hDecoded hTaken
      cases hDecoded with
      | @sized type tail headerSize payloadSize _ hType hHeader
          hPayload hStatus =>
          have hFive : headerSize = 5 :=
            (Option.some.inj hType).symm
          have hSize :
              (if (255 + 256 * last.toNat) / 16384 = 3 then none
              else some ((255 + 256 * last.toNat) % 16384)) =
                some payloadSize := hPayload
          have hIso : controllerFrameLimit buffers 5 = 256 := rfl
          split_ifs at hSize with hFlags
          cases hSize
          rw [not_refuses_controllerRule_iff] at hTaken
          simp only [hIso] at hTaken
          omega

/-
  A reader that has got four bytes of the header of an ISO
  frame does not hold the beginning of an admissible frame.
-/
theorem not_framingCorrect_halfHeader :
    ¬ ∀ (buffers : ControllerBuffers)
      (vhci : Nat → List VhciReply)
      (events : List ChannelEvent),
      (∀ event ∈ events, event.KeepsOpen) →
      (∀ k, TakesWhole (vhci k)) →
      FramingCorrect buffers (HeldPrefix buffers)
        (channelBytes events)
        (chipToKernelRun buffers vhci events) := by
  intro hClaim
  have hWaits :
      (controllerRule smallBuffers).verdict [5, 0, 0, 255] =
        .incomplete := by decide
  have hCorrect :=
    hClaim smallBuffers
      (fun _ => [.interrupted true, .again true, .whole])
      (onePiece [5, 0, 0, 255])
      (keepsOpen_onePiece [5, 0, 0, 255])
      (fun _ => takesWhole_interrupted)
  have hRun :
      chipToKernelRun smallBuffers
          (fun _ => [.interrupted true, .again true, .whole])
          (onePiece [5, 0, 0, 255]) =
        ⟨[5, 0, 0, 255], [], true⟩ := by
    have hLoop :
        decodeLoop (controllerRule smallBuffers)
            (handToKernel fun _ =>
              [.interrupted true, .again true, .whole])
            ⟨[5, 0, 0, 255], [], true⟩ =
          ⟨[5, 0, 0, 255], [], true⟩ := by
      rw [decodeLoop_of_incomplete hWaits]
    simpa [chipToKernelRun, onePiece, chipToKernel,
      channelTurn, channelHangup, readTurn, Receiver.start,
      skwH4StreamCapacity] using hLoop
  rw [hRun] at hCorrect
  exact not_heldPrefix_iso smallBuffers (hCorrect.held rfl).1

end Bluetooth

end MicaBoards
