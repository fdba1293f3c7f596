import MicaBoards.Bluetooth.ChipToKernel
import MicaBoards.Bluetooth.VendorTransport

/-
  Where the vendor library and the bridge agree on the stream
  from the controller to the host. The library takes frames
  up to fixed sizes; the bridge takes ACL and SCO frames up
  to the sizes the controller has answered for the other
  direction. They agree exactly on frames within these.

  Main declarations:
    * `Forwarded`
    * `forwarded_iff`
    * `controllerToHost_agreed_iff`
-/

------------------------------------------------------------
-- What The Library Forwards
------------------------------------------------------------

namespace MicaBoards

namespace Bluetooth

/- A frame that a port's receiver sends to the host socket. -/
def Forwarded (frame : List UInt8) : Prop :=
  ∃ host events, frame ∈ (scommPortRun host events).done

/- The frames a receiver has sent are admissible, and no logs. -/
theorem scommPortRun_done
    {host : Nat → List UInt8 → List WriteAnswer}
    (events : List ChannelEvent)
    {frame : List UInt8}
    (hFrame : frame ∈ (scommPortRun host events).done) :
    scommRule.Admissible frame ∧ isLog frame = false := by
  have hHand :
      ∀ sent frame,
        scommRule.Admissible frame →
        (∀ f ∈ sent, scommRule.Admissible f ∧ isLog f = false) →
        ∀ f ∈ (handToHost host sent frame).1,
          scommRule.Admissible f ∧ isLog f = false := by
    intro sent frame hAdmissible hSent
    unfold handToHost
    simp only
    split_ifs with hLog hWhole
    · exact hSent
    · intro f hF
      rw [List.mem_append, List.mem_singleton] at hF
      rcases hF with hF | rfl
      · exact hSent f hF
      · exact ⟨hAdmissible, by simpa using hLog⟩
    · exact hSent
  have hAll :
      ∀ f ∈ (scommPortRun host events).done,
        scommRule.Admissible f ∧ isLog f = false := by
    clear hFrame
    induction events using List.reverseRecOn with
    | nil => simp [scommPortRun, Receiver.start]
    | append_singleton events event ih =>
        have hRun :
            scommPortRun host (events ++ [event]) =
              scommVendorRecvScommThread host
                (scommPortRun host events) event := by
          simp [scommPortRun]
        rw [hRun, scommVendorRecvScommThread]
        split_ifs
        · exact ih
        · exact channelTurn_invariant hHand _ _ ih
  exact hAll frame hFrame

/- A host socket that takes every frame in one send. -/
def readyHost (_k : Nat) (frame : List UInt8) : List WriteAnswer :=
  oneWrite frame.length

/- The receiver of such a port sends the frame. -/
theorem scommPortRun_onePiece
    {frame : List UInt8}
    (hAdmissible : scommRule.Admissible frame)
    (hLog : isLog frame = false) :
    (scommPortRun readyHost (onePiece frame)).done = [frame] := by
  have hHand :
      ∀ sent frame,
        scommRule.Admissible frame →
        (handToHost readyHost sent frame).2 = true := by
    intro sent frame _
    unfold handToHost
    simp only [readyHost, writeTransport_oneWrite, if_true]
    split_ifs <;> rfl
  have hSplit :
      scommRule.framing.split [frame].flatten =
        ⟨[frame], [], true⟩ :=
    Framing.split_flatten _ scommRule.verdict_nil (by
      intro f hF
      rw [List.mem_singleton.mp hF]
      exact hAdmissible)
  have hLoop := decodeLoop_eq hHand frame []
  rw [List.flatten_singleton] at hSplit
  rw [hSplit] at hLoop
  simp [scommPortRun, onePiece, scommVendorRecvScommThread,
    channelTurn, channelHangup, readTurn, Receiver.start,
    skwH4StreamCapacity, hLoop, handToHost, hLog, readyHost,
    writeTransport_oneWrite]

/- The library forwards the frames it takes but logs. -/
theorem forwarded_iff
    (frame : List UInt8) :
    Forwarded frame ↔
      scommRule.Admissible frame ∧ isLog frame = false := by
  constructor
  · rintro ⟨host, events, hFrame⟩
    exact scommPortRun_done events hFrame
  · rintro ⟨hAdmissible, hLog⟩
    refine ⟨readyHost, onePiece frame, ?_⟩
    rw [scommPortRun_onePiece hAdmissible hLog]
    exact List.mem_singleton_self frame

------------------------------------------------------------
-- What The Bridge Takes
------------------------------------------------------------

/-
  ACL and SCO frames within the sizes the controller has
  answered.
-/
structure WithinAnswer
    (buffers : ControllerBuffers)
    (frame : List UInt8) : Prop where
  acl :
    frame.head? = some skwH4AclPkt →
    frame.length ≤ buffers.aclMtu + 5
  sco :
    frame.head? = some skwH4ScoPkt →
    buffers.scoMtu ≠ 0 ∧ frame.length ≤ buffers.scoMtu + 4

section Limits

variable (buffers : ControllerBuffers)

/- For ACL frames the limit is the answer's. -/
theorem controllerFrameLimit_acl :
    controllerFrameLimit buffers skwH4AclPkt =
      buffers.aclMtu + 5 :=
  if_pos (Nat.pos_iff_ne_zero.mp buffers.acl_pos)

/- For SCO frames it is too, unless the controller has none. -/
theorem controllerFrameLimit_sco :
    controllerFrameLimit buffers skwH4ScoPkt =
      if buffers.scoMtu ≠ 0 then buffers.scoMtu + 4 else 0 :=
  rfl

/- For the others it is the library's. -/
theorem controllerFrameLimit_of_ne
    {type : UInt8}
    (hAcl : type ≠ skwH4AclPkt)
    (hSco : type ≠ skwH4ScoPkt) :
    controllerFrameLimit buffers type = scommFrameLimit type := by
  simp only [controllerFrameLimit, scommFrameLimit, if_neg hAcl,
    if_neg hSco]

/-
  The bridge takes a frame of the library exactly when it is
  within the answer.
-/
theorem admissible_iff_withinAnswer
    {frame : List UInt8}
    (hForwarded : Forwarded frame) :
    (controllerRule buffers).Admissible frame ↔
      WithinAnswer buffers frame := by
  rcases (forwarded_iff frame).mp hForwarded with
    ⟨hAdmissible, hLog⟩
  rcases scommRule.admissible_iff.mp hAdmissible with
    ⟨hFrame, hStatus, hTaken, hSize⟩
  have hHead := type_skwH4Decode hFrame
  have hLength := List.length_pos_iff.mpr hFrame
  have hPositive := buffers.acl_pos
  rw [(controllerRule buffers).admissible_iff,
    not_refuses_controllerRule_iff]
  simp only [scommRule, decide_eq_false_iff_not, not_or,
    not_and, Nat.not_lt] at hTaken
  have hLimit := hTaken.2 (by omega)
  generalize hDecode : (skwH4Decode frame).2 = decoded at *
  have hAnswer :
      decoded.frameSize ≤
          controllerFrameLimit buffers decoded.type ↔
        WithinAnswer buffers frame := by
    by_cases hAcl : decoded.type = skwH4AclPkt
    · rw [hAcl, controllerFrameLimit_acl, hSize]
      rw [hAcl] at hHead
      refine
        ⟨fun h => ⟨fun _ => h, fun hSco => ?_⟩,
          fun h => h.acl hHead⟩
      rw [hHead] at hSco
      cases hSco
    · by_cases hSco : decoded.type = skwH4ScoPkt
      · rw [hSco, controllerFrameLimit_sco, hSize]
        rw [hSco] at hHead
        constructor
        · intro h
          split_ifs at h with hMtu
          · refine ⟨fun hAcl => ?_, fun _ => ⟨hMtu, h⟩⟩
            rw [hHead] at hAcl
            cases hAcl
          · omega
        · intro h
          rw [if_pos (h.sco hHead).1]
          exact (h.sco hHead).2
      · rw [controllerFrameLimit_of_ne buffers hAcl hSco]
        refine ⟨fun _ => ⟨fun h => ?_, fun h => ?_⟩, fun _ => hLimit⟩
        · rw [hHead] at h
          exact absurd (Option.some.inj h) hAcl
        · rw [hHead] at h
          exact absurd (Option.some.inj h) hSco
  constructor
  · rintro ⟨_, _, ⟨_, hWithin⟩, _⟩
    exact hAnswer.mp hWithin
  · intro hWithin
    have hLimited := hAnswer.mpr hWithin
    exact ⟨hFrame, hStatus, ⟨by omega, hLimited⟩, hSize⟩

------------------------------------------------------------
-- The Stream
------------------------------------------------------------

variable {buffers}
variable {vhci : Nat → List VhciReply}

/-
  The bridge passes on exactly the frames that come, and is
  not asked to shut down.
-/
def PassesOn
    (frames : List (List UInt8))
    (receiver : Receiver (List (List UInt8))) : Prop :=
  receiver.done = frames ∧ receiver.running = true

/-
  For frames that the library forwards and the socket cuts in
  any way, the bridge passes all of them on if and only if
  each is within the controller's answer.
-/
theorem controllerToHost_agreed_iff
    {frames : List (List UInt8)}
    {events : List ChannelEvent}
    (hFrames : ∀ frame ∈ frames, Forwarded frame)
    (hOpen : ∀ event ∈ events, event.KeepsOpen)
    (hBytes : channelBytes events = frames.flatten)
    (hVhci : ∀ k, TakesWhole (vhci k)) :
    PassesOn frames (chipToKernelRun buffers vhci events) ↔
      ∀ frame ∈ frames, WithinAnswer buffers frame := by
  have hFraming :=
    @chipToKernel_framing buffers vhci events hOpen hVhci
  rw [hBytes] at hFraming
  constructor
  · rintro ⟨hDone, _⟩ frame hFrame
    -- what is written are frames the bridge takes
    have hWritten := hFrame
    rw [← hDone, hFraming.written, List.mem_filter] at hWritten
    exact
      (admissible_iff_withinAnswer buffers
        (hFrames frame hFrame)).mp
          (Framing.verdict_of_mem_frames _ hWritten.1)
  · intro hWithin
    have hSplit :
        (controllerRule buffers).framing.split frames.flatten =
          ⟨frames, [], true⟩ :=
      Framing.split_flatten _
        (controllerRule buffers).verdict_nil
        fun frame hFrame =>
          (admissible_iff_withinAnswer buffers
            (hFrames frame hFrame)).mpr (hWithin frame hFrame)
    have hNoLogs :
        frames.filter (fun frame => !isLog frame) = frames := by
      rw [List.filter_eq_self]
      intro frame hFrame
      rw [((forwarded_iff frame).mp (hFrames frame hFrame)).2]
      rfl
    refine ⟨?_, ?_⟩
    · rw [hFraming.written, hSplit, hNoLogs]
    · rw [hFraming.running, hSplit]

end Limits

/- The library forwards a small SCO frame. -/
theorem forwarded_sco : Forwarded [3, 1, 0, 1, 7] := by
  rw [forwarded_iff]
  have hVerdict :
      scommRule.verdict [3, 1, 0, 1, 7] = .complete 5 := by
    decide
  exact ⟨hVerdict, rfl⟩

/- A controller without SCO data for the host to send. -/
def noScoBuffers : ControllerBuffers where
  aclMtu := 1021
  scoMtu := 0
  acl_pos := by decide
  acl_le := by decide
  sco_le := by decide

theorem controllerToHost_agreed_iff_sco :
    PassesOn [[3, 1, 0, 1, 7]]
        (chipToKernelRun smallBuffers (fun _ => [.whole])
          (onePiece [3, 1, 0, 1, 7])) ↔
      ∀ frame ∈ [[3, 1, 0, 1, 7]],
        WithinAnswer smallBuffers frame :=
  controllerToHost_agreed_iff
    (by
      intro frame hFrame
      rw [List.mem_singleton.mp hFrame]
      exact forwarded_sco)
    (keepsOpen_onePiece [3, 1, 0, 1, 7])
    rfl
    (fun _ => ⟨[], [], rfl, by simp⟩)

/-
  A controller that answers no SCO packets for the other
  direction makes the bridge shut down on its first SCO frame.
-/
theorem not_controllerToHost_agreed :
    ¬ ∀ (answer : List UInt8)
      (buffers : ControllerBuffers)
      (vhci : Nat → List VhciReply)
      (frames : List (List UInt8))
      (events : List ChannelEvent),
      readControllerBufferSizes (some answer) = some buffers →
      (∀ frame ∈ frames, Forwarded frame) →
      (∀ event ∈ events, event.KeepsOpen) →
      channelBytes events = frames.flatten →
      (∀ k, TakesWhole (vhci k)) →
      PassesOn frames (chipToKernelRun buffers vhci events) := by
  intro hClaim
  have hFrames :
      ∀ frame ∈ [[3, 1, 0, 1, 7]], Forwarded frame := by
    intro frame hFrame
    rw [List.mem_singleton.mp hFrame]
    exact forwarded_sco
  have hVhci : ∀ k, TakesWhole ((fun _ : Nat => [.whole]) k) :=
    fun _ => ⟨[], [], rfl, by simp⟩
  have hPasses :=
    hClaim [253, 3, 0, 8, 0, 0, 0] noScoBuffers
      (fun _ => [.whole]) [[3, 1, 0, 1, 7]]
      (onePiece [3, 1, 0, 1, 7]) rfl hFrames
      (keepsOpen_onePiece [3, 1, 0, 1, 7]) rfl hVhci
  -- the bridge has no limit for SCO frames, so it stops
  have hStops :
      (chipToKernelRun noScoBuffers (fun _ => [.whole])
        (onePiece [3, 1, 0, 1, 7])).running = false := by
    have hFraming :=
      chipToKernel_framing noScoBuffers
        (keepsOpen_onePiece [3, 1, 0, 1, 7]) hVhci
    have hInvalid :
        (controllerRule noScoBuffers).framing.verdict
            [3, 1, 0, 1, 7] =
          .invalid := by decide
    have hSplit := Framing.split_of_invalid _ hInvalid
    rw [hFraming.running]
    exact congrArg Split.valid hSplit
  have hRuns := hPasses.2
  rw [hStops] at hRuns
  cases hRuns

end Bluetooth

end MicaBoards
