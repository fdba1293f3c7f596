import MicaBoards.Bluetooth.HostSocket.Frames
import MicaBoards.Bluetooth.HostToController
import MicaBoards.Bluetooth.Process.Steps

/-
  What `kernel_to_chip` puts on the vendor channel, in every
  run of the process: the packets the kernel has sent to the
  controller, whole and in their order, and at most a part of
  one more, after which nothing follows.

  Key definitions include:
    * `toController`
    * `Bridge.Outbound`
  Main declarations:
    * `Bridge.outbound_run`
    * `kernelToPorts`
-/

------------------------------------------------------------
-- Writes To The Channel
------------------------------------------------------------

namespace MicaBoards

namespace Bluetooth

namespace Process

/- How much a call of `write_all` has written. -/
def Call.Within (length : Nat) (call : Call) : Prop :=
  match call.pc with
  | .returned true => call.done = length
  | _ => call.done < length

theorem Call.within_writeAll
    {length : Nat}
    (hLength : 0 < length) :
    (Call.writeAll length).Within length := by
  simp [Call.writeAll, Call.Within, hLength]

/- A step keeps that, and takes nothing back. -/
theorem Call.Within.step
    {length : Nat}
    {call : Call}
    (hWithin : call.Within length)
    (control : Control)
    (send : SendReply)
    (wait : WaitReply) :
    (callStep writeAllTook length control call send wait).2.Within
        length ∧
      call.done ≤
        (callStep writeAllTook length control call send
          wait).2.done := by
  rcases call with ⟨done, pc⟩
  cases pc with
  | write =>
      simp only [Call.Within] at hWithin
      rcases send with (_ | count) | _ | _ | _ | _
      · exact ⟨hWithin, le_refl _⟩
      · simp only [callStep, writeAllTook]
        split_ifs with hMore
        · exact ⟨hMore, Nat.le_add_right _ _⟩
        · refine ⟨?_, Nat.le_add_right _ _⟩
          show done + min (count + 1) (length - done) = length
          omega
      all_goals exact ⟨hWithin, le_refl _⟩
  | wait =>
      simp only [Call.Within] at hWithin
      cases wait with
      | interrupted => exact ⟨hWithin, le_refl _⟩
      | failed => exact ⟨hWithin, le_refl _⟩
      | events broken writable =>
          simp only [callStep]
          split_ifs <;> exact ⟨hWithin, le_refl _⟩
  | consume next =>
      simp only [callStep]
      split_ifs <;> exact ⟨hWithin, le_refl _⟩
  | request next => exact ⟨hWithin, le_refl _⟩
  | check next =>
      simp only [Call.Within] at hWithin
      simp only [callStep]
      split_ifs
      · exact ⟨hWithin, le_refl _⟩
      · cases next <;> exact ⟨hWithin, le_refl _⟩
  | returned ok => exact ⟨hWithin, le_refl _⟩

------------------------------------------------------------
-- Places Of The Main Thread
------------------------------------------------------------

namespace MainPc

/- Before `kernel_to_chip`. -/
def Setup : MainPc → Prop
| .signals => True
| .bdaddr => True
| .dlopen => True
| .dlsym => True
| .vendorInit => True
| .powerCtrl => True
| .userialOpen _ => True
| .userialClose _ => True
| .retry _ => True
| .delay _ => True
| .delayCheck _ _ => True
| .consume (.delayCheck _ _) => True
| .request (.delayCheck _ _) => True
| .channels => True
| .address => True
| .bufferSizes => True
| .openVhci => True
| .createReader => True
| _ => False

/- On the way out of `kernel_to_chip`, or past it. -/
def Over : MainPc → Prop
| .consume .cleanup => True
| .request .cleanup => True
| .writeFailed => True
| .fail continues => continues = false
| .stop continues => continues = false
| .requestShutdown => True
| .join => True
| .closeVhci _ => True
| .closeChannels _ => True
| .epilog _ => True
| .dlclose _ => True
| .closeSignals _ => True
| .exited _ => True
| _ => False

/- In `write_all`. -/
def Writes : MainPc → Prop
| .write _ _ _ => True
| _ => False

end MainPc

/- A step of the main thread that moves no packet. -/
structure Quiet (bridge next : Bridge) : Prop where
  packets : next.packets = bridge.packets
  forwarded : next.forwarded = bridge.forwarded
  socket : next.socket = bridge.socket
  buffers : next.buffers = bridge.buffers ∨ bridge.main.Setup
  writes : ¬ next.main.Writes
  setup : next.main.Setup → bridge.main.Setup
  past : bridge.main.Over → next.main.Over

/- A step that only goes to another place is. -/
theorem quiet_of_main
    {bridge next : Bridge}
    {pc : MainPc}
    (hMain : bridge.main = pc)
    (hPackets : next.packets = bridge.packets)
    (hForwarded : next.forwarded = bridge.forwarded)
    (hSocket : next.socket = bridge.socket)
    (hBuffers : next.buffers = bridge.buffers ∨ pc.Setup)
    (hWrites : ¬ next.main.Writes)
    (hSetup : next.main.Setup → pc.Setup)
    (hOver : pc.Over → next.main.Over) :
    Quiet bridge next := by
  subst hMain
  exact
    ⟨hPackets, hForwarded, hSocket, hBuffers, hWrites, hSetup,
      hOver⟩

/- So is a command that fails. -/
theorem quiet_refuse
    {bridge : Bridge}
    (hMain :
      bridge.main = .address ∨ bridge.main = .bufferSizes)
    (next : Bridge)
    (seen : Bool)
    (hPackets : next.packets = bridge.packets)
    (hForwarded : next.forwarded = bridge.forwarded)
    (hSocket : next.socket = bridge.socket) :
    Quiet bridge (next.refuse seen) := by
  have hSetup : bridge.main.Setup ∧ ¬ bridge.main.Over := by
    rcases hMain with hMain | hMain <;>
      exact hMain ▸ ⟨trivial, id⟩
  cases seen with
  | true =>
      exact
        ⟨hPackets, hForwarded, hSocket, .inr hSetup.1, id,
          fun _ => hSetup.1, fun _ => trivial⟩
  | false =>
      exact
        ⟨hPackets, hForwarded, hSocket, .inr hSetup.1, id,
          fun _ => hSetup.1, fun _ => trivial⟩

/- All steps are, but those at `read` and in `write_all`. -/
theorem quiet_mainStep
    {bridge : Bridge}
    (hRead : ∀ hangup, bridge.main ≠ .read hangup)
    (hWrite : ¬ bridge.main.Writes)
    (answer : MainAnswer) :
    Quiet bridge (mainStep bridge answer) := by
  unfold mainStep
  cases hMain : bridge.main
  case read hangup => exact absurd hMain (hRead hangup)
  case write hangup packet call =>
    rw [hMain] at hWrite
    exact absurd trivial hWrite
  case consume next =>
    simp only [Bridge.look]
    cases next <;> split_ifs
    all_goals
      first
      | exact
          quiet_of_main hMain rfl rfl rfl (.inl rfl) id
            (fun _ => trivial) False.elim
      | exact
          quiet_of_main hMain rfl rfl rfl (.inl rfl) id
            False.elim fun _ => trivial
      | exact
          quiet_of_main hMain rfl rfl rfl (.inl rfl) id
            False.elim False.elim
  case request next =>
    cases next with
    | delayCheck attempt failed =>
        exact
          quiet_of_main hMain rfl rfl rfl (.inl rfl) id
            (fun _ => trivial) False.elim
    | cleanup =>
        exact
          quiet_of_main hMain rfl rfl rfl (.inl rfl) id
            False.elim fun _ => trivial
    | loop =>
        exact
          quiet_of_main hMain rfl rfl rfl (.inl rfl) id
            False.elim False.elim
    | check events =>
        exact
          quiet_of_main hMain rfl rfl rfl (.inl rfl) id
            False.elim False.elim
  case address =>
    simp only
    repeat' split
    · exact quiet_refuse (.inl hMain) _ _ rfl rfl rfl
    · exact
        quiet_of_main hMain rfl rfl rfl (.inr trivial) id
          (fun _ => trivial) False.elim
    · exact quiet_refuse (.inl hMain) _ _ rfl rfl rfl
  case bufferSizes =>
    simp only
    repeat' split
    · exact
        quiet_of_main hMain rfl rfl rfl (.inr trivial) id
          (fun _ => trivial) False.elim
    · exact quiet_refuse (.inr hMain) _ _ rfl rfl rfl
    · exact quiet_refuse (.inr hMain) _ _ rfl rfl rfl
  case stop continues =>
    cases continues with
    | true =>
        exact
          quiet_of_main hMain rfl rfl rfl (.inl rfl) id id
            (fun h => Bool.noConfusion h)
    | false =>
        exact
          quiet_of_main hMain rfl rfl rfl (.inl rfl) id id
            fun _ => trivial
  case fail continues =>
    exact
      quiet_of_main hMain rfl rfl rfl (.inl rfl) id id id
  case writeFailed =>
    simp only
    split_ifs
    · exact
        quiet_of_main hMain rfl rfl rfl (.inl rfl) id
          False.elim fun _ => rfl
    · exact
        quiet_of_main hMain rfl rfl rfl (.inl rfl) id
          False.elim fun _ => trivial
  case join =>
    simp only
    split_ifs
    · exact
        quiet_of_main hMain rfl rfl rfl (.inl rfl) id
          False.elim fun _ => trivial
    · exact
        quiet_of_main hMain rfl rfl rfl (.inl rfl) id
          False.elim fun _ => trivial
    · exact
        quiet_of_main hMain rfl rfl rfl (.inl rfl) hWrite
          (fun h => hMain ▸ h) fun h => hMain ▸ h
  all_goals
    simp only
    repeat' split
    all_goals
      first
      | exact
          quiet_of_main hMain rfl rfl rfl (.inl rfl) id
            (fun _ => trivial) False.elim
      | exact
          quiet_of_main hMain rfl rfl rfl (.inl rfl) id
            False.elim False.elim
      | exact
          quiet_of_main hMain rfl rfl rfl (.inl rfl) id
            False.elim fun _ => trivial
      | exact
          quiet_of_main hMain rfl rfl rfl (.inl rfl) hWrite
            (fun h => hMain ▸ h) fun h => hMain ▸ h

/- The main thread does not come back to its beginning. -/
theorem setup_mainStep
    {bridge : Bridge}
    {answer : MainAnswer}
    (hSetup : (mainStep bridge answer).main.Setup) :
    bridge.main.Setup := by
  by_cases hWrites : bridge.main.Writes
  · unfold mainStep at hSetup
    cases hMain : bridge.main
    case write hangup packet call =>
      rw [hMain] at hSetup
      simp only at hSetup
      split at hSetup
      · split_ifs at hSetup <;> exact hSetup
      · exact hSetup
      · exact hSetup
    all_goals
      rw [hMain] at hWrites
      exact hWrites.elim
  · by_cases hRead : ∃ hangup, bridge.main = .read hangup
    · rcases hRead with ⟨hangup, hMain⟩
      unfold mainStep at hSetup
      rw [hMain] at hSetup
      cases hRead : answer.read with
      | again =>
          rw [hRead] at hSetup
          exact hSetup.elim
      | closed =>
          rw [hRead] at hSetup
          exact hSetup.elim
      | data piece =>
          rw [hRead] at hSetup
          simp only at hSetup
          split_ifs at hSetup
          · exact hSetup.elim
          · rcases packetStep_cases bridge hangup
                (piece.take skwH4KernelMaxFrame) with
              ⟨_, pc, rfl | rfl, hStep⟩ |
                ⟨_, hStep | ⟨_, _, _, _, hStep⟩⟩
            all_goals
              rw [hStep] at hSetup
              exact hSetup.elim
    · exact
        (quiet_mainStep
          (fun hangup hMain => hRead ⟨hangup, hMain⟩)
          hWrites answer).setup hSetup

------------------------------------------------------------
-- The Invariant
------------------------------------------------------------

/- The packets that are for the controller. -/
def toController
    (packets : List (List UInt8)) : List (List UInt8) :=
  packets.filter fun packet =>
    decide (packet.headD 0 ≠ hciVendorPkt)

namespace Bridge

/- `validate_host_frame`, with the sizes that were read. -/
def Takes (bridge : Bridge) (packet : List UInt8) : Prop :=
  ∃ buffers,
    bridge.buffers = some buffers ∧
      validateHostFrame buffers packet = true

/-
  The packets after the forwarded ones, and the bytes on the
  channel after them: there are none, or one is being written,
  or was the last.
-/
def Left
    (bridge : Bridge)
    (rest : List (List UInt8))
    (left : List UInt8) : Prop :=
  rest = [] ∧ left = [] ∧ ¬ bridge.main.Writes ∨
    (∃ hangup packet call,
      bridge.main = .write hangup packet call ∧
        rest = [packet] ∧ left = packet.take call.done ∧
        call.Within packet.length ∧ bridge.Takes packet) ∨
    (∃ packet count,
      bridge.main.Over ∧
        rest = [packet] ∧ left = packet.take count ∧
        count < packet.length ∧
        (0 < count → bridge.Takes packet))

/- What holds of the packets in every run. -/
structure Outbound (bridge : Bridge) : Prop where
  stream : ∃ rest left,
    bridge.socket = bridge.forwarded.flatten ++ left ∧
      toController bridge.packets = bridge.forwarded ++ rest ∧
      bridge.Left rest left
  takes : ∀ packet ∈ bridge.forwarded, bridge.Takes packet
  setup : bridge.main.Setup → bridge.packets = []

theorem outbound_start
    (accepts : List Bool)
    (coming : Channel) :
    (start accepts coming).Outbound where
  stream := ⟨[], [], rfl, rfl, .inl ⟨rfl, rfl, id⟩⟩
  takes packet hPacket := absurd hPacket (by simp [start])
  setup _ := rfl

/- The sizes stay as they are while there are packets. -/
theorem Outbound.forwarded_nil
    {bridge : Bridge}
    (hOutbound : bridge.Outbound)
    (hSetup : bridge.main.Setup) :
    bridge.forwarded = [] := by
  rcases hOutbound.stream with ⟨rest, left, _, hPackets, _⟩
  rw [hOutbound.setup hSetup] at hPackets
  exact (List.append_eq_nil_iff.mp hPackets.symm).1

theorem Left.resolve
    {bridge : Bridge}
    {rest : List (List UInt8)}
    {left : List UInt8}
    (hLeft : bridge.Left rest left)
    (hWrites : ¬ bridge.main.Writes) :
    rest = [] ∧ left = [] ∨
      ∃ packet count,
        bridge.main.Over ∧
          rest = [packet] ∧ left = packet.take count ∧
          count < packet.length ∧
          (0 < count → bridge.Takes packet) := by
  rcases hLeft with ⟨hRest, hNone, _⟩ |
    ⟨hangup, packet, call, hMain, _⟩ | hOver
  · exact .inl ⟨hRest, hNone⟩
  · rw [hMain] at hWrites
    exact absurd trivial hWrites
  · exact .inr hOver

theorem MainPc.not_over_of_setup
    {pc : MainPc}
    (hSetup : pc.Setup) :
    ¬ pc.Over := by
  intro hOver
  cases pc
  case consume next => cases next <;> trivial
  case request next => cases next <;> trivial
  all_goals trivial

/- A step that moves no packet keeps it. -/
theorem Outbound.quiet
    {bridge next : Bridge}
    (hOutbound : bridge.Outbound)
    (hWrites : ¬ bridge.main.Writes)
    (hQuiet : Quiet bridge next) :
    next.Outbound := by
  have hTakes :
      ∀ packet, ¬ bridge.main.Setup →
        bridge.Takes packet → next.Takes packet := by
    intro packet hSetup hPacket
    unfold Takes
    rw [hQuiet.buffers.resolve_right hSetup]
    exact hPacket
  rcases hOutbound.stream with
    ⟨rest, left, hSocket, hPackets, hLeft⟩
  refine ⟨⟨rest, left, ?_, ?_, ?_⟩, ?_, ?_⟩
  · rw [hQuiet.socket, hQuiet.forwarded, hSocket]
  · rw [hQuiet.packets, hQuiet.forwarded, hPackets]
  · rcases hLeft.resolve hWrites with ⟨hRest, hNone⟩ |
      ⟨packet, count, hOver, hRest, hCount, hLess, hTaken⟩
    · exact .inl ⟨hRest, hNone, hQuiet.writes⟩
    · have hSetup : ¬ bridge.main.Setup :=
        fun hSetup => MainPc.not_over_of_setup hSetup hOver
      exact
        .inr
          (.inr
            ⟨packet, count, hQuiet.past hOver, hRest, hCount,
              hLess, fun h => hTakes packet hSetup (hTaken h)⟩)
  · intro packet hPacket
    rw [hQuiet.forwarded] at hPacket
    have hSetup : ¬ bridge.main.Setup := by
      intro hSetup
      rw [hOutbound.forwarded_nil hSetup] at hPacket
      cases hPacket
    exact hTakes packet hSetup (hOutbound.takes packet hPacket)
  · intro hSetup
    rw [hQuiet.packets]
    exact hOutbound.setup (hQuiet.setup hSetup)

theorem toController_append
    (packets : List (List UInt8))
    (packet : List UInt8) :
    toController (packets ++ [packet]) =
      if packet.headD 0 = hciVendorPkt then
        toController packets
      else
        toController packets ++ [packet] := by
  unfold toController
  rw [List.filter_append]
  split_ifs with hVendor
  · simp only [List.filter_cons, hVendor, ne_eq,
      not_true_eq_false, decide_false, List.filter_nil,
      Bool.false_eq_true, if_false, List.append_nil]
  · simp only [List.filter_cons, hVendor, ne_eq,
      not_false_eq_true, decide_true, List.filter_nil, if_true]

/- A packet is read: it is dropped, refused or written. -/
theorem Outbound.packetStep
    {bridge : Bridge}
    {hangup : Bool}
    (hOutbound : bridge.Outbound)
    (hMain : bridge.main = .read hangup)
    {packet : List UInt8}
    (hPacket : packet ≠ []) :
    (packetStep bridge hangup packet).Outbound := by
  have hLength := List.length_pos_iff.mpr hPacket
  have hWrites : ¬ bridge.main.Writes := by
    rw [hMain]
    exact id
  rcases hOutbound.stream with
    ⟨rest, left, hSocket, hPackets, hLeft⟩
  rcases hLeft.resolve hWrites with ⟨rfl, rfl⟩ | ⟨_, _, hOver, _⟩
  swap
  · rw [hMain] at hOver
    exact hOver.elim
  rw [List.append_nil] at hSocket hPackets
  have hNext := toController_append bridge.packets packet
  rw [hPackets] at hNext
  rcases packetStep_cases bridge hangup packet with
    ⟨hVendor, pc, hPc, hStep⟩ |
      ⟨hVendor, hStep | ⟨buffers, hBuffers, hValid, _, hStep⟩⟩
  · rw [if_pos hVendor] at hNext
    rw [hStep]
    have hGoes : ¬ pc.Writes ∧ ¬ pc.Setup := by
      rcases hPc with rfl | rfl
      · exact ⟨id, id⟩
      · exact ⟨id, id⟩
    refine
      ⟨⟨[], [], ?_, ?_, .inl ⟨rfl, rfl, hGoes.1⟩⟩,
        hOutbound.takes, fun h => absurd h hGoes.2⟩
    · rw [List.append_nil]
      exact hSocket
    · rw [List.append_nil]
      exact hNext
  · -- nothing of a packet that is refused is written
    rw [if_neg hVendor] at hNext
    rw [hStep]
    refine
      ⟨⟨[packet], [], ?_, hNext, ?_⟩, hOutbound.takes,
        False.elim⟩
    · rw [List.append_nil]
      exact hSocket
    · exact
        .inr
          (.inr
            ⟨packet, 0, rfl, rfl, rfl, hLength,
              fun h => absurd h (Nat.lt_irrefl 0)⟩)
  · rw [if_neg hVendor] at hNext
    rw [hStep]
    refine
      ⟨⟨[packet], [], ?_, hNext, ?_⟩, hOutbound.takes,
        False.elim⟩
    · rw [List.append_nil]
      exact hSocket
    · exact
        .inr
          (.inl
            ⟨hangup, packet, _, rfl, rfl, rfl,
              Call.within_writeAll hLength, buffers, hBuffers,
              hValid⟩)

/- A step of `write_all`, or what follows it. -/
theorem Outbound.writeStep
    {bridge : Bridge}
    {hangup : Bool}
    {packet : List UInt8}
    {call : Call}
    (hOutbound : bridge.Outbound)
    (hMain : bridge.main = .write hangup packet call)
    (answer : MainAnswer) :
    (mainStep bridge answer).Outbound := by
  rcases hOutbound.stream with
    ⟨rest, left, hSocket, hPackets, hLeft⟩
  have hHere :
      rest = [packet] ∧ left = packet.take call.done ∧
        call.Within packet.length ∧ bridge.Takes packet := by
    rcases hLeft with ⟨_, _, hWrites⟩ |
      ⟨hangup', packet', call', hMain', hHere⟩ |
      ⟨_, _, hOver, _⟩
    · rw [hMain] at hWrites
      exact absurd trivial hWrites
    · rw [hMain] at hMain'
      cases hMain'
      exact hHere
    · rw [hMain] at hOver
      exact hOver.elim
  rcases hHere with ⟨rfl, rfl, hWithin, hTakes⟩
  -- the call goes on
  have hGoes : (bridge.mainWrite hangup packet call answer).Outbound := by
    rcases hWithin.step bridge.control answer.send
      answer.wait with ⟨hNext, hMore⟩
    refine
      ⟨⟨[packet], packet.take _, ?_, hPackets,
        .inr
          (.inl
            ⟨hangup, packet, _, rfl, rfl, rfl, hNext, hTakes⟩)⟩,
        hOutbound.takes, False.elim⟩
    show bridge.socket ++ _ = bridge.forwarded.flatten ++ _
    rw [hSocket, List.append_assoc,
      HostState.take_append_sent packet hMore]
  unfold mainStep
  rw [hMain]
  rcases call with ⟨done, pc⟩
  cases pc with
  | returned ok =>
      cases ok with
      | false =>
          refine
            ⟨⟨[packet], packet.take done, hSocket, hPackets,
              .inr
                (.inr
                  ⟨packet, done, trivial, rfl, rfl, hWithin,
                    fun _ => hTakes⟩)⟩,
              hOutbound.takes, False.elim⟩
      | true =>
          have hDone : done = packet.length := hWithin
          subst hDone
          rw [List.take_length] at hSocket
          have hForwarded :
              ∀ pc : MainPc, ¬ pc.Writes → ¬ pc.Setup →
                Outbound
                  { bridge with
                    forwarded := bridge.forwarded ++ [packet]
                    main := pc } := by
            intro pc hWrites hSetup
            refine
              ⟨⟨[], [], ?_, ?_, .inl ⟨rfl, rfl, hWrites⟩⟩,
                ?_, fun h => absurd h hSetup⟩
            · simpa using hSocket
            · simpa using hPackets
            · intro other hOther
              rcases List.mem_append.mp hOther with
                hOther | hOther
              · exact hOutbound.takes other hOther
              · rw [List.mem_singleton.mp hOther]
                exact hTakes
          simp only
          split_ifs
          · exact hForwarded _ id id
          · exact hForwarded _ id id
  | write => exact hGoes
  | wait => exact hGoes
  | consume next => exact hGoes
  | request next => exact hGoes
  | check next => exact hGoes

/- Every step of the main thread keeps it. -/
theorem Outbound.mainStep
    {bridge : Bridge}
    (hOutbound : bridge.Outbound)
    (answer : MainAnswer) :
    (mainStep bridge answer).Outbound := by
  by_cases hWrites : bridge.main.Writes
  · cases hMain : bridge.main
    case write hangup packet call =>
      exact hOutbound.writeStep hMain answer
    all_goals
      rw [hMain] at hWrites
      exact hWrites.elim
  · by_cases hRead : ∃ hangup, bridge.main = .read hangup
    · rcases hRead with ⟨hangup, hMain⟩
      have hQuiet :
          ∀ pc : MainPc, ¬ pc.Writes → ¬ pc.Setup →
            (bridge.goto pc).Outbound := by
        intro pc hNext hSetup
        exact
          hOutbound.quiet hWrites
            (quiet_of_main hMain rfl rfl rfl (.inl rfl) hNext
              (fun h => absurd h hSetup) False.elim)
      unfold Process.mainStep
      rw [hMain]
      cases answer.read with
      | again => exact hQuiet _ id id
      | closed => exact hQuiet _ id id
      | data piece =>
          simp only
          split_ifs with hEmpty
          · exact hQuiet _ id id
          · exact hOutbound.packetStep hMain hEmpty
    · exact
        hOutbound.quiet hWrites
          (quiet_mainStep
            (fun hangup hMain => hRead ⟨hangup, hMain⟩)
            hWrites answer)

/- What the main thread has is all that matters for it. -/
theorem Outbound.congr
    {bridge next : Bridge}
    (hOutbound : bridge.Outbound)
    (hMain : next.main = bridge.main)
    (hBuffers : next.buffers = bridge.buffers)
    (hPackets : next.packets = bridge.packets)
    (hForwarded : next.forwarded = bridge.forwarded)
    (hSocket : next.socket = bridge.socket) :
    next.Outbound := by
  rcases hOutbound with ⟨hStream, hTakes, hSetup⟩
  constructor
  · simpa only [Left, Takes, hMain, hBuffers, hPackets,
      hForwarded, hSocket] using hStream
  · simpa only [Takes, hBuffers, hForwarded] using hTakes
  · simpa only [hMain, hPackets] using hSetup

theorem Outbound.bridgeStep
    {bridge : Bridge}
    (hOutbound : bridge.Outbound)
    (action : BridgeAction) :
    (bridgeStep bridge action).Outbound := by
  cases action with
  | main answer => exact hOutbound.mainStep answer
  | reader answer =>
      rcases readerMoves_readerStep bridge answer with
        ⟨_, _, _, _, _, _, _, hNext⟩
      simp only [Process.bridgeStep, hNext]
      exact hOutbound.congr rfl rfl rfl rfl rfl
  | signal =>
      simp only [Process.bridgeStep]
      split_ifs
      · exact hOutbound.congr rfl rfl rfl rfl rfl
      · exact hOutbound

/- It holds in every run. -/
theorem outbound_run
    (accepts : List Bool)
    (coming : Channel)
    (schedule : List BridgeAction) :
    (Schedule.run Process.bridgeStep (start accepts coming)
      schedule).Outbound :=
  Schedule.Along.invariant
    (fun _ action hOutbound _ => hOutbound.bridgeStep action)
    (Schedule.along_true _ schedule)
    (outbound_start accepts coming)

------------------------------------------------------------
-- The First Commands
------------------------------------------------------------

/- A command of the bridge is one the library takes. -/
theorem admissible_commandPacket
    (opcode : UInt16)
    {params : List UInt8}
    (hParams : params.length ≤ 255) :
    hostRule.Admissible (commandPacket opcode params) := by
  have hByte : (UInt8.ofNat params.length).toNat = params.length :=
    toNat_ofNat_length hParams
  have hCapacity : skwH4StreamCapacity = 4096 := rfl
  have hMax : skwH4CommandMaxFrame = 259 := rfl
  have hFill :=
    @FrameRule.admissible_fill hostRule skwH4CommandPkt
      (lowByte opcode :: highByte opcode ::
        UInt8.ofNat params.length :: params)
      4 params.length rfl (by simp) (congrArg some hByte)
      (by omega) (by simp only [List.length_cons]; omega)
      (by
        simp only [hostRule, hostFrameAllowed, if_true,
          decide_eq_false_iff_not]
        rintro ⟨_, hRefused⟩
        omega)
  have hNone :
      4 + params.length -
          ((lowByte opcode :: highByte opcode ::
            UInt8.ofNat params.length :: params).length + 1) =
        0 := by
    simp only [List.length_cons]
    omega
  rw [hNone, List.replicate_zero, List.append_nil] at hFill
  exact hFill

theorem admissible_of_isCommand
    {packet : List UInt8}
    (hCommand : IsCommand packet) :
    hostRule.Admissible packet := by
  rcases hCommand with ⟨opcode, params, hParams, rfl⟩
  exact admissible_commandPacket opcode hParams

/-
  The commands that were written are such ones. When one was
  not written whole, nothing else follows it.
-/
structure Commands (bridge : Bridge) : Prop where
  written : ∀ packet ∈ bridge.link.written, IsCommand packet
  cut :
    bridge.cut = [] ∨
      bridge.main.Over ∧ bridge.packets = [] ∧
        bridge.forwarded = [] ∧ bridge.socket = [] ∧
        ∃ packet, IsCommand packet ∧ bridge.cut <+: packet ∧
          bridge.cut.length < packet.length

/- Before `kernel_to_chip` there are no packets. -/
theorem Outbound.before
    {bridge : Bridge}
    (hOutbound : bridge.Outbound)
    (hSetup : bridge.main.Setup) :
    bridge.packets = [] ∧ bridge.forwarded = [] ∧
      bridge.socket = [] := by
  have hPackets := hOutbound.setup hSetup
  have hForwarded := hOutbound.forwarded_nil hSetup
  rcases hOutbound.stream with
    ⟨rest, left, hSocket, hRest, hLeft⟩
  rw [hPackets, hForwarded] at hRest
  have hNone : rest = [] := hRest.symm
  refine ⟨hPackets, hForwarded, ?_⟩
  rw [hSocket, hForwarded]
  rcases hLeft with ⟨_, hEmpty, _⟩ |
    ⟨_, _, _, _, hOne, _⟩ | ⟨_, _, _, hOne, _⟩
  · exact hEmpty
  · rw [hNone] at hOne
    cases hOne
  · rw [hNone] at hOne
    cases hOne

/- A step at which none is tried keeps it. -/
theorem Commands.untried
    {bridge next : Bridge}
    (hCommands : bridge.Commands)
    (hQuiet : bridge.main.Over → Quiet bridge next)
    (hLink : next.link = bridge.link)
    (hCut : next.cut = bridge.cut) :
    next.Commands := by
  constructor
  · rw [hLink]
    exact hCommands.written
  · rw [hCut]
    rcases hCommands.cut with hNone |
      ⟨hOver, hPackets, hForwarded, hSocket, hPart⟩
    · exact .inl hNone
    · have hQuiet := hQuiet hOver
      exact
        .inr
          ⟨hQuiet.past hOver, hQuiet.packets.trans hPackets,
            hQuiet.forwarded.trans hForwarded,
            hQuiet.socket.trans hSocket, hPart⟩

/- Commands are tried during the setup. -/
theorem commands_of_tried
    {bridge next : Bridge}
    {tried : Tried}
    (hCommands : bridge.Commands)
    (hTried : Writes bridge.link tried)
    (hSame :
      (next.link, next.cut) = (tried.link, tried.cut))
    (hPast :
      tried.cut = [] ∨
        next.main.Over ∧ next.packets = [] ∧
          next.forwarded = [] ∧ next.socket = []) :
    next.Commands := by
  rcases Prod.mk.inj hSame with ⟨hLink, hCut⟩
  rcases hTried.whole with ⟨packets, hWritten, hPackets⟩
  constructor
  · intro packet hPacket
    rw [hLink, hWritten, List.mem_append] at hPacket
    rcases hPacket with hPacket | hPacket
    · exact hCommands.written packet hPacket
    · exact hPackets packet hPacket
  · rw [hCut]
    rcases hPast with hNone | hPast
    · exact .inl hNone
    · rcases hTried.cut with hNone | hPart
      · exact .inl hNone
      · exact
          .inr
            ⟨hPast.1, hPast.2.1, hPast.2.2.1, hPast.2.2.2,
              hPart⟩

/- The place of a command that fails -/
theorem refuse_over
    (bridge : Bridge)
    (seen : Bool) :
    (bridge.refuse seen).main.Over := by
  cases seen <;> trivial

/- What `refuse` leaves alone -/
theorem refuse_same
    (bridge : Bridge)
    (seen : Bool) :
    (bridge.refuse seen).link = bridge.link ∧
      (bridge.refuse seen).cut = bridge.cut ∧
      (bridge.refuse seen).packets = bridge.packets ∧
      (bridge.refuse seen).forwarded = bridge.forwarded ∧
      (bridge.refuse seen).socket = bridge.socket := by
  cases seen <;> exact ⟨rfl, rfl, rfl, rfl, rfl⟩

theorem commands_refuse
    {bridge : Bridge}
    {commands : List SetupCommand}
    {count : Nat}
    (hCommands : bridge.Commands)
    (hOutbound : bridge.Outbound)
    (hSetup : bridge.main.Setup)
    (seen : Bool) :
    ((bridge.tries
        (commandsTried bridge.link commands count)).refuse
      seen).Commands := by
  rcases refuse_same
      (bridge.tries (commandsTried bridge.link commands count))
      seen with
    ⟨hLink, hCut, hPackets, hForwarded, hSocket⟩
  have hBefore := hOutbound.before hSetup
  refine
    commands_of_tried hCommands
      (writes_commandsTried bridge.link commands count)
      (Prod.ext hLink hCut)
      (.inr ⟨refuse_over _ _, ?_, ?_, ?_⟩)
  · rw [hPackets]
    exact hBefore.1
  · rw [hForwarded]
    exact hBefore.2.1
  · rw [hSocket]
    exact hBefore.2.2

theorem Commands.mainStep
    {bridge : Bridge}
    (hCommands : bridge.Commands)
    (hOutbound : bridge.Outbound)
    (answer : MainAnswer) :
    (mainStep bridge answer).Commands := by
  rcases (mainMoves_mainStep bridge answer).setup with
    hSame | hMain | hMain
  · -- no command is tried
    simp only [Prod.mk.injEq] at hSame
    refine hCommands.untried (fun hOver => ?_) hSame.1 hSame.2.1
    refine quiet_mainStep (fun hangup hMain => ?_) ?_ answer
    · rw [hMain] at hOver
      exact hOver
    · intro hWrites
      cases hMain : bridge.main
      case write hangup packet call =>
        rw [hMain] at hOver
        exact hOver
      all_goals
        rw [hMain] at hWrites
        exact hWrites
  · have hSetup : bridge.main.Setup := hMain ▸ trivial
    unfold Process.mainStep
    rw [hMain]
    simp only
    split
    · exact
        hCommands.untried
          (fun _ => quiet_refuse (.inl hMain) _ _ rfl rfl rfl)
          rfl rfl
    · split
      next next hNext =>
        exact
          commands_of_tried hCommands
            (writes_commandsTried bridge.link _ answer.count) rfl
            (.inl (succeeded_addressCommands hNext _).cut)
      next => exact commands_refuse hCommands hOutbound hSetup _
  · have hSetup : bridge.main.Setup := hMain ▸ trivial
    unfold Process.mainStep
    rw [hMain]
    simp only
    split
    next sizes next hNext =>
      split
      · exact
          commands_of_tried hCommands
            (writes_commandsTried bridge.link _ answer.count) rfl
            (.inl (succeeded_bufferCommands hNext _).cut)
      · exact commands_refuse hCommands hOutbound hSetup _
    next => exact commands_refuse hCommands hOutbound hSetup _

theorem Commands.bridgeStep
    {bridge : Bridge}
    (hCommands : bridge.Commands)
    (hOutbound : bridge.Outbound)
    (action : BridgeAction) :
    (bridgeStep bridge action).Commands := by
  cases action with
  | main answer => exact hCommands.mainStep hOutbound answer
  | reader answer =>
      rcases readerMoves_readerStep bridge answer with
        ⟨_, _, _, _, _, _, _, hNext⟩
      simp only [Process.bridgeStep, hNext]
      exact ⟨hCommands.written, hCommands.cut⟩
  | signal =>
      simp only [Process.bridgeStep]
      split_ifs
      · exact ⟨hCommands.written, hCommands.cut⟩
      · exact hCommands

theorem commands_run
    (accepts : List Bool)
    (coming : Channel)
    (schedule : List BridgeAction) :
    (Schedule.run Process.bridgeStep (start accepts coming)
        schedule).Outbound ∧
      (Schedule.run Process.bridgeStep (start accepts coming)
        schedule).Commands :=
  Schedule.Along.invariant
    (I := fun state => Outbound state ∧ Commands state)
    (fun _ action hBoth _ =>
      ⟨hBoth.1.bridgeStep action,
        hBoth.2.bridgeStep hBoth.1 action⟩)
    (Schedule.along_true _ schedule)
    ⟨outbound_start accepts coming,
      List.forall_mem_nil _, .inl rfl⟩

------------------------------------------------------------
-- To The Ports
------------------------------------------------------------

/- What the bridge has put on the vendor channel. -/
def channelBytes (bridge : Bridge) : List UInt8 :=
  bridge.link.written.flatten ++ bridge.cut ++ bridge.socket

/-
  The channel begins whole packets; those that are there whole
  are commands and packets for the controller.
-/
structure Begins
    (bridge : Bridge)
    (whole : List (List UInt8)) : Prop where
  admissible : ∀ packet ∈ whole, hostRule.Admissible packet
  channel : bridge.channelBytes <+: whole.flatten
  forwarded :
    (bridge.link.written ++ bridge.forwarded).flatten <+:
      bridge.channelBytes
  frames :
    ∀ frames, frames <+: whole →
      frames.flatten <+: bridge.channelBytes →
        frames <+:
          bridge.link.written ++ toController bridge.packets

theorem admissible_of_takes
    {bridge : Bridge}
    {packet : List UInt8}
    (hTakes : bridge.Takes packet) :
    hostRule.Admissible packet := by
  rcases hTakes with ⟨buffers, _, hValid⟩
  exact admissible_of_validateHostFrame hValid

/- What is left of the packets begins at most one. -/
theorem Left.begun
    {bridge : Bridge}
    {rest : List (List UInt8)}
    {left : List UInt8}
    (hLeft : bridge.Left rest left) :
    ∃ others,
      left <+: others.flatten ∧ others <+: rest ∧
        ∀ packet ∈ others, bridge.Takes packet := by
  have hOne :
      ∀ {packet : List UInt8} {count : Nat},
        bridge.Takes packet →
        packet.take count <+: [packet].flatten ∧
          [packet] <+: [packet] ∧
          ∀ other ∈ [packet], bridge.Takes other := by
    intro packet count hTakes
    refine ⟨?_, List.prefix_rfl, ?_⟩
    · simpa using List.take_prefix count packet
    · intro other hOther
      rw [List.mem_singleton.mp hOther]
      exact hTakes
  rcases hLeft with ⟨rfl, rfl, _⟩ |
    ⟨_, packet, call, _, rfl, rfl, _, hTakes⟩ |
    ⟨packet, count, _, rfl, rfl, _, hTakes⟩
  · exact ⟨[], List.prefix_rfl, List.prefix_rfl, by simp⟩
  · exact ⟨[packet], hOne hTakes⟩
  · rcases Nat.eq_zero_or_pos count with rfl | hPos
    · exact ⟨[], by simp, List.nil_prefix, by simp⟩
    · exact ⟨[packet], hOne (hTakes hPos)⟩

/- In every run it does. -/
theorem Outbound.begins
    {bridge : Bridge}
    (hOutbound : bridge.Outbound)
    (hCommands : bridge.Commands) :
    ∃ whole, bridge.Begins whole := by
  have hWritten :
      ∀ packet ∈ bridge.link.written,
        hostRule.Admissible packet :=
    fun packet hPacket =>
      admissible_of_isCommand
        (hCommands.written packet hPacket)
  rcases hCommands.cut with hNone |
    ⟨_, hPackets, hForwarded, hSocket, packet, hPacket, hPart,
      hLess⟩
  · -- every command is there whole
    rcases hOutbound.stream with
      ⟨rest, left, hSocket, hPackets, hLeft⟩
    rcases hLeft.begun with ⟨others, hPart, hOthers, hTakes⟩
    have hChannel :
        bridge.channelBytes =
          (bridge.link.written ++ bridge.forwarded).flatten ++
            left := by
      rw [channelBytes, hNone, List.append_nil, hSocket,
        List.flatten_append, List.append_assoc]
    refine
      ⟨bridge.link.written ++ bridge.forwarded ++ others,
        ?_, ?_, ?_, ?_⟩
    · intro packet hPacket
      rcases List.mem_append.mp hPacket with hPacket | hPacket
      · rcases List.mem_append.mp hPacket with hPacket | hPacket
        · exact hWritten packet hPacket
        · exact
            admissible_of_takes (hOutbound.takes packet hPacket)
      · exact admissible_of_takes (hTakes packet hPacket)
    · rw [hChannel, @List.flatten_append _ _ others]
      exact (List.prefix_append_right_inj _).mpr hPart
    · rw [hChannel]
      exact List.prefix_append _ _
    · intro frames hFrames _
      refine hFrames.trans ?_
      rw [hPackets, List.append_assoc]
      exact
        (List.prefix_append_right_inj _).mpr
          ((List.prefix_append_right_inj _).mpr hOthers)
  · -- the last command is not, and nothing follows it
    have hChannel :
        bridge.channelBytes =
          bridge.link.written.flatten ++ bridge.cut := by
      rw [channelBytes, hSocket, List.append_nil]
    refine ⟨bridge.link.written ++ [packet], ?_, ?_, ?_, ?_⟩
    · intro other hOther
      rcases List.mem_append.mp hOther with hOther | hOther
      · exact hWritten other hOther
      · rw [List.mem_singleton.mp hOther]
        exact admissible_of_isCommand hPacket
    · rw [hChannel, List.flatten_append, List.flatten_singleton]
      exact (List.prefix_append_right_inj _).mpr hPart
    · rw [hChannel, hForwarded, List.append_nil]
      exact List.prefix_append _ _
    · intro frames hFrames hBytes
      rw [hPackets]
      refine List.IsPrefix.trans ?_ (List.prefix_append _ _)
      refine (List.prefix_concat_iff.mp hFrames).resolve_left ?_
      rintro rfl
      have hLength := hBytes.length_le
      rw [hChannel] at hLength
      simp only [List.flatten_append, List.flatten_singleton,
        List.length_append] at hLength
      omega

/-
  The library has handed on the packets whose bytes it has got,
  each whole and to its port: a part of the commands of the
  bridge and the packets the kernel has sent to the controller,
  in that order, and all that were forwarded when it has got
  all bytes. The rest is in its stream.
-/
structure HandedOn
    (bridge : Bridge)
    (sdio : Bool)
    (bytes : List UInt8)
    (receiver : Receiver (List (BtComPort × List UInt8))) :
    Prop where
  running : receiver.running = true
  handed : ∃ sent,
    receiver.done =
        sent.map (fun packet => (packetPort sdio packet, packet)) ∧
      bytes = sent.flatten ++ receiver.stream ∧
      sent <+: bridge.link.written ++ toController bridge.packets ∧
      (bytes = bridge.channelBytes →
        bridge.link.written ++ bridge.forwarded <+: sent)

end Bridge

/- System calls that go well, two bytes a write. -/
def plainAnswer : MainAnswer where
  ok := true
  text :=
    some
      (pairsText
        [(0x30, 0x61), (0x31, 0x62), (0x32, 0x63), (0x33, 0x64),
          (0x34, 0x65), (0x35, 0x66)])
  seen := false
  count := 0
  command := true
  event := true
  distinct := 1
  delay := .elapsed
  poll := .events ⟨false, true, false⟩
  read := .data [1, 3, 12, 0]
  send := .sent 2
  wait := .events false true

/- What a controller sends that takes the address. -/
def plainChannel : Channel :=
  [.data (commandComplete 1 hciWriteBdAddr []),
    .data (commandComplete 1 hciReset []),
    .data
      (commandComplete 1 hciReadBdAddr
        [0x5f, 0x4e, 0x3d, 0x2c, 0x1b, 0x0a]),
    .data
      (commandComplete 1 hciReadBufferSize
        [27, 0, 60, 8, 0, 4, 0])]

/- A run that forwards a packet. -/
def plainRun : Bridge :=
  Schedule.run bridgeStep
    (.start [true, true, true, true] plainChannel)
    (List.replicate 19 (.main plainAnswer))

/- The channel of that run, cut into three reads. -/
def plainReplies : List ReadReply :=
  [.data [1, 130, 252, 6, 95], .again,
    .data
      [78, 61, 44, 27, 10, 1, 3, 12, 0, 1, 9, 16, 0, 1, 5, 16,
        0, 1, 3],
    .data [12, 0]]

end Process

end Bluetooth

end MicaBoards
