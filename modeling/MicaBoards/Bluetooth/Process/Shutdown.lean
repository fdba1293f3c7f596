import MicaBoards.Bluetooth.Process.Inbound

/-
  The bridge stops. Once a signal has arrived, or a thread has
  stopped the bridge, the threads leave their loops and the
  process ends, after a number of steps of each that does not
  depend on what the system calls return.

  Key definitions include:
    * `Control.Asked`, `Bridge.Asked`
    * `mainRank`, `readerRank`
    * `Bridge.Told`
  Main declarations:
    * `bridge_stops`
-/

------------------------------------------------------------
-- A Stop That Is Asked For
------------------------------------------------------------

namespace MicaBoards

namespace Bluetooth

namespace Process

/-
  The bridge is stopped, or a signal is in the pipe, or has
  been read and the stop not yet stored.
-/
def Control.Asked (control : Control) (requests : Prop) : Prop :=
  control.running = false ∨ control.signalled = true ∨ requests

/- It stays asked for. -/
theorem Control.Asked.moves
    {control next : Control}
    {before after : Prop}
    (hAsked : control.Asked before)
    (hMoves : control.Moves before after next) :
    next.Asked after := by
  cases hMoves with
  | stays hBefore _ =>
      exact hAsked.imp_right fun h => .inl (h.resolve_right hBefore)
  | drains _ _ hAfter => exact .inr (.inr hAfter)
  | fails hBefore _ =>
      exact hAsked.imp_right fun h => .inl (h.resolve_right hBefore)
  | stops _ => exact .inl rfl

/- Without a signal, the bridge is stopped. -/
theorem Control.Asked.running
    {control : Control}
    {requests : Prop}
    (hAsked : control.Asked requests)
    (hRequests : ¬ requests)
    (hSignalled : control.signalled = false) :
    control.running = false := by
  refine hAsked.resolve_right ?_
  rw [hSignalled]
  exact not_or.mpr ⟨Bool.false_ne_true, hRequests⟩

------------------------------------------------------------
-- Writes
------------------------------------------------------------

/-
  How many steps a write takes at most, when so many bytes may
  each take one.
-/
def callRank (slack : Nat) (running : Bool) : CallPc → Nat
| .write => 5 + slack
| .wait => 4
| .consume _ => 3
| .request _ => 2
| .check _ => if running then 6 + slack else 1
| .returned _ => 0

/- A step takes it nearer to its end. -/
theorem callRank_lowers
    {took : Nat → Call → Nat → Call}
    {length : Nat}
    {slack : Nat → Nat}
    {control : Control}
    {call : Call}
    (hTook : ∀ count,
      0 < count ∨ length ≤ call.done →
      callRank (slack (took length call count).done)
          control.running (took length call count).pc <
        5 + slack call.done)
    (hAsked : control.Asked call.pc.Requests)
    (hGoes : ∀ ok, call.pc ≠ .returned ok)
    (send : SendReply)
    (wait : WaitReply) :
    let next := callStep took length control call send wait
    callRank (slack next.2.done) next.1.running next.2.pc <
      callRank (slack call.done) control.running call.pc := by
  rcases call with ⟨done, pc⟩
  cases pc with
  | returned ok => exact absurd rfl (hGoes ok)
  | write =>
      rcases send with (_ | count) | _ | _ | _ | _
      · simp only [callStep, callRank]
        omega
      · refine hTook _ ?_
        simp only
        omega
      all_goals
        simp only [callStep, callRank]
        omega
  | wait =>
      cases wait with
      | interrupted => simp [callStep, callRank]
      | failed => simp [callStep, callRank]
      | events broken writable =>
          cases hSignalled : control.signalled with
          | true => simp [callStep, callRank, hSignalled]
          | false =>
              have hStopped := hAsked.running id hSignalled
              simp [callStep, callRank, hSignalled, hStopped]
  | consume next =>
      cases hSignalled : control.signalled with
      | true => simp [callStep, callRank, hSignalled]
      | false =>
          have hStopped := hAsked.running id hSignalled
          simp [callStep, callRank, hSignalled, hStopped]
  | request next => simp [callStep, callRank, Control.stop]
  | check next =>
      cases hRunning : control.running with
      | false => simp [callStep, callRank, hRunning]
      | true =>
          cases next with
          | write => simp [callStep, callRank, hRunning]
          | wait =>
              simp only [callStep, callRank, hRunning,
                Bool.true_eq_false, if_false, if_true]
              omega
          | broken =>
              simp only [callStep, callRank, hRunning,
                Bool.true_eq_false, if_false, if_true]
              omega

/- Bytes that `write_all` has written are not written again. -/
theorem writeAllTook_lowers
    {length : Nat}
    {call : Call}
    (running : Bool)
    {count : Nat}
    (hCount : 0 < count ∨ length ≤ call.done) :
    callRank (length - (writeAllTook length call count).done)
        running (writeAllTook length call count).pc <
      5 + (length - call.done) := by
  unfold writeAllTook
  simp only
  split_ifs with hMore
  · simp only [callRank]
    omega
  · simp only [callRank]
    omega

/- `write_vhci_frame` writes once. -/
theorem writeVhciFrameTook_lowers
    {length : Nat}
    {call : Call}
    (running : Bool)
    (count : Nat) :
    callRank 0 running (writeVhciFrameTook length call count).pc <
      5 + 0 := by
  simp [writeVhciFrameTook, callRank]

------------------------------------------------------------
-- The Main Thread
------------------------------------------------------------

/- How many steps an attempt to open the channels leaves. -/
def attemptRank (attempt : Nat) : Nat :=
  1110 + 10 * (vendorOpenAttempts - attempt)

/- How many it leaves, once stopped, past a look for signals. -/
def lookRank : MainLook → Nat
| .delayCheck attempt _ => attemptRank attempt + 3
| .cleanup => 4
| .loop => 8
| .check _ => 8

/-
  How many steps the main thread takes at most until it has
  ended, not counting those in which it waits for the other.
-/
def mainRank (running : Bool) : MainPc → Nat
| .signals => 1265
| .bdaddr => 1264
| .dlopen => 1263
| .dlsym => 1262
| .vendorInit => 1261
| .powerCtrl => 1260
| .userialOpen attempt => attemptRank attempt + 9
| .userialClose attempt => attemptRank attempt + 8
| .retry attempt => attemptRank attempt + 7
| .delay attempt => attemptRank attempt + 6
| .delayCheck attempt _ => attemptRank attempt + 3
| .channels => 1104
| .address => 1103
| .bufferSizes => 1102
| .openVhci => 1101
| .createReader => 1100
| .check _ => if running then 1048 else 8
| .read _ => 1047
| .write _ packet call =>
    13 + callRank (packet.length - call.done) running call.pc
| .loop => if running then 12 else 8
| .poll => 11
| .consume next => lookRank next + 2
| .request next => lookRank next + 1
| .writeFailed => 10
| .fail continues => if continues then 10 else 9
| .stop continues => if continues then 9 else 8
| .requestShutdown => 7
| .join => 6
| .closeVhci _ => 5
| .closeChannels _ => 4
| .epilog _ => 3
| .dlclose _ => 2
| .closeSignals _ => 1
| .exited _ => 0

/- Once the bridge is stopped, a look leaves what it says. -/
theorem mainRank_pc (next : MainLook) :
    mainRank false next.pc = lookRank next := by
  cases next <;> rfl

/- The number of the attempt, and a packet, have a limit. -/
def MainPc.Bounded : MainPc → Prop
| .userialOpen attempt => attempt ≤ vendorOpenAttempts
| .userialClose attempt => attempt ≤ vendorOpenAttempts
| .retry attempt => attempt ≤ vendorOpenAttempts
| .delay attempt => attempt < vendorOpenAttempts
| .delayCheck attempt _ => attempt < vendorOpenAttempts
| .consume (.delayCheck attempt _) =>
    attempt < vendorOpenAttempts
| .request (.delayCheck attempt _) =>
    attempt < vendorOpenAttempts
| .write _ packet _ => packet.length ≤ skwH4KernelMaxFrame
| _ => True

/- A step of the main thread keeps it. -/
theorem bounded_mainStep
    {bridge : Bridge}
    (hBounded : bridge.main.Bounded)
    (answer : MainAnswer) :
    (mainStep bridge answer).main.Bounded := by
  unfold mainStep
  cases hMain : bridge.main
  case powerCtrl =>
    show 1 ≤ 15
    decide
  case retry attempt =>
    rw [hMain] at hBounded
    simp only
    split_ifs with hLast
    · trivial
    · rw [not_or] at hLast
      exact Nat.lt_of_le_of_ne hBounded hLast.1
  case read hangup =>
    simp only
    split
    · trivial
    · trivial
    · split_ifs
      · trivial
      · rename_i piece _ _
        rcases packetStep_cases bridge hangup
            (piece.take skwH4KernelMaxFrame) with
          ⟨_, pc, rfl | rfl, hStep⟩ |
            ⟨_, hStep | ⟨_, _, _, _, hStep⟩⟩
        · rw [hStep]
          trivial
        · rw [hStep]
          trivial
        · rw [hStep]
          trivial
        · rw [hStep]
          exact List.length_take_le _ _
  case consume next =>
    rw [hMain] at hBounded
    simp only [Bridge.look]
    cases next <;> split_ifs <;> trivial
  case request next =>
    rw [hMain] at hBounded
    cases next <;> trivial
  case address =>
    simp only
    repeat' split
    · trivial
    · trivial
    · cases answer.seen <;> trivial
  case bufferSizes =>
    simp only
    repeat' split
    · trivial
    · trivial
    · cases answer.seen <;> trivial
  all_goals
    rw [hMain] at hBounded
    simp only
    repeat' split
    all_goals
      first
      | trivial
      | exact hBounded
      | exact hMain ▸ hBounded

/- A bound for them. -/
theorem mainRank_lt
    {pc : MainPc}
    (hBounded : pc.Bounded)
    (running : Bool) :
    mainRank running pc < 1300 := by
  have hAttempts : vendorOpenAttempts = 15 := rfl
  have hKernel : skwH4KernelMaxFrame = 1028 := rfl
  cases pc
  case write hangup packet call =>
    have hLength : packet.length ≤ 1028 := hBounded
    have hCall :
        callRank (packet.length - call.done) running call.pc ≤
          6 + packet.length := by
      cases call.pc
      case check next =>
        simp only [callRank]
        split_ifs <;> omega
      all_goals
        simp only [callRank]
        omega
    simp only [mainRank]
    omega
  case consume next =>
    cases next <;>
      simp only [mainRank, lookRank, attemptRank] <;> omega
  case request next =>
    cases next <;>
      simp only [mainRank, lookRank, attemptRank] <;> omega
  all_goals
    simp only [mainRank, attemptRank]
    (try split_ifs) <;> omega

/- When the bridge is stopped there are no more steps left. -/
theorem mainRank_le
    {running running' : Bool}
    (hStops : running = false → running' = false)
    (pc : MainPc) :
    mainRank running' pc ≤ mainRank running pc := by
  cases running with
  | true =>
      cases running' with
      | true => exact le_refl _
      | false =>
          cases pc
          case write hangup packet call =>
            simp only [mainRank]
            cases call.pc
            case check next =>
              simp only [callRank, if_true, Bool.false_eq_true,
                if_false]
              omega
            all_goals exact le_refl _
          all_goals simp [mainRank]
  | false =>
      rw [hStops rfl]

theorem mainRank_loop_le (running : Bool) :
    mainRank running .loop ≤ 12 := by
  cases running <;> decide

/- A packet is dropped, refused, or written in so many steps. -/
theorem mainRank_packetStep
    (bridge : Bridge)
    (hangup : Bool)
    (packet : List UInt8) :
    let next := packetStep bridge hangup packet
    mainRank next.control.running next.main ≤
      18 + packet.length := by
  have hLoop := mainRank_loop_le bridge.control.running
  rcases packetStep_cases bridge hangup packet with
    ⟨_, pc, rfl | rfl, hStep⟩ |
      ⟨_, hStep | ⟨_, _, _, _, hStep⟩⟩
  · rw [hStep]
    show 10 ≤ _
    omega
  · rw [hStep]
    show mainRank bridge.control.running .loop ≤ _
    omega
  · rw [hStep]
    show 9 ≤ _
    omega
  · rw [hStep]
    simp only [Bridge.goto, mainRank, Call.writeAll]
    split_ifs
    · simp only [callRank]
      omega
    · simp only [callRank]
      omega

/- So is a command that has failed. -/
theorem mainRank_refuse
    (bridge : Bridge)
    (seen : Bool) :
    mainRank (bridge.refuse seen).control.running
        (bridge.refuse seen).main ≤
      6 := by
  cases seen with
  | false => exact Nat.le_of_ble_eq_true rfl
  | true => exact le_refl 6

/- Each step leaves fewer, unless the thread waits or has ended. -/
theorem mainRank_lowers
    {bridge : Bridge}
    (hAsked : bridge.control.Asked bridge.main.Requests)
    (hBounded : bridge.main.Bounded)
    {answer : MainAnswer}
    (hEnds : ∀ status, bridge.main ≠ .exited status)
    (hJoins :
      bridge.main = .join →
        answer.ok = false ∨ bridge.reader = .exited) :
    let next := mainStep bridge answer
    mainRank next.control.running next.main <
      mainRank bridge.control.running bridge.main := by
  have hLoop := mainRank_loop_le bridge.control.running
  have hAttempts : vendorOpenAttempts = 15 := rfl
  unfold mainStep
  cases hMain : bridge.main
  all_goals rw [hMain] at hAsked
  case consume next =>
    simp only [Bridge.look]
    split_ifs with hSignalled
    · exact Nat.lt_succ_self _
    · rw [Bool.not_eq_true] at hSignalled
      show
        mainRank bridge.control.running next.pc <
          lookRank next + 2
      rw [hAsked.running id hSignalled, mainRank_pc]
      omega
  case request next =>
    show mainRank false next.pc < lookRank next + 1
    rw [mainRank_pc]
    omega
  case address =>
    have hSix : 6 < 1103 := by omega
    simp only
    split
    · exact Nat.lt_of_le_of_lt (mainRank_refuse _ _) hSix
    · split
      · show 1102 < 1103
        omega
      · exact Nat.lt_of_le_of_lt (mainRank_refuse _ _) hSix
  case bufferSizes =>
    have hSix : 6 < 1102 := by omega
    simp only
    split
    · split
      · show 1101 < 1102
        omega
      · exact Nat.lt_of_le_of_lt (mainRank_refuse _ _) hSix
    · exact Nat.lt_of_le_of_lt (mainRank_refuse _ _) hSix
  case write hangup packet call =>
    have hGo :
        (∀ ok, call.pc ≠ .returned ok) →
        let next := bridge.mainWrite hangup packet call answer
        mainRank next.control.running next.main <
          mainRank bridge.control.running
            (.write hangup packet call) := by
      intro hOn
      have hLower :=
        @callRank_lowers writeAllTook packet.length
          (fun done => packet.length - done) bridge.control call
          (fun count hCount =>
            writeAllTook_lowers bridge.control.running hCount)
          hAsked hOn answer.send answer.wait
      exact Nat.add_lt_add_left hLower 13
    rcases call with ⟨done, pc⟩
    cases pc with
    | returned ok =>
        cases ok with
        | false =>
            show 10 < 13 + 0
            omega
        | true =>
            simp only
            split_ifs
            · show 9 < 13 + 0
              omega
            · show mainRank bridge.control.running .loop < 13 + 0
              omega
    | write => exact hGo (by simp)
    | wait => exact hGo (by simp)
    | consume next => exact hGo (by simp)
    | request next => exact hGo (by simp)
    | check next => exact hGo (by simp)
  case read hangup =>
    simp only
    split
    · show mainRank bridge.control.running .loop < 1047
      omega
    · show 9 < 1047
      omega
    · rename_i piece _
      split_ifs
      · show 9 < 1047
        omega
      · have hPacket :=
          mainRank_packetStep bridge hangup
            (piece.take skwH4KernelMaxFrame)
        have hLength :=
          List.length_take_le skwH4KernelMaxFrame piece
        have hKernel : skwH4KernelMaxFrame = 1028 := rfl
        refine Nat.lt_of_le_of_lt hPacket ?_
        show _ < 1047
        omega
  case poll =>
    simp only
    split
    · show 10 < 11
      omega
    · show 9 < 11
      omega
    · split_ifs with hSignalled
      · show 10 < 11
        omega
      · rw [Bool.not_eq_true] at hSignalled
        show mainRank bridge.control.running (.check _) < 11
        rw [hAsked.running id hSignalled]
        show 8 < 11
        omega
  case fail continues =>
    show
      (if continues then 9 else 8) < if continues then 10 else 9
    split_ifs <;> omega
  case stop continues =>
    cases continues with
    | true =>
        show 8 < 9
        omega
    | false =>
        show 7 < 8
        omega
  case exited status => exact absurd hMain (hEnds status)
  case join =>
    simp only
    split_ifs with hOk hReader
    · show 5 < 6
      omega
    · show 5 < 6
      omega
    · exact ((hJoins hMain).elim hOk hReader).elim
  all_goals
    rw [hMain] at hBounded
    clear hEnds hJoins
    simp only
    repeat' split
    all_goals
      simp_all only [mainRank, lookRank, MainPc.Bounded,
        Bridge.goto, Bridge.setControl, Bridge.perform,
        attemptRank, if_true,
        Bool.false_eq_true, if_false]
      try omega

------------------------------------------------------------
-- The Reader Thread
------------------------------------------------------------

/- How many steps the events of a descriptor leave. -/
def eventRank : Nat := 50000

/-
  How many steps the reader thread takes at most until it has
  ended, with so many bytes in its streams.
-/
def readerRank
    (running : Bool)
    (held : Nat → Nat) : ReaderPc → Nat
| .idle => 0
| .start => 7
| .loop => if running then 6 else 1
| .poll => 5
| .consume _ => 3
| .request _ => 2
| .check events =>
    if running then 8 + eventRank * events.length else 1
| .channels _ events => 7 + eventRank * events.length
| .decode turn =>
    18 + 12 * held turn.index + eventRank * turn.later.length
| .write turn _ call =>
    12 + 12 * held turn.index + eventRank * turn.later.length +
      callRank 0 running call.pc
| .writeFailed turn => 11 + eventRank * turn.later.length
| .fail none => 3
| .fail (some turn) => 10 + eventRank * turn.later.length
| .stop none => 2
| .stop (some turn) => 9 + eventRank * turn.later.length
| .handled turn => 8 + eventRank * turn.later.length
| .exited => 0

/- There are no more events than descriptors. -/
def ReaderPc.Bounded : ReaderPc → Prop
| .consume (.check events) => events.length ≤ chMax
| .request (.check events) => events.length ≤ chMax
| .check events => events.length ≤ chMax
| .channels _ events => events.length ≤ chMax
| .decode turn => turn.later.length < chMax
| .write turn _ _ => turn.later.length < chMax
| .writeFailed turn => turn.later.length < chMax
| .handled turn => turn.later.length < chMax
| .fail (some turn) => turn.later.length < chMax
| .stop (some turn) => turn.later.length < chMax
| _ => True

/- What bounds the steps that are left, in every run. -/
structure Bridge.Bounded (bridge : Bridge) : Prop where
  main : bridge.main.Bounded
  reader : bridge.reader.Bounded
  nfds : bridge.nfds ≤ chMax
  streams : ∀ i,
    (bridge.streams i).length ≤ skwH4StreamCapacity

def Bridge.held (bridge : Bridge) (i : Nat) : Nat :=
  (bridge.streams i).length

theorem readerRank_le
    {running running' : Bool}
    (hStops : running = false → running' = false)
    (held : Nat → Nat)
    (pc : ReaderPc) :
    readerRank running' held pc ≤ readerRank running held pc := by
  cases running with
  | true =>
      cases running' with
      | true => exact le_refl _
      | false =>
          cases pc
          case write turn frame call =>
            simp only [readerRank]
            cases call.pc
            case check next =>
              simp only [callRank, if_true, Bool.false_eq_true,
                if_false]
              omega
            all_goals exact le_refl _
          case fail turn => cases turn <;> exact le_refl _
          case stop turn => cases turn <;> exact le_refl _
          case check events =>
            simp only [readerRank, if_true, Bool.false_eq_true,
              if_false]
            omega
          all_goals simp [readerRank]
  | false =>
      rw [hStops rfl]

/- A bound for them. -/
theorem readerRank_lt
    {bridge : Bridge}
    (hBounded : bridge.Bounded) :
    readerRank bridge.control.running bridge.held bridge.reader <
      5 * eventRank := by
  have hReader := hBounded.reader
  have hMax : chMax = 4 := rfl
  have hCapacity : skwH4StreamCapacity = 4096 := rfl
  have hCall :
      ∀ (running : Bool) (pc : CallPc), callRank 0 running pc ≤ 6 := by
    intro running pc
    cases pc
    case check next =>
      simp only [callRank]
      split_ifs <;> omega
    all_goals
      simp only [callRank]
      omega
  cases hPc : bridge.reader
  case decode turn =>
    have hHeld := hBounded.streams turn.index
    rw [hPc] at hReader
    simp only [readerRank, eventRank, Bridge.held,
      ReaderPc.Bounded] at *
    omega
  case write turn frame call =>
    have hHeld := hBounded.streams turn.index
    have hLeft := hCall bridge.control.running call.pc
    rw [hPc] at hReader
    simp only [readerRank, eventRank, Bridge.held,
      ReaderPc.Bounded] at *
    omega
  case fail turn =>
    rw [hPc] at hReader
    cases turn with
    | none =>
        simp only [readerRank, eventRank]
        omega
    | some turn =>
        simp only [readerRank, eventRank, ReaderPc.Bounded] at *
        omega
  case stop turn =>
    rw [hPc] at hReader
    cases turn with
    | none =>
        simp only [readerRank, eventRank]
        omega
    | some turn =>
        simp only [readerRank, eventRank, ReaderPc.Bounded] at *
        omega
  all_goals
    rw [hPc] at hReader
    simp only [readerRank, eventRank, ReaderPc.Bounded] at *
    (try split_ifs) <;> omega

/- The thread goes on without reading or dropping a byte. -/
theorem Bridge.Bounded.readerGoto
    {bridge : Bridge}
    (hBounded : bridge.Bounded)
    (control : Control)
    {pc : ReaderPc}
    (hPc : pc.Bounded) :
    ((bridge.setControl control).readerGoto pc).Bounded :=
  ⟨hBounded.main, hPc, hBounded.nfds, hBounded.streams⟩

/- Its streams do not grow when it drops a frame. -/
theorem Bridge.Bounded.dropFrame
    {bridge : Bridge}
    (hBounded : bridge.Bounded)
    (i size : Nat)
    {pc : ReaderPc}
    (hPc : pc.Bounded) :
    ((bridge.dropFrame i size).readerGoto pc).Bounded := by
  refine ⟨hBounded.main, hPc, hBounded.nfds, fun j => ?_⟩
  by_cases hEq : j = i
  · subst hEq
    have hHeld := hBounded.streams j
    simp only [Bridge.readerGoto, Bridge.dropFrame,
      Function.update_self, List.length_drop]
    omega
  · simpa [Bridge.readerGoto, Bridge.dropFrame,
      Function.update_of_ne hEq] using hBounded.streams j

theorem Bridge.Bounded.receive
    {bridge : Bridge}
    (hBounded : bridge.Bounded)
    {i : Nat}
    {piece : List UInt8}
    (hRoom :
      (bridge.streams i).length + piece.length ≤
        skwH4StreamCapacity)
    {pc : ReaderPc}
    (hPc : pc.Bounded) :
    ((bridge.receive i piece).readerGoto pc).Bounded := by
  refine ⟨hBounded.main, hPc, hBounded.nfds, fun j => ?_⟩
  by_cases hEq : j = i
  · subst hEq
    simpa [Bridge.readerGoto, Bridge.receive] using hRoom
  · simpa [Bridge.readerGoto, Bridge.receive,
      Function.update_of_ne hEq] using hBounded.streams j

/-
  Where the thread goes with less left, whether or not the
  bridge is stopped
-/
inductive ReaderPc.Jump : ReaderPc → ReaderPc → Prop where
| begins : Jump .start .loop
| noChannels : Jump .start (.fail none)
| interrupted : Jump .poll (.consume .loop)
| failedPoll : Jump .poll (.fail none)
| polled
    {events : List ChannelEvent}
    (hEvents : events.length ≤ chMax) :
    Jump .poll (.consume (.check events))
| noEvents (index : Nat) : Jump (.channels index []) .loop
| failedRead (index : Nat) (events : List ChannelEvent) :
    Jump (.channels index events) (.fail none)
| noBytes
    (index : Nat)
    (event : ChannelEvent)
    (later : List ChannelEvent) :
    Jump (.channels index (event :: later))
      (.channels (index + 1) later)
| decoded (turn : ChannelTurn) :
    Jump (.decode turn) (.handled turn)
| refused (turn : ChannelTurn) :
    Jump (.decode turn) (.fail (some turn))
| writes (turn : ChannelTurn) (frame : List UInt8) :
    Jump (.decode turn) (.write turn frame .writeVhciFrame)
| failedWrite
    (turn : ChannelTurn)
    (frame : List UInt8)
    (call : Call) :
    Jump (.write turn frame call) (.writeFailed turn)
| fails (turn : ChannelTurn) :
    Jump (.writeFailed turn) (.fail (some turn))
| leaves (turn : ChannelTurn) :
    Jump (.writeFailed turn) (.handled turn)
| stopped (turn : ChannelTurn) : Jump (.handled turn) .loop
| hangsUp (turn : ChannelTurn) :
    Jump (.handled turn) (.fail none)
| goesOn (turn : ChannelTurn) :
    Jump (.handled turn)
      (.channels (turn.index + 1) turn.later)
| recorded (turn : Option ChannelTurn) :
    Jump (.fail turn) (.stop turn)

theorem ReaderPc.Jump.bounded
    {pc next : ReaderPc}
    (hJump : pc.Jump next)
    (hBounded : pc.Bounded) :
    next.Bounded := by
  cases hJump
  case polled hEvents => exact hEvents
  case noBytes => exact Nat.le_of_lt hBounded
  case goesOn => exact Nat.le_of_lt hBounded
  case recorded turn => cases turn <;> exact hBounded
  all_goals trivial

theorem ReaderPc.Jump.lowers
    {pc next : ReaderPc}
    (hJump : pc.Jump next)
    (running : Bool)
    (held : Nat → Nat) :
    readerRank running held next <
      readerRank running held pc := by
  cases hJump
  case recorded turn =>
    cases turn <;> simp only [readerRank] <;> omega
  case noBytes =>
    simp only [readerRank, List.length_cons, eventRank]
    omega
  all_goals
    simp only [readerRank, Call.writeVhciFrame, callRank]
    (try split_ifs) <;> omega

/- A step of the reader thread. -/
structure ReaderNext (bridge next : Bridge) : Prop where
  bounded : next.Bounded
  lowers :
    bridge.control.Asked bridge.reader.Requests →
      bridge.reader ≠ .idle → bridge.reader ≠ .exited →
      readerRank next.control.running next.held next.reader <
        readerRank bridge.control.running bridge.held
          bridge.reader

/- It only goes to another place. -/
theorem readerNext_readerGoto
    {bridge : Bridge}
    (hBounded : bridge.Bounded)
    {pc next : ReaderPc}
    (hPc : bridge.reader = pc)
    (control : Control)
    (hNext : next.Bounded)
    (hLowers :
      bridge.control.Asked pc.Requests →
      readerRank control.running bridge.held next <
        readerRank bridge.control.running bridge.held pc) :
    ReaderNext bridge
      ((bridge.setControl control).readerGoto next) := by
  subst hPc
  exact
    ⟨hBounded.readerGoto control hNext,
      fun hAsked _ _ => hLowers hAsked⟩

theorem readerNext_jump
    {bridge : Bridge}
    (hBounded : bridge.Bounded)
    {pc next : ReaderPc}
    (hPc : bridge.reader = pc)
    (hJump : pc.Jump next) :
    ReaderNext bridge (bridge.readerGoto next) :=
  readerNext_readerGoto hBounded hPc bridge.control
    (hJump.bounded (hPc ▸ hBounded.reader))
    fun _ => hJump.lowers _ _

/- Once the bridge is stopped, a look leaves one step. -/
theorem readerRank_pc
    (held : Nat → Nat)
    (next : ReaderLook) :
    readerRank false held next.pc = 1 := by
  cases next <;> rfl

/- A frame is taken off a stream. -/
theorem readerNext_dropFrame
    {bridge : Bridge}
    (hBounded : bridge.Bounded)
    {turn : ChannelTurn}
    {pc : ReaderPc}
    (hPc : bridge.reader = pc)
    {size : Nat}
    (hTurn : turn.later.length < chMax)
    (hSize :
      1 ≤ size ∧ size ≤ (bridge.streams turn.index).length)
    (hLeft :
      ∀ running,
        12 + 12 * bridge.held turn.index +
            eventRank * turn.later.length ≤
          readerRank running bridge.held pc) :
    ReaderNext bridge
      ((bridge.dropFrame turn.index size).readerGoto
        (.decode turn)) := by
  subst hPc
  refine
    ⟨hBounded.dropFrame turn.index size hTurn,
      fun _ _ _ => ?_⟩
  have hLeft := hLeft bridge.control.running
  simp only [Bridge.readerGoto, Bridge.dropFrame, readerRank,
    Bridge.held, Function.update_self, List.length_drop]
    at hLeft ⊢
  omega

/- Each step leaves fewer, until the thread ends. -/
theorem readerNext_readerStep
    {bridge : Bridge}
    (hInbound : bridge.Inbound)
    (hBounded : bridge.Bounded)
    (answer : ReaderAnswer) :
    ReaderNext bridge (readerStep bridge answer) := by
  have hReader := hBounded.reader
  unfold readerStep
  cases hPc : bridge.reader with
  | idle => exact ⟨hBounded, fun _ h _ => absurd hPc h⟩
  | exited => exact ⟨hBounded, fun _ _ h => absurd hPc h⟩
  | start =>
      simp only
      split_ifs
      · exact readerNext_jump hBounded hPc .noChannels
      · exact readerNext_jump hBounded hPc .begins
  | loop =>
      simp only
      split_ifs with hRunning
      · refine
          readerNext_readerGoto hBounded hPc bridge.control
            trivial fun _ => ?_
        rw [hRunning]
        show 5 < 6
        omega
      · rw [Bool.not_eq_true] at hRunning
        refine
          readerNext_readerGoto hBounded hPc bridge.control
            trivial fun _ => ?_
        rw [hRunning]
        show 0 < 1
        omega
  | poll =>
      cases answer.poll with
      | interrupted =>
          exact readerNext_jump hBounded hPc .interrupted
      | failed => exact readerNext_jump hBounded hPc .failedPoll
      | events events =>
          refine readerNext_jump hBounded hPc (.polled ?_)
          rw [List.length_take]
          have hNfds := hBounded.nfds
          omega
  | consume next =>
      rw [hPc] at hReader
      simp only [Bridge.readerLook]
      split_ifs with hSignalled
      · refine
          readerNext_readerGoto hBounded hPc _ ?_ fun _ => ?_
        · cases next <;> trivial
        · show 2 < 3
          omega
      · rw [Bool.not_eq_true] at hSignalled
        refine
          readerNext_readerGoto hBounded hPc bridge.control ?_
            fun hAsked => ?_
        · cases next <;> trivial
        · rw [hAsked.running id hSignalled, readerRank_pc]
          show 1 < 3
          omega
  | request next =>
      rw [hPc] at hReader
      refine readerNext_readerGoto hBounded hPc _ ?_ fun _ => ?_
      · cases next <;> trivial
      · show readerRank false _ next.pc < 2
        rw [readerRank_pc]
        omega
  | check events =>
      rw [hPc] at hReader
      simp only
      split_ifs with hRunning
      · refine
          readerNext_readerGoto hBounded hPc bridge.control
            trivial fun _ => ?_
        rw [hRunning]
        show 0 < 1
        omega
      · rw [Bool.not_eq_false] at hRunning
        refine
          @readerNext_readerGoto bridge hBounded _
            (.channels 0 events) hPc bridge.control hReader
            fun _ => ?_
        rw [hRunning]
        simp only [readerRank, if_true]
        omega
  | channels index events =>
      rw [hPc] at hReader
      cases events with
      | nil => exact readerNext_jump hBounded hPc (.noEvents _)
      | cons event later =>
          have hLater : later.length < chMax := hReader
          rcases channelStep_cases bridge index event later with
            ⟨pc, rfl | rfl, hStep⟩ | ⟨piece, _, hRoom, hStep⟩
          · simp only [hStep]
            exact readerNext_jump hBounded hPc (.failedRead _ _)
          · simp only [hStep]
            exact readerNext_jump hBounded hPc (.noBytes _ _ _)
          · -- the stream has room for no more than its capacity
            simp only [hStep]
            refine
              ⟨hBounded.receive hRoom hLater, fun _ _ _ => ?_⟩
            have hCapacity : skwH4StreamCapacity = 4096 := rfl
            rw [hPc]
            simp only [Bridge.readerGoto, Bridge.receive,
              readerRank, Bridge.held, Function.update_self,
              List.length_append, List.length_cons, eventRank]
            omega
  | decode turn =>
      rw [hPc] at hReader
      rcases decodeStep_cases bridge turn with
        ⟨_, hStep⟩ | hStep |
          ⟨size, hVerdict, ⟨_, hStep⟩ | ⟨_, hStep⟩⟩
      · simp only [hStep]
        exact readerNext_jump hBounded hPc (.decoded turn)
      · simp only [hStep]
        exact readerNext_jump hBounded hPc (.refused turn)
      · have hSame :
            (bridge.dropFrame turn.index size).readerGoto
                (.decode turn) =
              bridge.dropFrame turn.index size := by
          simp [Bridge.readerGoto, Bridge.dropFrame, hPc]
        simp only [hStep]
        rw [← hSame]
        refine
          readerNext_dropFrame hBounded hPc hReader
            (bridge.rule.framing.bounds hVerdict) fun _ => ?_
        simp only [readerRank]
        omega
      · simp only [hStep]
        exact readerNext_jump hBounded hPc (.writes turn _)
  | write turn frame call =>
      rw [hPc] at hReader
      have hGo :
          (∀ ok, call.pc ≠ .returned ok) →
          ReaderNext bridge
            (bridge.readerWrite turn frame call answer) := by
        intro hOn
        refine
          ⟨⟨hBounded.main, hReader, hBounded.nfds,
            hBounded.streams⟩, fun hAsked _ _ => ?_⟩
        rw [hPc] at hAsked ⊢
        have hLower :=
          @callRank_lowers writeVhciFrameTook frame.length
            (fun _ => 0) bridge.control call
            (fun count _ =>
              writeVhciFrameTook_lowers bridge.control.running
                count)
            hAsked hOn answer.send answer.wait
        exact Nat.add_lt_add_left hLower _
      rcases call with ⟨done, pc⟩
      cases pc with
      | returned ok =>
          cases ok with
          | false =>
              exact
                readerNext_jump hBounded hPc
                  (.failedWrite turn frame _)
          | true =>
              have hFront :=
                (hInbound.writing turn frame _ hPc).1
              refine
                readerNext_dropFrame hBounded hPc hReader
                  (bridge.rule.framing.bounds hFront.verdict)
                  fun _ => ?_
              simp only [readerRank, callRank]
              omega
      | write => exact hGo (by simp)
      | wait => exact hGo (by simp)
      | consume next => exact hGo (by simp)
      | request next => exact hGo (by simp)
      | check next => exact hGo (by simp)
  | writeFailed turn =>
      simp only
      split_ifs
      · exact readerNext_jump hBounded hPc (.fails turn)
      · exact readerNext_jump hBounded hPc (.leaves turn)
  | handled turn =>
      simp only
      split_ifs
      · exact readerNext_jump hBounded hPc (.stopped turn)
      · exact readerNext_jump hBounded hPc (.hangsUp turn)
      · exact readerNext_jump hBounded hPc (.goesOn turn)
  | fail turn =>
      have hJump := ReaderPc.Jump.recorded turn
      exact
        readerNext_readerGoto hBounded hPc bridge.control.fail
          (hJump.bounded (hPc ▸ hReader))
          fun _ => hJump.lowers _ _
  | stop turn =>
      rw [hPc] at hReader
      cases turn with
      | none =>
          refine
            readerNext_readerGoto hBounded hPc _ trivial
              fun _ => ?_
          show 1 < 2
          omega
      | some turn =>
          refine
            @readerNext_readerGoto bridge hBounded _
              (.handled turn) hPc _ hReader fun _ => ?_
          simp only [readerRank]
          omega

------------------------------------------------------------
-- The Process
------------------------------------------------------------

/- Steps of the main thread and of the reader thread. -/
def BridgeAction.isMain : BridgeAction → Bool
| .main _ => true
| _ => false

def BridgeAction.isReader : BridgeAction → Bool
| .reader _ => true
| _ => false

/- In `kernel_to_chip`, or on the way from it to the end. -/
def MainPc.Bridging : MainPc → Prop
| .loop => True
| .poll => True
| .consume .loop => True
| .consume (.check _) => True
| .request .loop => True
| .request (.check _) => True
| .check _ => True
| .read _ => True
| .write _ _ _ => True
| .writeFailed => True
| .fail _ => True
| .stop _ => True
| .requestShutdown => True
| .join => True
| _ => False

/- At the join, or on the way from it to the end. -/
def MainPc.Joined : MainPc → Prop
| .join => True
| .closeVhci _ => True
| .closeChannels _ => True
| .epilog _ => True
| .dlclose _ => True
| .closeSignals _ => True
| .exited _ => True
| _ => False

/- The thread gets there when it has created the other. -/
theorem bridging_mainStep
    {bridge : Bridge}
    {answer : MainAnswer}
    (hNext : (mainStep bridge answer).main.Bridging) :
    bridge.main.Bridging ∨
      (mainStep bridge answer).reader = .start := by
  cases hMain : bridge.main
  case createReader =>
    unfold mainStep at hNext ⊢
    rw [hMain] at hNext ⊢
    simp only at hNext ⊢
    split_ifs at hNext ⊢
    · exact .inr rfl
    · exact hNext.elim
  case exited status =>
    unfold mainStep at hNext
    rw [hMain] at hNext
    simp only at hNext
    rw [hMain] at hNext
    exact hNext.elim
  case consume next =>
    unfold mainStep at hNext
    rw [hMain] at hNext
    simp only [Bridge.look] at hNext
    cases next <;> split_ifs at hNext <;>
      first | exact .inl trivial | exact hNext.elim
  case request next =>
    unfold mainStep at hNext
    rw [hMain] at hNext
    cases next <;>
      first | exact .inl trivial | exact hNext.elim
  case address =>
    unfold mainStep at hNext
    rw [hMain] at hNext
    simp only at hNext
    revert hNext
    repeat' split
    · exact False.elim
    · exact False.elim
    · cases answer.seen <;> exact False.elim
  case bufferSizes =>
    unfold mainStep at hNext
    rw [hMain] at hNext
    simp only at hNext
    revert hNext
    repeat' split
    · exact False.elim
    · exact False.elim
    · cases answer.seen <;> exact False.elim
  all_goals
    first
    | exact .inl trivial
    | exfalso
      unfold mainStep at hNext
      rw [hMain] at hNext
      simp only at hNext
      revert hNext
      repeat' split
      all_goals exact id

/- It goes on from there to the join, where it stays. -/
theorem past_mainStep
    {bridge : Bridge}
    (hPast : bridge.main.Bridging ∨ bridge.main.Joined)
    (answer : MainAnswer) :
    (mainStep bridge answer).main.Bridging ∨
      (mainStep bridge answer).main.Joined := by
  unfold mainStep
  cases hMain : bridge.main
  all_goals rw [hMain] at hPast
  case consume next =>
    simp only [Bridge.look]
    cases next <;> split_ifs <;>
      first
      | exact .inl trivial
      | exact (hPast.elim id id).elim
  case request next =>
    cases next <;>
      first
      | exact .inl trivial
      | exact (hPast.elim id id).elim
  case read hangup =>
    simp only
    split
    · exact .inl trivial
    · exact .inl trivial
    · split_ifs
      · exact .inl trivial
      · rename_i piece _ _
        rcases packetStep_cases bridge hangup
            (piece.take skwH4KernelMaxFrame) with
          ⟨_, pc, rfl | rfl, hStep⟩ |
            ⟨_, hStep | ⟨_, _, _, _, hStep⟩⟩
        all_goals
          rw [hStep]
          exact .inl trivial
  case stop continues =>
    cases continues <;> exact .inl trivial
  case join =>
    simp only
    split_ifs
    · exact .inr trivial
    · exact .inr trivial
    · exact .inr (hMain ▸ trivial)
  case exited status =>
    have hStays : bridge.main.Joined := hMain ▸ trivial
    exact .inr hStays
  all_goals
    simp only
    repeat' split
    all_goals
      first
      | exact .inl trivial
      | exact .inr trivial
      | exact (hPast.elim id id).elim

theorem joined_mainStep
    {bridge : Bridge}
    (hJoined : bridge.main.Joined)
    (answer : MainAnswer) :
    (mainStep bridge answer).main.Joined ∧
      (mainStep bridge answer).control.signalled =
        bridge.control.signalled := by
  unfold mainStep
  cases hMain : bridge.main
  case join =>
    simp only
    split_ifs
    · exact ⟨trivial, rfl⟩
    · exact ⟨trivial, rfl⟩
    · exact ⟨hMain ▸ trivial, rfl⟩
  case exited status =>
    have hStays : bridge.main.Joined := hMain ▸ trivial
    exact ⟨hStays, rfl⟩
  all_goals
    rw [hMain] at hJoined
    first
    | exact hJoined.elim
    | simp only
      repeat' split
      all_goals exact ⟨trivial, rfl⟩

/- What holds of the process in every run. -/
structure Bridge.Sound (bridge : Bridge) : Prop where
  inbound : bridge.Inbound
  bounded : bridge.Bounded
  started : bridge.main.Bridging → bridge.reader ≠ .idle
  past :
    bridge.reader ≠ .idle →
      bridge.main.Bridging ∨ bridge.main.Joined

namespace Bridge

variable {bridge : Bridge}

theorem Sound.mainStep
    (hSound : bridge.Sound)
    (answer : MainAnswer) :
    (mainStep bridge answer).Sound := by
  have hMove := mainMoves_mainStep bridge answer
  have hStart :
      (Process.mainStep bridge answer).reader = bridge.reader ∨
        (Process.mainStep bridge answer).reader = .start :=
    hMove.reader.imp_right And.right
  refine
    ⟨hSound.inbound.mainStep answer,
      ⟨bounded_mainStep hSound.bounded.main answer, ?_, ?_, ?_⟩,
      fun hBridging hIdle => ?_, fun hReader => ?_⟩
  · rcases hStart with hSame | hStart
    · rw [hSame]
      exact hSound.bounded.reader
    · rw [hStart]
      trivial
  · rcases hMove.nfds with hSame | hLess
    · rw [hSame]
      exact hSound.bounded.nfds
    · exact hLess
  · intro i
    rw [hMove.streams]
    exact hSound.bounded.streams i
  · rcases bridging_mainStep hBridging with hBefore | hNew
    · rcases hStart with hSame | hStart
      · rw [hSame] at hIdle
        exact hSound.started hBefore hIdle
      · rw [hStart] at hIdle
        cases hIdle
    · rw [hNew] at hIdle
      cases hIdle
  · rcases hMove.reader with hSame | ⟨hMain, hStart⟩
    · rw [hSame] at hReader
      exact past_mainStep (hSound.past hReader) answer
    · -- it is created on the way into the loop
      unfold Process.mainStep at hReader ⊢
      rw [hMain] at hReader ⊢
      simp only at hReader ⊢
      split_ifs at hReader ⊢
      · exact .inl trivial
      · have hIdle := hSound.inbound.setup (hMain ▸ trivial)
        exact absurd hIdle hReader

theorem Sound.readerStep
    (hSound : bridge.Sound)
    (answer : ReaderAnswer) :
    (readerStep bridge answer).Sound := by
  have hNext :=
    readerNext_readerStep hSound.inbound hSound.bounded answer
  refine
    ⟨hSound.inbound.readerStep answer, hNext.bounded,
      fun hBridging hIdle => ?_, fun hReader => ?_⟩
  · rcases readerMoves_readerStep bridge answer with
      ⟨_, _, _, _, _, _, hStays, hMove⟩
    rw [hMove] at hBridging hIdle
    exact hSound.started hBridging (hStays hIdle)
  · have hBefore : bridge.reader ≠ .idle := by
      intro hIdle
      rw [Process.readerStep, hIdle] at hReader
      exact hReader hIdle
    rcases readerMoves_readerStep bridge answer with
      ⟨_, _, _, _, _, _, _, hMove⟩
    rw [hMove]
    exact hSound.past hBefore

theorem Sound.bridgeStep
    (hSound : bridge.Sound)
    (action : BridgeAction) :
    (bridgeStep bridge action).Sound := by
  cases action with
  | main answer => exact hSound.mainStep answer
  | reader answer => exact hSound.readerStep answer
  | signal =>
      have hInbound := hSound.inbound.bridgeStep .signal
      have hBounded := hSound.bounded
      unfold Process.bridgeStep at hInbound ⊢
      simp only at hInbound ⊢
      split_ifs at hInbound ⊢
      · exact
          ⟨hInbound,
            ⟨hBounded.main, hBounded.reader, hBounded.nfds,
              hBounded.streams⟩, hSound.started, hSound.past⟩
      · exact hSound

/- It holds in every run. -/
theorem sound_run
    (accepts : List Bool)
    (coming : Channel)
    (schedule : List BridgeAction) :
    (Schedule.run Process.bridgeStep (start accepts coming)
      schedule).Sound :=
  Schedule.Along.invariant
    (fun _ action hSound _ => hSound.bridgeStep action)
    (Schedule.along_true _ schedule)
    ⟨inbound_of_empty (fun _ => rfl) (fun _ => rfl) rfl
        (.inl rfl),
      ⟨trivial, trivial, Nat.zero_le _,
        fun _ => Nat.zero_le _⟩,
      fun hBridging => hBridging.elim,
      fun hReader => absurd rfl hReader⟩

/- A stop of the process has been asked for. -/
def Asked (bridge : Bridge) : Prop :=
  bridge.control.Asked
    (bridge.main.Requests ∨ bridge.reader.Requests)

theorem asked_iff_main :
    bridge.Asked ↔
      bridge.control.Asked bridge.main.Requests ∨
        bridge.reader.Requests := by
  simp only [Asked, Control.Asked, or_assoc]

/- Each thread is asked, or the other will store the stop. -/
theorem asked_iff_reader :
    bridge.Asked ↔
      bridge.control.Asked bridge.reader.Requests ∨
        bridge.main.Requests := by
  simp only [Asked, Control.Asked]
  tauto

/- A stop that is asked for stays so. -/
theorem asked_bridgeStep
    (hSound : bridge.Sound)
    (hAsked : bridge.Asked)
    (action : BridgeAction) :
    (Process.bridgeStep bridge action).Asked := by
  cases action with
  | main answer =>
      have hMove := mainMoves_mainStep bridge answer
      refine asked_iff_main.mpr ?_
      rcases asked_iff_main.mp hAsked with hAsked | hReader
      · exact .inl (hAsked.moves hMove.control)
      · refine .inr ?_
        rw [Process.bridgeStep]
        rcases hMove.reader with hSame | ⟨hMain, _⟩
        · exact hSame ▸ hReader
        · have hIdle := hSound.inbound.setup (hMain ▸ trivial)
          rw [hIdle] at hReader
          exact hReader.elim
  | reader answer =>
      rcases readerMoves_readerStep bridge answer with
        ⟨control, _, _, _, _, hMoves, _, hNext⟩
      rw [Process.bridgeStep, hNext]
      refine asked_iff_reader.mpr ?_
      exact (asked_iff_reader.mp hAsked).imp_left fun h => h.moves hMoves
  | signal =>
      unfold Process.bridgeStep
      simp only
      split_ifs
      · exact .inr (.inl rfl)
      · exact hAsked

end Bridge

------------------------------------------------------------
-- Steps That Are Left
------------------------------------------------------------

namespace Bridge

variable {bridge : Bridge}

def mainLeft (bridge : Bridge) : Nat :=
  mainRank bridge.control.running bridge.main

def readerLeft (bridge : Bridge) : Nat :=
  readerRank bridge.control.running bridge.held bridge.reader

/- A step of the main thread lowers what it has left. -/
theorem mainLeft_mainStep
    (hSound : bridge.Sound)
    (hAsked : bridge.control.Asked bridge.main.Requests)
    (answer : MainAnswer) :
    (mainStep bridge answer).mainLeft ≤ bridge.mainLeft ∧
      ((∀ status, bridge.main ≠ .exited status) →
        (bridge.main = .join → bridge.reader = .exited) →
        (mainStep bridge answer).mainLeft < bridge.mainLeft) := by
  have hLower :=
    @mainRank_lowers bridge hAsked hSound.bounded.main answer
  refine
    ⟨?_, fun hEnds hJoin =>
      hLower hEnds fun hMain => .inr (hJoin hMain)⟩
  by_cases hEnds : ∀ status, bridge.main ≠ .exited status
  · by_cases hWaits :
        bridge.main = .join ∧ answer.ok = true ∧
          bridge.reader ≠ .exited
    · rcases hWaits with ⟨hMain, hOk, hReader⟩
      have hStays : mainStep bridge answer = bridge := by
        simp [mainStep, hMain, hOk, hReader]
      rw [hStays]
    · refine Nat.le_of_lt (hLower hEnds fun hMain => ?_)
      by_contra hNo
      rw [not_or, Bool.not_eq_false] at hNo
      exact hWaits ⟨hMain, hNo⟩
  · simp only [not_forall, not_not] at hEnds
    rcases hEnds with ⟨status, hMain⟩
    have hStays : mainStep bridge answer = bridge := by
      simp [mainStep, hMain]
    rw [hStays]

/- The other thread and signals do not raise it. -/
theorem mainLeft_bridgeStep
    (hSound : bridge.Sound)
    (hAsked : bridge.control.Asked bridge.main.Requests)
    (action : BridgeAction) :
    (Process.bridgeStep bridge action).mainLeft ≤
      bridge.mainLeft := by
  cases action with
  | main answer => exact (mainLeft_mainStep hSound hAsked answer).1
  | reader answer =>
      rcases readerMoves_readerStep bridge answer with
        ⟨_, _, _, _, _, hMoves, _, hNext⟩
      rw [Process.bridgeStep, hNext]
      exact mainRank_le hMoves.stopped bridge.main
  | signal =>
      unfold Process.bridgeStep
      simp only
      split_ifs
      · exact le_refl _
      · exact le_refl _

/- So does a step of the reader thread. -/
theorem readerLeft_readerStep
    (hSound : bridge.Sound)
    (hAsked : bridge.control.Asked bridge.reader.Requests)
    (answer : ReaderAnswer) :
    (readerStep bridge answer).readerLeft ≤ bridge.readerLeft ∧
      (bridge.reader ≠ .idle →
        bridge.reader ≠ .exited →
        (readerStep bridge answer).readerLeft <
          bridge.readerLeft) := by
  have hLower :=
    (readerNext_readerStep hSound.inbound hSound.bounded
      answer).lowers hAsked
  refine ⟨?_, hLower⟩
  by_cases hIdle : bridge.reader = .idle
  · rw [readerStep, hIdle]
  · by_cases hExited : bridge.reader = .exited
    · rw [readerStep, hExited]
    · exact Nat.le_of_lt (hLower hIdle hExited)

/- The main thread raises it when it creates the thread. -/
theorem readerLeft_bridgeStep
    (hSound : bridge.Sound)
    (hAsked : bridge.control.Asked bridge.reader.Requests)
    (hCreated : bridge.main ≠ .createReader)
    (action : BridgeAction) :
    (Process.bridgeStep bridge action).readerLeft ≤
      bridge.readerLeft := by
  cases action with
  | main answer =>
      have hMove := mainMoves_mainStep bridge answer
      have hReader := hMove.reader.resolve_right
        fun hNew => hCreated hNew.1
      have hHeld : (mainStep bridge answer).held = bridge.held := by
        unfold held
        rw [hMove.streams]
      rw [Process.bridgeStep, readerLeft, hReader, hHeld]
      exact readerRank_le hMove.control.stopped _ _
  | reader answer =>
      exact (readerLeft_readerStep hSound hAsked answer).1
  | signal =>
      unfold Process.bridgeStep
      simp only
      split_ifs
      · exact le_refl _
      · exact le_refl _

end Bridge

------------------------------------------------------------
-- The End
------------------------------------------------------------

/- A process that has been asked to stop. -/
structure Bridge.Stopping (bridge : Bridge) : Prop where
  sound : bridge.Sound
  asked : bridge.Asked

/-
  The main thread creates no other thread any more, and cannot
  keep the stop to itself: it is stored, or the reader thread
  stores it, or finds the signal.
-/
structure Bridge.Told (bridge : Bridge) : Prop where
  past : bridge.main.Bridging ∨ bridge.main.Joined
  told :
    bridge.control.running = false ∨
      bridge.reader.Requests ∨
      bridge.control.signalled = true ∧ bridge.main.Joined

namespace Bridge.Stopping

variable {bridge : Bridge}

theorem bridgeStep
    (hStopping : bridge.Stopping)
    (action : BridgeAction) :
    (Process.bridgeStep bridge action).Stopping :=
  ⟨hStopping.sound.bridgeStep action,
    Bridge.asked_bridgeStep hStopping.sound hStopping.asked
      action⟩

/- Until then the main thread is asked itself. -/
theorem told_or_asked
    (hStopping : bridge.Stopping) :
    bridge.Told ∨
      bridge.control.Asked bridge.main.Requests := by
  rcases Bridge.asked_iff_main.mp hStopping.asked with
    hAsked | hReader
  · exact .inr hAsked
  · refine
      .inl ⟨hStopping.sound.past fun hIdle => ?_, .inr (.inl hReader)⟩
    rw [hIdle] at hReader
    exact hReader

/- At the join it is so. -/
theorem told_of_joined
    (hStopping : bridge.Stopping)
    (hJoined : bridge.main.Joined) :
    bridge.Told := by
  refine ⟨.inr hJoined, ?_⟩
  rcases hStopping.asked with hStopped | hSignalled |
    hMain | hReader
  · exact .inl hStopped
  · exact .inr (.inr ⟨hSignalled, hJoined⟩)
  · cases hPc : bridge.main
    case request next =>
      rw [hPc] at hJoined
      exact hJoined.elim
    case write hangup packet call =>
      rw [hPc] at hJoined
      exact hJoined.elim
    all_goals
      rw [hPc] at hMain
      exact hMain.elim
  · exact .inr (.inl hReader)

/- Past its setup it creates no thread. -/
theorem created
    (hTold : bridge.Told) :
    bridge.main ≠ .createReader := by
  intro hMain
  have hPast := hTold.past
  rw [hMain] at hPast
  exact hPast.elim id id

theorem told_bridgeStep
    (hTold : bridge.Told)
    (action : BridgeAction) :
    (Process.bridgeStep bridge action).Told := by
  cases action with
  | main answer =>
      have hMove := mainMoves_mainStep bridge answer
      have hReader := hMove.reader.resolve_right
        fun hNew => created hTold hNew.1
      refine ⟨past_mainStep hTold.past answer, ?_⟩
      rcases hTold.told with hStopped | hRequests |
        ⟨hSignalled, hJoined⟩
      · exact .inl (hMove.control.stopped hStopped)
      · exact .inr (.inl (hReader.symm ▸ hRequests))
      · rcases joined_mainStep hJoined answer with
          ⟨hStays, hSame⟩
        exact .inr (.inr ⟨hSame.trans hSignalled, hStays⟩)
  | reader answer =>
      rcases readerMoves_readerStep bridge answer with
        ⟨control, reader, _, _, _, hMoves, _, hNext⟩
      rw [Process.bridgeStep, hNext]
      refine ⟨hTold.past, ?_⟩
      rcases hTold.told with hStopped | hRequests |
        ⟨hSignalled, hJoined⟩
      · exact .inl (hMoves.stopped hStopped)
      · exact .inl (hMoves.asks hRequests)
      · have hAsked :
            bridge.control.Asked bridge.reader.Requests :=
          .inr (.inl hSignalled)
        rcases hAsked.moves hMoves with hStopped |
          hStill | hRequests
        · exact .inl hStopped
        · exact .inr (.inr ⟨hStill, hJoined⟩)
        · exact .inr (.inl hRequests)
  | signal =>
      unfold Process.bridgeStep
      simp only
      split_ifs
      · exact
          ⟨hTold.past,
            hTold.told.imp_right fun h =>
              h.imp_right fun h => ⟨rfl, h.2⟩⟩
      · exact hTold

/- Then the reader thread is asked too. -/
theorem asked_reader
    (hTold : bridge.Told) :
    bridge.control.Asked bridge.reader.Requests := by
  rcases hTold.told with hStopped | hRequests | ⟨hSignalled, _⟩
  · exact .inl hStopped
  · exact .inr (.inr hRequests)
  · exact .inr (.inl hSignalled)

/- When that has ended, so is the main thread. -/
theorem asked_main
    (hTold : bridge.Told)
    (hEnded : bridge.reader = .idle ∨ bridge.reader = .exited) :
    bridge.control.Asked bridge.main.Requests := by
  rcases hTold.told with hStopped | hRequests | ⟨hSignalled, _⟩
  · exact .inl hStopped
  · rcases hEnded with hPc | hPc
    · rw [hPc] at hRequests
      exact hRequests.elim
    · rw [hPc] at hRequests
      exact hRequests.elim
  · exact .inr (.inl hSignalled)

/- A thread that has ended, or does not run, stays so. -/
theorem ended_bridgeStep
    (hCreated : bridge.main ≠ .createReader)
    (hEnded : bridge.reader = .idle ∨ bridge.reader = .exited)
    (action : BridgeAction) :
    (Process.bridgeStep bridge action).reader = .idle ∨
      (Process.bridgeStep bridge action).reader = .exited := by
  cases action with
  | main answer =>
      have hMove := mainMoves_mainStep bridge answer
      rw [Process.bridgeStep,
        hMove.reader.resolve_right fun hNew => hCreated hNew.1]
      exact hEnded
  | reader answer =>
      have hStays : readerStep bridge answer = bridge := by
        rcases hEnded with hPc | hPc
        · rw [readerStep, hPc]
        · rw [readerStep, hPc]
      rw [Process.bridgeStep, hStays]
      exact hEnded
  | signal =>
      unfold Process.bridgeStep
      simp only
      split_ifs
      · exact hEnded
      · exact hEnded

theorem exited_bridgeStep
    {status : Nat}
    (hExited : bridge.main = .exited status)
    (action : BridgeAction) :
    (Process.bridgeStep bridge action).main = .exited status := by
  cases action with
  | main answer =>
      have hStays : mainStep bridge answer = bridge := by
        rw [mainStep, hExited]
      rw [Process.bridgeStep, hStays]
      exact hExited
  | reader answer =>
      rcases readerMoves_readerStep bridge answer with
        ⟨_, _, _, _, _, _, _, hNext⟩
      rw [Process.bridgeStep, hNext]
      exact hExited
  | signal =>
      unfold Process.bridgeStep
      simp only
      split_ifs
      · exact hExited
      · exact hExited

/- The main thread lets the other know, or gets to the join. -/
theorem mainTells
    (hStopping : bridge.Stopping)
    {schedule : List BridgeAction}
    (hEnough : 1300 ≤ schedule.countP BridgeAction.isMain) :
    let next := Schedule.run Process.bridgeStep bridge schedule
    next.Stopping ∧ next.Told := by
  refine
    @Schedule.finishes _ _ Process.bridgeStep Bridge.Stopping
      Bridge.Told Bridge.mainLeft BridgeAction.isMain
      (fun bridge action hNow =>
        ⟨hNow.bridgeStep action,
          hNow.told_or_asked.imp_right fun hAsked =>
            Bridge.mainLeft_bridgeStep hNow.sound hAsked action⟩)
      ?_ (fun bridge action _ hTold => told_bridgeStep hTold action)
      _ _ hStopping ?_
  · intro bridge action hNow hMine
    cases action with
    | main answer =>
        by_cases hJoined : bridge.main.Joined
        · exact .inl (hNow.told_of_joined hJoined)
        · refine hNow.told_or_asked.imp_right fun hAsked => ?_
          refine
            (Bridge.mainLeft_mainStep hNow.sound hAsked
              answer).2 ?_ ?_
          · intro status hMain
            exact hJoined (hMain ▸ trivial)
          · intro hMain
            exact absurd (hMain ▸ trivial) hJoined
    | reader answer => cases hMine
    | signal => cases hMine
  · exact
      Nat.lt_of_lt_of_le
        (mainRank_lt hStopping.sound.bounded.main _) hEnough

/- The reader thread ends, if there is one. -/
theorem readerEnds
    (hSound : bridge.Sound)
    (hTold : bridge.Told)
    {schedule : List BridgeAction}
    (hEnough : 250000 ≤ schedule.countP BridgeAction.isReader) :
    let next := Schedule.run Process.bridgeStep bridge schedule
    (next.Sound ∧ next.Told) ∧
      (next.reader = .idle ∨ next.reader = .exited) := by
  refine
    @Schedule.finishes _ _ Process.bridgeStep
      (fun bridge => bridge.Sound ∧ bridge.Told)
      (fun bridge =>
        bridge.reader = .idle ∨ bridge.reader = .exited)
      Bridge.readerLeft BridgeAction.isReader
      ?_ ?_ ?_ _ _ ⟨hSound, hTold⟩ ?_
  · rintro bridge action ⟨hNow, hPast⟩
    exact
      ⟨⟨hNow.bridgeStep action, told_bridgeStep hPast action⟩,
        .inr
          (Bridge.readerLeft_bridgeStep hNow
            (asked_reader hPast) (created hPast) action)⟩
  · rintro bridge action ⟨hNow, hPast⟩ hMine
    cases action with
    | reader answer =>
        by_cases hIdle : bridge.reader = .idle
        · exact .inl (.inl hIdle)
        · by_cases hExited : bridge.reader = .exited
          · exact .inl (.inr hExited)
          · exact
              .inr
                ((Bridge.readerLeft_readerStep hNow
                  (asked_reader hPast) answer).2 hIdle hExited)
    | main answer => cases hMine
    | signal => cases hMine
  · rintro bridge action ⟨_, hPast⟩ hEnded
    exact ended_bridgeStep (created hPast) hEnded action
  · exact
      Nat.lt_of_lt_of_le (readerRank_lt hSound.bounded) hEnough

/- Then the main thread ends. -/
theorem mainEnds
    (hSound : bridge.Sound)
    (hTold : bridge.Told)
    (hReader : bridge.reader = .idle ∨ bridge.reader = .exited)
    {schedule : List BridgeAction}
    (hEnough : 1300 ≤ schedule.countP BridgeAction.isMain) :
    ∃ status,
      (Schedule.run Process.bridgeStep bridge schedule).main =
        .exited status := by
  refine
    (@Schedule.finishes _ _ Process.bridgeStep
      (fun bridge =>
        (bridge.Sound ∧ bridge.Told) ∧
          (bridge.reader = .idle ∨ bridge.reader = .exited))
      (fun bridge => ∃ status, bridge.main = .exited status)
      Bridge.mainLeft BridgeAction.isMain ?_ ?_ ?_ _ _
      ⟨⟨hSound, hTold⟩, hReader⟩ ?_).2
  · rintro bridge action ⟨⟨hNow, hPast⟩, hEnded⟩
    exact
      ⟨⟨⟨hNow.bridgeStep action, told_bridgeStep hPast action⟩,
        ended_bridgeStep (created hPast) hEnded action⟩,
        .inr
          (Bridge.mainLeft_bridgeStep hNow
            (asked_main hPast hEnded) action)⟩
  · rintro bridge action ⟨⟨hNow, hPast⟩, hEnded⟩ hMine
    cases action with
    | main answer =>
        by_cases hExited :
            ∃ status, bridge.main = .exited status
        · exact .inl hExited
        · refine
            .inr
              ((Bridge.mainLeft_mainStep hNow
                (asked_main hPast hEnded) answer).2
                (not_exists.mp hExited) ?_)
          -- at the join there is a thread, so it has ended
          intro hMain
          refine hEnded.resolve_left (hNow.started ?_)
          rw [hMain]
          trivial
    | reader answer => cases hMine
    | signal => cases hMine
  · rintro bridge action _ ⟨status, hExited⟩
    exact ⟨status, exited_bridgeStep hExited action⟩
  · exact
      Nat.lt_of_lt_of_le (mainRank_lt hSound.bounded.main _)
        hEnough

end Bridge.Stopping

/-
  When a stop has been asked for, whatever happens next, the
  process ends: the main thread stores the stop or leaves it to
  the reader thread, that ends, and the main thread comes to
  its end. How many steps that takes does not depend on what
  the system calls return.
-/
theorem bridge_stops
    (accepts : List Bool)
    (coming : Channel)
    (before first second third : List BridgeAction)
    (hAsked :
      (Schedule.run bridgeStep (.start accepts coming)
        before).Asked)
    (hFirst : 1300 ≤ first.countP BridgeAction.isMain)
    (hSecond : 250000 ≤ second.countP BridgeAction.isReader)
    (hThird : 1300 ≤ third.countP BridgeAction.isMain) :
    ∃ status,
      (Schedule.run bridgeStep (.start accepts coming)
        (before ++ (first ++ (second ++ third)))).main =
          .exited status := by
  have hStopping : Bridge.Stopping _ :=
    ⟨Bridge.sound_run accepts coming before, hAsked⟩
  rcases hStopping.mainTells hFirst with ⟨hStill, hTold⟩
  rcases Bridge.Stopping.readerEnds hStill.sound hTold hSecond
    with ⟨⟨hSound, hKept⟩, hReader⟩
  rw [Schedule.run_append, Schedule.run_append,
    Schedule.run_append]
  exact Bridge.Stopping.mainEnds hSound hKept hReader hThird

theorem le_countP_replicate
    {mine : BridgeAction → Bool}
    {action : BridgeAction}
    (count : Nat)
    (hMine : mine action = true) :
    count ≤ (List.replicate count action).countP mine := by
  rw [List.countP_replicate, if_pos hMine]

/-
  A signal while both threads run: the reader thread reads it
  off the pipe, and is at its store when the main thread goes
  on for as long as it likes.
-/
def takenSchedule : List BridgeAction :=
  List.replicate 12 (.main plainAnswer) ++ [.signal] ++
    List.replicate 4
      (.reader ⟨.interrupted, .sent 1, .failed⟩)

theorem bridge_stops_taken :
    ∃ status,
      (Schedule.run bridgeStep
        (.start [true, true, true, true] plainChannel)
        (takenSchedule ++
          (List.replicate 1300 (.main plainAnswer) ++
            (List.replicate 250000
                (.reader ⟨.interrupted, .sent 1, .failed⟩) ++
              List.replicate 1300 (.main plainAnswer))))).main =
        .exited status := by
  have hTaken :
      (Schedule.run bridgeStep
          (.start [true, true, true, true] plainChannel)
          takenSchedule).reader =
        .request .loop := by
    decide
  exact
    bridge_stops [true, true, true, true] plainChannel
      takenSchedule _ _ _
      (.inr (.inr (.inr (hTaken ▸ trivial))))
      (le_countP_replicate 1300 rfl)
      (le_countP_replicate 250000 rfl)
      (le_countP_replicate 1300 rfl)

end Process

end Bluetooth

end MicaBoards
