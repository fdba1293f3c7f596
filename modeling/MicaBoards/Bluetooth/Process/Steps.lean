import MicaBoards.Bluetooth.Process.Threads
import Mathlib.Tactic.SplitIfs

/-
  What one step of the bridge can change.

  Main declarations:
    * `Control.Moves`, `callStep_control`
    * `readerMoves_readerStep`, `mainMoves_mainStep`
-/

------------------------------------------------------------
-- Shared Variables
------------------------------------------------------------

namespace MicaBoards

namespace Bluetooth

namespace Process

/- At the `request_shutdown(0)` of `consume_signal_request` -/
def CallPc.Requests : CallPc → Prop
| .request _ => True
| _ => False

def MainPc.Requests : MainPc → Prop
| .request _ => True
| .write _ _ call => call.pc.Requests
| _ => False

def ReaderPc.Requests : ReaderPc → Prop
| .request _ => True
| .write _ _ call => call.pc.Requests
| _ => False

/-
  What a thread does to them in one step, before and after
  which it may have read a signal and not yet asked to stop
-/
inductive Control.Moves
    (control : Control)
    (before after : Prop) : Control → Prop where
| stays (hBefore : ¬ before) (hAfter : ¬ after) :
    control.Moves before after control
| drains
    (hBefore : ¬ before)
    (hSignalled : control.signalled = true)
    (hAfter : after) :
    control.Moves before after control.drain
| fails (hBefore : ¬ before) (hAfter : ¬ after) :
    control.Moves before after control.fail
| stops (hAfter : ¬ after) :
    control.Moves before after control.stop

namespace Control.Moves

variable {control next : Control} {before after : Prop}

/- No thread starts the bridge again. -/
theorem stopped
    (hMoves : control.Moves before after next)
    (hStopped : control.running = false) :
    next.running = false := by
  cases hMoves with
  | stays _ _ => exact hStopped
  | drains _ _ _ => exact hStopped
  | fails _ _ => exact hStopped
  | stops _ => rfl

/- Who has read a signal asks to stop. -/
theorem asks
    (hMoves : control.Moves before after next)
    (hBefore : before) :
    next.running = false := by
  cases hMoves with
  | stays hNot _ => exact absurd hBefore hNot
  | drains hNot _ _ => exact absurd hBefore hNot
  | fails hNot _ => exact absurd hBefore hNot
  | stops _ => rfl

/- Who has read one has found it in the pipe. -/
theorem signalled
    (hMoves : control.Moves before after next)
    (hAfter : after) :
    control.signalled = true := by
  cases hMoves with
  | stays _ hNot => exact absurd hAfter hNot
  | drains _ hSignalled _ => exact hSignalled
  | fails _ hNot => exact absurd hAfter hNot
  | stops hNot => exact absurd hAfter hNot

end Control.Moves

/- When bytes are taken, the write is at no signal. -/
theorem writeAllTook_requests
    (length : Nat)
    (call : Call)
    (count : Nat) :
    ¬ (writeAllTook length call count).pc.Requests := by
  simp only [writeAllTook]
  split_ifs <;> exact id

theorem writeVhciFrameTook_requests
    (length : Nat)
    (call : Call)
    (count : Nat) :
    ¬ (writeVhciFrameTook length call count).pc.Requests :=
  id

/- A write only looks for signals. -/
theorem callStep_control
    {took : Nat → Call → Nat → Call}
    {length : Nat}
    (hTook :
      ∀ call count, ¬ (took length call count).pc.Requests)
    (control : Control)
    (call : Call)
    (send : SendReply)
    (wait : WaitReply) :
    control.Moves call.pc.Requests
      (callStep took length control call send wait).2.pc.Requests
      (callStep took length control call send wait).1 := by
  rcases call with ⟨done, pc⟩
  cases pc with
  | write =>
      rcases send with (_ | count) | _ | _ | _ | _
      case sent.succ => exact .stays id (hTook _ _)
      all_goals exact .stays id id
  | wait =>
      cases wait with
      | interrupted => exact .stays id id
      | failed => exact .stays id id
      | events broken writable =>
          simp only [callStep]
          cases hSignalled : control.signalled with
          | false => exact .stays id id
          | true => exact .stays id id
  | consume next =>
      simp only [callStep]
      split_ifs with hSignalled
      · exact .drains id hSignalled trivial
      · exact .stays id id
  | request next => exact .stops id
  | check next =>
      simp only [callStep]
      split_ifs
      · exact .stays id id
      · cases next <;> exact .stays id id
  | returned ok => exact .stays id id

------------------------------------------------------------
-- The Reader Thread
------------------------------------------------------------

/- At a descriptor: go on, stop, or read into its stream. -/
theorem channelStep_cases
    (bridge : Bridge)
    (index : Nat)
    (event : ChannelEvent)
    (later : List ChannelEvent) :
    (∃ pc,
      (pc = .fail none ∨ pc = .channels (index + 1) later) ∧
        channelStep bridge index event later =
          bridge.readerGoto pc) ∨
    (∃ piece,
      piece ≠ [] ∧
        (bridge.streams index).length + piece.length ≤
          skwH4StreamCapacity ∧
        channelStep bridge index event later =
          (bridge.receive index piece).readerGoto
            (.decode ⟨index, event.hangup, later⟩)) := by
  rcases event with ⟨invalid, readable, hangup⟩
  cases invalid with
  | true => exact .inl ⟨_, .inl rfl, rfl⟩
  | false =>
      cases readable with
      | none =>
          cases hangup with
          | true => exact .inl ⟨_, .inl rfl, rfl⟩
          | false => exact .inl ⟨_, .inr rfl, rfl⟩
      | some reply =>
          by_cases hRoom :
              skwH4StreamCapacity -
                  (bridge.streams index).length =
                0
          · exact
              .inl
                ⟨.fail none, .inl rfl, by
                  simp [channelStep, hRoom]⟩
          · cases reply with
            | again =>
                exact
                  .inl
                    ⟨.channels (index + 1) later, .inr rfl, by
                      simp [channelStep, hRoom]⟩
            | closed =>
                exact
                  .inl
                    ⟨.fail none, .inl rfl, by
                      simp [channelStep, hRoom]⟩
            | data piece =>
                by_cases hEmpty : piece = []
                · exact
                    .inl
                      ⟨.fail none, .inl rfl, by
                        simp [channelStep, hEmpty]⟩
                · refine
                    .inr
                      ⟨piece.take
                          (skwH4StreamCapacity -
                            (bridge.streams index).length),
                        ?_, ?_, ?_⟩
                  · simpa using ⟨hRoom, hEmpty⟩
                  · rw [List.length_take]
                    omega
                  · simp [channelStep, hRoom, hEmpty]

/-
  At a frame: leave the loop, stop, or have a whole frame that
  the bridge takes, which is written unless it is a log.
-/
theorem decodeStep_cases
    (bridge : Bridge)
    (turn : ChannelTurn) :
    (bridge.rule.verdict (bridge.streams turn.index) =
          .incomplete ∧
        decodeStep bridge turn =
          bridge.readerGoto (.handled turn)) ∨
    decodeStep bridge turn =
      bridge.readerGoto (.fail (some turn)) ∨
    (∃ size,
      bridge.rule.verdict (bridge.streams turn.index) =
          .complete size ∧
        (isLog ((bridge.streams turn.index).take size) = true ∧
            decodeStep bridge turn =
              bridge.dropFrame turn.index size ∨
          isLog ((bridge.streams turn.index).take size) =
              false ∧
            decodeStep bridge turn =
              bridge.readerGoto
                (.write turn
                  ((bridge.streams turn.index).take size)
                  .writeVhciFrame))) := by
  unfold decodeStep
  simp only
  split_ifs with hStream hRefused hIncomplete hLog
  · refine .inl ⟨?_, rfl⟩
    rw [hStream]
    exact bridge.rule.verdict_nil
  · exact .inr (.inl rfl)
  · rw [not_or, Bool.not_eq_true] at hRefused
    exact
      .inl
        ⟨bridge.rule.verdict_eq_incomplete_iff.mpr
          (.inr ⟨hIncomplete, hRefused.2⟩), rfl⟩
  all_goals
    rw [not_or, Bool.not_eq_true] at hRefused
    have hComplete :
        (skwH4Decode (bridge.streams turn.index)).1 =
          .complete := by
      cases hStatus :
          (skwH4Decode (bridge.streams turn.index)).1 with
      | invalid => exact absurd hStatus hRefused.1
      | incomplete => exact absurd hStatus hIncomplete
      | complete => rfl
    refine
      .inr
        (.inr
          ⟨_, bridge.rule.verdict_eq_complete_iff.mpr
            ⟨hStream, hComplete, hRefused.2, rfl⟩, ?_⟩)
    simp [hLog]

------------------------------------------------------------
-- The Main Thread
------------------------------------------------------------

/- At a packet: drop it, refuse it, or write it. -/
theorem packetStep_cases
    (bridge : Bridge)
    (hangup : Bool)
    (packet : List UInt8) :
    packet.headD 0 = hciVendorPkt ∧
        (∃ pc,
          (pc = .fail true ∨ pc = .loop) ∧
            packetStep bridge hangup packet =
              (bridge.readPacket packet).goto pc) ∨
      packet.headD 0 ≠ hciVendorPkt ∧
        (packetStep bridge hangup packet =
            (bridge.readPacket packet).goto (.fail false) ∨
          ∃ buffers,
            bridge.buffers = some buffers ∧
              validateHostFrame buffers packet = true ∧
              bridge.commandChannel = true ∧
              packetStep bridge hangup packet =
                (bridge.readPacket packet).goto
                  (.write hangup packet
                    (.writeAll packet.length))) := by
  unfold packetStep
  simp only
  by_cases hVendor : packet.headD 0 = hciVendorPkt
  · rw [if_pos hVendor]
    cases hangup with
    | true => exact .inl ⟨hVendor, _, .inl rfl, rfl⟩
    | false => exact .inl ⟨hVendor, _, .inr rfl, rfl⟩
  · rw [if_neg hVendor]
    refine .inr ⟨hVendor, ?_⟩
    cases hBuffers : bridge.buffers with
    | none =>
        refine .inl ?_
        simp [Bridge.readPacket, hBuffers]
    | some buffers =>
        by_cases hValid : validateHostFrame buffers packet = true
        · by_cases hChannel : bridge.commandChannel = true
          · refine .inr ⟨buffers, rfl, hValid, hChannel, ?_⟩
            simp [Bridge.readPacket, hBuffers, hValid, hChannel]
          · refine .inl ?_
            simp [Bridge.readPacket, hBuffers, hChannel]
        · refine .inl ?_
          simp [Bridge.readPacket, hBuffers, hValid]

------------------------------------------------------------
-- Frames
------------------------------------------------------------

/- The next state differs in what the reader thread has. -/
def ReaderMoves (bridge next : Bridge) : Prop :=
  ∃ control reader streams received kernel,
    bridge.control.Moves bridge.reader.Requests reader.Requests
        control ∧
      (reader = .idle → bridge.reader = .idle) ∧
      next =
        { bridge with
          control := control
          reader := reader
          streams := streams
          received := received
          kernel := kernel }

theorem readerMoves_of
    {bridge : Bridge}
    {before : ReaderPc}
    (hReader : bridge.reader = before)
    {control : Control}
    {reader : ReaderPc}
    {streams received : Nat → List UInt8}
    {kernel : List (Nat × List UInt8)}
    (hMoves :
      bridge.control.Moves before.Requests reader.Requests
        control)
    (hIdle : reader = .idle → before = .idle) :
    ReaderMoves bridge
      { bridge with
        control := control
        reader := reader
        streams := streams
        received := received
        kernel := kernel } := by
  subst hReader
  exact ⟨_, _, _, _, _, hMoves, hIdle, rfl⟩

/- A step that only goes to another place -/
theorem readerMoves_readerGoto
    {bridge : Bridge}
    {before : ReaderPc}
    (hReader : bridge.reader = before)
    {pc : ReaderPc}
    (hBefore : ¬ before.Requests)
    (hAfter : ¬ pc.Requests)
    (hIdle : pc = .idle → before = .idle) :
    ReaderMoves bridge (bridge.readerGoto pc) :=
  readerMoves_of hReader (.stays hBefore hAfter) hIdle

/- One that stays where it is -/
theorem readerMoves_same
    (bridge : Bridge)
    (hQuiet : ¬ bridge.reader.Requests)
    (streams : Nat → List UInt8) :
    ReaderMoves bridge { bridge with streams := streams } :=
  readerMoves_of rfl (.stays hQuiet hQuiet) id

/- No place behind a look for signals is another one. -/
theorem ReaderLook.pc_quiet
    (next : ReaderLook) :
    ¬ next.pc.Requests ∧ next.pc ≠ .idle := by
  cases next with
  | loop => exact ⟨id, ReaderPc.noConfusion⟩
  | check events => exact ⟨id, ReaderPc.noConfusion⟩

/- The reader thread leaves the rest of the process alone. -/
theorem readerMoves_readerStep
    (bridge : Bridge)
    (answer : ReaderAnswer) :
    ReaderMoves bridge (readerStep bridge answer) := by
  have hGoes := @readerMoves_readerGoto bridge
  unfold readerStep
  cases hReader : bridge.reader with
  | idle => exact readerMoves_same bridge (hReader ▸ id) _
  | start =>
      simp only
      split_ifs <;> exact hGoes hReader id id nofun
  | loop =>
      simp only
      split_ifs <;> exact hGoes hReader id id nofun
  | poll =>
      cases answer.poll with
      | interrupted => exact hGoes hReader id id nofun
      | failed => exact hGoes hReader id id nofun
      | events events => exact hGoes hReader id id nofun
  | consume next =>
      simp only [Bridge.readerLook]
      split_ifs with hSignalled
      · exact
          readerMoves_of hReader (.drains id hSignalled trivial)
            nofun
      · exact
          hGoes hReader id next.pc_quiet.1
            fun h => absurd h next.pc_quiet.2
  | request next =>
      exact
        readerMoves_of hReader (.stops next.pc_quiet.1)
          fun h => absurd h next.pc_quiet.2
  | check events =>
      simp only
      split_ifs <;> exact hGoes hReader id id nofun
  | channels index events =>
      cases events with
      | nil => exact hGoes hReader id id nofun
      | cons event later =>
          rcases channelStep_cases bridge index event later with
            ⟨pc, rfl | rfl, hStep⟩ | ⟨piece, _, _, hStep⟩
          · simp only [hStep]
            exact hGoes hReader id id nofun
          · simp only [hStep]
            exact hGoes hReader id id nofun
          · simp only [hStep]
            exact readerMoves_of hReader (.stays id id) nofun
  | decode turn =>
      rcases decodeStep_cases bridge turn with
        ⟨_, hStep⟩ | hStep | ⟨size, _, ⟨_, hStep⟩ | ⟨_, hStep⟩⟩
      · simp only [hStep]
        exact hGoes hReader id id nofun
      · simp only [hStep]
        exact hGoes hReader id id nofun
      · simp only [hStep]
        exact readerMoves_same bridge (hReader ▸ id) _
      · simp only [hStep]
        exact hGoes hReader id id nofun
  | write turn frame call =>
      have hWrites :
          ReaderMoves bridge
            (bridge.readerWrite turn frame call answer) :=
        readerMoves_of hReader
          (callStep_control (writeVhciFrameTook_requests _) _ _
            _ _)
          nofun
      rcases call with ⟨done, pc⟩
      cases pc with
      | returned ok =>
          cases ok with
          | false => exact hGoes hReader id id nofun
          | true =>
              exact readerMoves_of hReader (.stays id id) nofun
      | write => exact hWrites
      | wait => exact hWrites
      | consume next => exact hWrites
      | request next => exact hWrites
      | check next => exact hWrites
  | writeFailed turn =>
      simp only
      split_ifs <;> exact hGoes hReader id id nofun
  | handled turn =>
      simp only
      split_ifs <;> exact hGoes hReader id id nofun
  | fail turn =>
      exact readerMoves_of hReader (.fails id id) nofun
  | stop turn =>
      cases turn with
      | none => exact readerMoves_of hReader (.stops id) nofun
      | some turn =>
          exact readerMoves_of hReader (.stops id) nofun
  | exited => exact readerMoves_same bridge (hReader ▸ id) _

/- What the main thread leaves alone. -/
structure MainMoves (bridge next : Bridge) : Prop where
  control :
    bridge.control.Moves bridge.main.Requests
      next.main.Requests next.control
  streams : next.streams = bridge.streams
  received : next.received = bridge.received
  kernel : next.kernel = bridge.kernel
  signals : next.signals = bridge.signals
  reader :
    next.reader = bridge.reader ∨
      bridge.main = .createReader ∧ next.reader = .start
  buffers :
    next.buffers = bridge.buffers ∨ bridge.main = .bufferSizes
  setup :
    (next.link, next.cut, next.answers) =
        (bridge.link, bridge.cut, bridge.answers) ∨
      bridge.main = .address ∨ bridge.main = .bufferSizes
  nfds : next.nfds = bridge.nfds ∨ next.nfds ≤ chMax

/- Most steps leave all of it as it is. -/
theorem mainMoves_of_eq
    {bridge next : Bridge}
    {pc : MainPc}
    (hMain : bridge.main = pc)
    (hControl :
      bridge.control.Moves pc.Requests next.main.Requests
        next.control)
    (hSame :
      (next.streams, next.received, next.kernel, next.signals,
          next.reader, next.buffers, next.nfds) =
        (bridge.streams, bridge.received, bridge.kernel,
          bridge.signals, bridge.reader, bridge.buffers,
          bridge.nfds))
    (hSetup :
      (next.link, next.cut, next.answers) =
          (bridge.link, bridge.cut, bridge.answers) ∨
        pc = .address ∨ pc = .bufferSizes) :
    MainMoves bridge next := by
  subst hMain
  simp only [Prod.mk.injEq] at hSame
  rcases hSame with
    ⟨hStreams, hReceived, hKernel, hSignals, hReader, hBuffers,
      hNfds⟩
  exact
    ⟨hControl, hStreams, hReceived, hKernel, hSignals,
      .inl hReader, .inl hBuffers, hSetup, .inl hNfds⟩

theorem mainMoves_packetStep
    {bridge : Bridge}
    {hangup : Bool}
    (hMain : bridge.main = .read hangup)
    (packet : List UInt8) :
    MainMoves bridge (packetStep bridge hangup packet) := by
  have hGoes :
      ∀ pc,
        ¬ MainPc.Requests pc →
          MainMoves bridge
            ((bridge.readPacket packet).goto pc) :=
    fun pc hPc =>
      mainMoves_of_eq hMain (.stays id hPc) rfl (.inl rfl)
  rcases packetStep_cases bridge hangup packet with
    ⟨_, pc, rfl | rfl, hStep⟩ |
      ⟨_, hStep | ⟨_, _, _, _, hStep⟩⟩
  · exact hStep ▸ hGoes _ id
  · exact hStep ▸ hGoes _ id
  · exact hStep ▸ hGoes _ id
  · refine hStep ▸ hGoes _ ?_
    simp only [Call.writeAll]
    split_ifs <;> exact id

theorem MainLook.pc_quiet
    (next : MainLook) :
    ¬ next.pc.Requests := by
  cases next <;> exact id

/- A command that has failed -/
theorem mainMoves_refuse
    {bridge : Bridge}
    (hMain :
      bridge.main = .address ∨ bridge.main = .bufferSizes)
    (tried : Tried)
    (seen : Bool) :
    MainMoves bridge ((bridge.tries tried).refuse seen) ∧
      MainMoves bridge (bridge.refuse seen) := by
  have hQuiet : ¬ bridge.main.Requests := by
    rcases hMain with hMain | hMain <;> exact hMain ▸ id
  cases seen with
  | true =>
      exact
        ⟨mainMoves_of_eq rfl (.stays hQuiet id) rfl
            (.inr hMain),
          mainMoves_of_eq rfl (.stays hQuiet id) rfl
            (.inl rfl)⟩
  | false =>
      exact
        ⟨mainMoves_of_eq rfl (.stays hQuiet id) rfl
            (.inr hMain),
          mainMoves_of_eq rfl (.stays hQuiet id) rfl
            (.inl rfl)⟩

/- The main thread leaves the reader thread's part alone. -/
theorem mainMoves_mainStep
    (bridge : Bridge)
    (answer : MainAnswer) :
    MainMoves bridge (mainStep bridge answer) := by
  unfold mainStep
  cases hMain : bridge.main
  case consume next =>
    simp only [Bridge.look]
    split_ifs with hSignalled
    · exact
        mainMoves_of_eq hMain (.drains id hSignalled trivial)
          rfl (.inl rfl)
    · exact
        mainMoves_of_eq hMain (.stays id next.pc_quiet) rfl
          (.inl rfl)
  case request next =>
    exact
      mainMoves_of_eq hMain (.stops next.pc_quiet) rfl
        (.inl rfl)
  case write hangup packet call =>
    simp only
    split
    next hPc =>
      have hCall : ¬ call.pc.Requests := hPc ▸ id
      split_ifs <;>
        exact
          mainMoves_of_eq hMain (.stays hCall id) rfl (.inl rfl)
    next hPc =>
      have hCall : ¬ call.pc.Requests := hPc ▸ id
      exact
        mainMoves_of_eq hMain (.stays hCall id) rfl (.inl rfl)
    next =>
      exact
        mainMoves_of_eq hMain
          (callStep_control (writeAllTook_requests _) _ _ _ _)
          rfl (.inl rfl)
  case read hangup =>
    simp only
    split
    · exact mainMoves_of_eq hMain (.stays id id) rfl (.inl rfl)
    · exact mainMoves_of_eq hMain (.stays id id) rfl (.inl rfl)
    · split_ifs
      · exact
          mainMoves_of_eq hMain (.stays id id) rfl (.inl rfl)
      · exact mainMoves_packetStep hMain _
  case createReader =>
    simp only
    split_ifs
    · exact
        ⟨.stays (hMain ▸ id) id, rfl, rfl, rfl, rfl,
          .inr ⟨hMain, rfl⟩, .inl rfl, .inl rfl, .inl rfl⟩
    · exact mainMoves_of_eq hMain (.stays id id) rfl (.inl rfl)
  case userialOpen attempt =>
    simp only
    split_ifs
    · exact
        ⟨.stays (hMain ▸ id) id, rfl, rfl, rfl, rfl, .inl rfl,
          .inl rfl, .inl rfl, .inr (Nat.min_le_right _ _)⟩
    · exact
        ⟨.stays (hMain ▸ id) id, rfl, rfl, rfl, rfl, .inl rfl,
          .inl rfl, .inl rfl, .inr (Nat.zero_le _)⟩
  case address =>
    have hRefuses := mainMoves_refuse (.inl hMain)
    simp only
    split
    · exact (hRefuses ⟨bridge.link, [], []⟩ false).2
    · split
      · exact
          mainMoves_of_eq hMain (.stays id id) rfl
            (.inr (.inl rfl))
      · exact (hRefuses _ _).1
  case bufferSizes =>
    have hRefuses := mainMoves_refuse (.inr hMain)
    simp only
    split
    · split
      · exact
          ⟨.stays (hMain ▸ id) id, rfl, rfl, rfl, rfl, .inl rfl,
            .inr hMain, .inr (.inr hMain), .inl rfl⟩
      · exact (hRefuses _ _).1
    · exact (hRefuses _ _).1
  all_goals
    simp only
    repeat' split
    all_goals
      first
      | exact
          mainMoves_of_eq hMain (.stays id id) rfl (.inl rfl)
      | exact
          mainMoves_of_eq hMain (.fails id id) rfl (.inl rfl)
      | exact mainMoves_of_eq hMain (.stops id) rfl (.inl rfl)
      | exact
          mainMoves_of_eq hMain (.stays id (hMain ▸ id)) rfl
            (.inl rfl)

end Process

end Bluetooth

end MicaBoards
