import MicaBoards.Bluetooth.Process.Resources

/-
  The exit status of the bridge. It is zero exactly when the
  bridge has served and no thread has met an error, and then a
  signal has asked for the end.

  Key definitions include:
    * `Bridge.Honest`
  Main declarations:
    * `exit_status`
-/

------------------------------------------------------------
-- What A Step Does To The Atomics
------------------------------------------------------------

namespace MicaBoards

namespace Bluetooth

namespace Process

/- A thread leaves them alone, or takes the signals. -/
def Control.Looks (control next : Control) : Prop :=
  next = control ∨ next = control.drain

/- A write looks, or stops the bridge for a signal. -/
theorem callStep_looks
    (took : Nat → Call → Nat → Call)
    (length : Nat)
    (control : Control)
    (call : Call)
    (send : SendReply)
    (wait : WaitReply) :
    control.Looks
        (callStep took length control call send wait).1 ∨
      (callStep took length control call send wait).1 =
          control.stop ∧
        call.pc.Requests := by
  rcases call with ⟨done, pc⟩
  cases pc with
  | write =>
      rcases send with (_ | count) | _ | _ | _ | _ <;>
        exact .inl (.inl rfl)
  | wait =>
      cases wait with
      | interrupted => exact .inl (.inl rfl)
      | failed => exact .inl (.inl rfl)
      | events broken writable =>
          simp only [callStep]
          cases hSignalled : control.signalled with
          | false => exact .inl (.inl rfl)
          | true => exact .inl (.inl rfl)
  | consume next =>
      simp only [callStep]
      split_ifs
      · exact .inl (.inr rfl)
      · exact .inl (.inl rfl)
  | request next => exact .inr ⟨rfl, trivial⟩
  | check next =>
      simp only [callStep]
      split_ifs
      · exact .inl (.inl rfl)
      · cases next <;> exact .inl (.inl rfl)
  | returned ok => exact .inl (.inl rfl)

namespace MainPc

/- Whether the bridge had failed before it served. -/
def outcome : MainPc → Option Bool
| .consume .cleanup => some true
| .request .cleanup => some true
| .closeVhci failed => some failed
| .closeChannels failed => some failed
| .epilog failed => some failed
| .dlclose failed => some failed
| .closeSignals failed => some failed
| _ => none

/- `main` has returned. -/
def ends : MainPc → Bool
| .exited _ => true
| _ => false

/- Behind the loop of `kernel_to_chip`, which has been left. -/
def isLeft : MainPc → Bool
| .requestShutdown => true
| .join => true
| pc => pc.outcome == some false

/- At the second store of `request_shutdown`. -/
def Stops : MainPc → Prop
| .stop _ => True
| _ => False

/- In the cleanup the outcome says where it comes from. -/
theorem isLeft_of_outcome
    {pc : MainPc}
    {failed : Bool}
    (hOutcome : pc.outcome = some failed) :
    pc.isLeft = !failed := by
  unfold isLeft
  split
  · cases hOutcome
  · cases hOutcome
  · rw [hOutcome]
    cases failed <;> rfl

theorem ne_exited
    {pc : MainPc}
    (hOn : pc.ends = false)
    (status : Nat) :
    pc ≠ .exited status := by
  intro hExited
  rw [hExited] at hOn
  cases hOn

end MainPc

/-
  A step of the main thread. It stops the bridge where it says
  so, and is behind its loop when that has happened.
-/
structure MainLooks (bridge next : Bridge) : Prop where
  control :
    bridge.control.Looks next.control ∨
      next.control = bridge.control.fail ∨
      next.control = bridge.control.stop ∧
        (bridge.main = .requestShutdown ∨
          (∃ c, bridge.main = .stop c) ∨ bridge.main.Requests)
  stop :
    ∀ c, next.main = .stop c → next.control.runtimeFailed = true
  left :
    (bridge.main.isLeft = true →
        bridge.control.running = false) →
      next.main.isLeft = true → next.control.running = false

/- It goes somewhere else, and has looked for signals or not. -/
theorem mainLooks_of_looks
    {bridge next : Bridge}
    (hLooks : bridge.control.Looks next.control)
    (hStop : ¬ next.main.Stops)
    (hLeft :
      next.main.isLeft = true → bridge.main.isLeft = true) :
    MainLooks bridge next where
  control := .inl hLooks
  stop c hAt := by
    rw [hAt] at hStop
    exact (hStop trivial).elim
  left hBefore hNow := by
    have hRunning := hBefore (hLeft hNow)
    rcases hLooks with hSame | hSame
    · rw [hSame]
      exact hRunning
    · rw [hSame]
      exact hRunning

/- It leaves the loop. -/
theorem mainLooks_of_left
    {bridge next : Bridge}
    (hControl : next.control = bridge.control)
    (hRunning : bridge.control.running = false)
    (hStop : ¬ next.main.Stops) :
    MainLooks bridge next where
  control := .inl (.inl hControl)
  stop c hAt := by
    rw [hAt] at hStop
    exact (hStop trivial).elim
  left _ _ := hControl ▸ hRunning

/- It goes from one part of the cleanup to the next. -/
theorem mainLooks_closing
    {bridge next : Bridge}
    {pc : MainPc}
    {failed : Bool}
    (hMain : bridge.main = pc)
    (hControl : next.control = bridge.control)
    (hOutcome : pc.outcome = some failed)
    (hNext : next.main.outcome = some failed)
    (hStop : ¬ next.main.Stops) :
    MainLooks bridge next := by
  refine mainLooks_of_looks (.inl hControl) hStop fun hLeft => ?_
  rw [MainPc.isLeft_of_outcome hNext] at hLeft
  rw [hMain, MainPc.isLeft_of_outcome hOutcome]
  exact hLeft

/- It stays before the end of the loop. -/
theorem mainLooks_on
    {bridge next : Bridge}
    (hLooks : bridge.control.Looks next.control)
    (hStop : ¬ next.main.Stops)
    (hLeft : next.main.isLeft = false) :
    MainLooks bridge next :=
  mainLooks_of_looks hLooks hStop fun h =>
    absurd (hLeft.symm.trans h) Bool.false_ne_true

/- It stops the bridge for a signal. -/
theorem mainLooks_asks
    {bridge next : Bridge}
    (hControl : next.control = bridge.control.stop)
    (hRequests : bridge.main.Requests)
    (hStop : ¬ next.main.Stops) :
    MainLooks bridge next where
  control := .inr (.inr ⟨hControl, .inr (.inr hRequests)⟩)
  stop c hAt := by
    rw [hAt] at hStop
    exact (hStop trivial).elim
  left _ _ := by
    rw [hControl]
    rfl

/- A place behind a look is before the end of the loop. -/
theorem MainLook.pc_on
    (next : MainLook) :
    ¬ next.pc.Stops ∧ next.pc.isLeft = false := by
  cases next <;> exact ⟨id, rfl⟩

theorem mainLooks_refuse
    (bridge : Bridge)
    (tried : Tried)
    (seen : Bool) :
    MainLooks bridge ((bridge.tries tried).refuse seen) := by
  cases seen with
  | true =>
      exact mainLooks_on (.inl rfl) id rfl
  | false =>
      exact mainLooks_on (.inl rfl) id rfl

theorem mainLooks_packetStep
    (bridge : Bridge)
    (hangup : Bool)
    (packet : List UInt8) :
    MainLooks bridge (packetStep bridge hangup packet) := by
  rcases packetStep_cases bridge hangup packet with
    ⟨_, pc, rfl | rfl, hStep⟩ |
      ⟨_, hStep | ⟨_, _, _, _, hStep⟩⟩
  all_goals
    rw [hStep]
    exact mainLooks_on (.inl rfl) id rfl

theorem mainLooks_mainStep
    (bridge : Bridge)
    (answer : MainAnswer) :
    MainLooks bridge (mainStep bridge answer) := by
  unfold mainStep
  cases hMain : bridge.main
  case consume next =>
    simp only [Bridge.look]
    split_ifs
    · exact
        mainLooks_on (.inr rfl) id (by cases next <;> rfl)
    · exact mainLooks_on (.inl rfl) next.pc_on.1 next.pc_on.2
  case request next =>
    exact mainLooks_asks rfl (hMain ▸ trivial) next.pc_on.1
  case address =>
    simp only
    repeat' split
    · exact mainLooks_on (.inl rfl) id rfl
    · exact mainLooks_on (.inl rfl) id rfl
    · exact mainLooks_refuse bridge _ _
  case bufferSizes =>
    simp only
    repeat' split
    · exact mainLooks_on (.inl rfl) id rfl
    · exact mainLooks_refuse bridge _ _
    · exact mainLooks_refuse bridge _ _
  case loop =>
    simp only
    split_ifs with hRunning
    · exact mainLooks_on (.inl rfl) id rfl
    · exact
        mainLooks_of_left rfl (eq_false_of_ne_true hRunning)
          id
  case check events =>
    simp only
    split_ifs with hRunning
    · exact mainLooks_of_left rfl hRunning id
    all_goals
      exact mainLooks_on (.inl rfl) id rfl
  case writeFailed =>
    simp only
    split_ifs with hRunning
    · exact mainLooks_on (.inl rfl) id rfl
    · exact
        mainLooks_of_left rfl (eq_false_of_ne_true hRunning)
          id
  case read hangup =>
    simp only
    split
    · exact mainLooks_on (.inl rfl) id rfl
    · exact mainLooks_on (.inl rfl) id rfl
    · split_ifs
      · exact mainLooks_on (.inl rfl) id rfl
      · exact mainLooks_packetStep bridge hangup _
  case write hangup packet call =>
    simp only
    split
    · split_ifs
      all_goals
        exact mainLooks_on (.inl rfl) id rfl
    · exact mainLooks_on (.inl rfl) id rfl
    · rcases callStep_looks writeAllTook packet.length
          bridge.control call answer.send answer.wait with
        hLooks | ⟨hStop, hRequests⟩
      · exact mainLooks_on hLooks id rfl
      · exact mainLooks_asks hStop (hMain ▸ hRequests) id
  case fail continues =>
    exact
      ⟨.inr (.inl rfl), fun _ _ => rfl,
        fun _ h => absurd h Bool.false_ne_true⟩
  case stop continues =>
    refine
      ⟨.inr (.inr ⟨rfl, .inr (.inl ⟨continues, hMain⟩)⟩), ?_,
        fun _ _ => rfl⟩
    intro c hAt
    cases continues <;> cases hAt
  case requestShutdown =>
    refine
      ⟨.inr (.inr ⟨rfl, .inl hMain⟩), fun c hAt => ?_,
        fun _ _ => rfl⟩
    cases hAt
  case join =>
    have hLeft : bridge.main.isLeft = true := by
      rw [hMain]
      rfl
    simp only
    split_ifs
    · refine ⟨.inr (.inl rfl), fun c hAt => ?_, fun h _ => h hLeft⟩
      cases hAt
    · exact mainLooks_of_looks (.inl rfl) id fun _ => hLeft
    · refine mainLooks_of_looks (.inl rfl) ?_ id
      rw [hMain]
      exact id
  case exited status =>
    refine mainLooks_of_looks (.inl rfl) ?_ id
    rw [hMain]
    exact id
  case closeVhci failed =>
    exact mainLooks_closing hMain rfl rfl rfl id
  case closeChannels failed =>
    simp only
    split_ifs
    all_goals exact mainLooks_closing hMain rfl rfl rfl id
  case epilog failed =>
    simp only
    split_ifs
    all_goals exact mainLooks_closing hMain rfl rfl rfl id
  case dlclose failed =>
    simp only
    split_ifs
    all_goals exact mainLooks_closing hMain rfl rfl rfl id
  all_goals
    simp only
    repeat' split
    all_goals
      exact mainLooks_on (.inl rfl) id rfl

/- The same of a step of the reader thread. -/
structure ReaderLooks (bridge next : Bridge) : Prop where
  control :
    bridge.control.Looks next.control ∨
      next.control = bridge.control.fail ∨
      next.control = bridge.control.stop ∧
        ((∃ turn, bridge.reader = .stop turn) ∨
          bridge.reader.Requests)
  stop :
    ∀ turn, next.reader = .stop turn →
      next.control.runtimeFailed = true

/- At the second store of `request_shutdown`. -/
def ReaderPc.Stops : ReaderPc → Prop
| .stop _ => True
| _ => False

theorem readerLooks_on
    {bridge next : Bridge}
    (hLooks : bridge.control.Looks next.control)
    (hStop : ¬ next.reader.Stops) :
    ReaderLooks bridge next := by
  refine ⟨.inl hLooks, fun turn hAt => ?_⟩
  rw [hAt] at hStop
  exact (hStop trivial).elim

/- It stops the bridge for a signal. -/
theorem readerLooks_asks
    {bridge next : Bridge}
    (hControl : next.control = bridge.control.stop)
    (hRequests : bridge.reader.Requests)
    (hStop : ¬ next.reader.Stops) :
    ReaderLooks bridge next := by
  refine
    ⟨.inr (.inr ⟨hControl, .inr hRequests⟩), fun turn hAt => ?_⟩
  rw [hAt] at hStop
  exact (hStop trivial).elim

theorem ReaderLook.pc_on
    (next : ReaderLook) :
    ¬ next.pc.Stops := by
  cases next <;> exact id

theorem readerLooks_readerStep
    (bridge : Bridge)
    (answer : ReaderAnswer) :
    ReaderLooks bridge (readerStep bridge answer) := by
  unfold readerStep
  cases hReader : bridge.reader
  case idle =>
    refine readerLooks_on (.inl rfl) ?_
    rw [hReader]
    exact id
  case exited =>
    refine readerLooks_on (.inl rfl) ?_
    rw [hReader]
    exact id
  case consume next =>
    simp only [Bridge.readerLook]
    split_ifs
    · exact readerLooks_on (.inr rfl) id
    · exact readerLooks_on (.inl rfl) next.pc_on
  case request next =>
    exact readerLooks_asks rfl (hReader ▸ trivial) next.pc_on
  case channels index events =>
    cases events with
    | nil => exact readerLooks_on (.inl rfl) id
    | cons event later =>
        rcases channelStep_cases bridge index event later with
          ⟨pc, rfl | rfl, hStep⟩ | ⟨piece, _, _, hStep⟩
        all_goals
          simp only [hStep]
          exact readerLooks_on (.inl rfl) id
  case decode turn =>
    rcases decodeStep_cases bridge turn with
      ⟨_, hStep⟩ | hStep | ⟨size, _, ⟨_, hStep⟩ | ⟨_, hStep⟩⟩
    case inr.inr.inl =>
      simp only [hStep]
      refine readerLooks_on (.inl rfl) ?_
      rw [Bridge.dropFrame, hReader]
      exact id
    all_goals
      simp only [hStep]
      exact readerLooks_on (.inl rfl) id
  case write turn frame call =>
    simp only
    split
    · exact readerLooks_on (.inl rfl) id
    · exact readerLooks_on (.inl rfl) id
    · rcases callStep_looks writeVhciFrameTook frame.length
          bridge.control call answer.send answer.wait with
        hLooks | ⟨hStop, hRequests⟩
      · exact readerLooks_on hLooks id
      · exact readerLooks_asks hStop (hReader ▸ hRequests) id
  case fail turn => exact ⟨.inr (.inl rfl), fun _ _ => rfl⟩
  case stop turn =>
    refine ⟨.inr (.inr ⟨rfl, .inl ⟨turn, hReader⟩⟩), ?_⟩
    intro other hAt
    cases turn with
    | none => cases hAt
    | some turn => cases hAt
  all_goals
    simp only
    repeat' split
    all_goals exact readerLooks_on (.inl rfl) id

------------------------------------------------------------
-- Who Stops The Bridge
------------------------------------------------------------

/-
  The bridge is stopped by an error, or after a signal; and
  what is in the pipe is a signal.
-/
structure Control.Honest
    (control : Control)
    (signals : Nat) : Prop where
  signalled : control.signalled = true → 0 < signals
  stopped :
    control.running = false →
      control.runtimeFailed = true ∨ 0 < signals

namespace Control.Honest

variable {control next : Control}
variable {signals : Nat}

theorem looks
    (hHonest : control.Honest signals)
    (hLooks : control.Looks next) :
    next.Honest signals := by
  rcases hLooks with rfl | rfl
  · exact hHonest
  · exact ⟨nofun, hHonest.stopped⟩

theorem fail (hHonest : control.Honest signals) :
    control.fail.Honest signals :=
  ⟨hHonest.signalled, fun _ => .inl rfl⟩

/- Who stops it has a reason. -/
theorem stop
    (hHonest : control.Honest signals)
    (hReason : control.runtimeFailed = true ∨ 0 < signals) :
    control.stop.Honest signals :=
  ⟨hHonest.signalled, fun _ => hReason⟩

theorem signal (hHonest : control.Honest signals) :
    control.signal.Honest (signals + 1) :=
  ⟨fun _ => Nat.succ_pos _,
    fun hStopped =>
      (hHonest.stopped hStopped).imp_right fun _ =>
        Nat.succ_pos _⟩

end Control.Honest

/- An error is not forgotten. -/
theorem runtimeFailed_looks
    {control next : Control}
    (hLooks : control.Looks next) :
    next.runtimeFailed = control.runtimeFailed := by
  rcases hLooks with rfl | rfl
  · rfl
  · rfl

/- What holds of the threads in every run. -/
structure Bridge.Honest (bridge : Bridge) : Prop where
  control : bridge.control.Honest bridge.signals
  main :
    ∀ c, bridge.main = .stop c →
      bridge.control.runtimeFailed = true
  reader :
    ∀ turn, bridge.reader = .stop turn →
      bridge.control.runtimeFailed = true
  left :
    bridge.main.isLeft = true → bridge.control.running = false
  requests :
    bridge.main.Requests ∨ bridge.reader.Requests →
      0 < bridge.signals

namespace Bridge

variable {bridge : Bridge}

theorem Honest.mainStep
    (hHonest : bridge.Honest)
    (answer : MainAnswer) :
    (mainStep bridge answer).Honest ∧
      (bridge.control.runtimeFailed = true →
        (Process.mainStep bridge answer).control.runtimeFailed =
          true) := by
  have hLooks := mainLooks_mainStep bridge answer
  have hMove := mainMoves_mainStep bridge answer
  have hFailed :
      bridge.control.runtimeFailed = true →
        (Process.mainStep bridge answer).control.runtimeFailed =
          true := by
    intro hFailed
    rcases hLooks.control with hSame | hSame | ⟨hSame, _⟩
    · rw [runtimeFailed_looks hSame]
      exact hFailed
    · rw [hSame]
      rfl
    · rw [hSame]
      exact hFailed
  refine
    ⟨⟨?_, hLooks.stop, ?_, hLooks.left hHonest.left, ?_⟩,
      hFailed⟩
  · rw [hMove.signals]
    rcases hLooks.control with hSame | hSame | ⟨hSame, hReason⟩
    · exact hHonest.control.looks hSame
    · rw [hSame]
      exact hHonest.control.fail
    · rw [hSame]
      refine hHonest.control.stop ?_
      rcases hReason with hMain | ⟨c, hMain⟩ | hRequests
      · refine hHonest.control.stopped (hHonest.left ?_)
        rw [hMain]
        rfl
      · exact .inl (hHonest.main c hMain)
      · exact .inr (hHonest.requests (.inl hRequests))
  · intro turn hReader
    rcases hMove.reader with hSame | ⟨_, hStart⟩
    · exact hFailed (hHonest.reader turn (hSame ▸ hReader))
    · rw [hStart] at hReader
      cases hReader
  · rw [hMove.signals]
    rintro (hRequests | hRequests)
    · exact
        hHonest.control.signalled
          (hMove.control.signalled hRequests)
    · rcases hMove.reader with hSame | ⟨_, hStart⟩
      · exact hHonest.requests (.inr (hSame ▸ hRequests))
      · rw [hStart] at hRequests
        exact hRequests.elim

theorem Honest.readerStep
    (hHonest : bridge.Honest)
    (answer : ReaderAnswer) :
    (readerStep bridge answer).Honest ∧
      (bridge.control.runtimeFailed = true →
        (Process.readerStep bridge answer).control.runtimeFailed =
          true) := by
  have hLooks := readerLooks_readerStep bridge answer
  have hFailed :
      bridge.control.runtimeFailed = true →
        (Process.readerStep bridge answer).control.runtimeFailed =
          true := by
    intro hFailed
    rcases hLooks.control with hSame | hSame | ⟨hSame, _⟩
    · rw [runtimeFailed_looks hSame]
      exact hFailed
    · rw [hSame]
      rfl
    · rw [hSame]
      exact hFailed
  rcases readerMoves_readerStep bridge answer with
    ⟨_, _, _, _, _, hMoves, _, hNext⟩
  have hMain :
      (Process.readerStep bridge answer).main = bridge.main := by
    rw [hNext]
  have hSignals :
      (Process.readerStep bridge answer).signals =
        bridge.signals := by
    rw [hNext]
  refine ⟨⟨?_, ?_, hLooks.stop, ?_, ?_⟩, hFailed⟩
  · rw [hSignals]
    rcases hLooks.control with hSame | hSame | ⟨hSame, hReason⟩
    · exact hHonest.control.looks hSame
    · rw [hSame]
      exact hHonest.control.fail
    · rw [hSame]
      refine hHonest.control.stop ?_
      rcases hReason with ⟨turn, hReader⟩ | hRequests
      · exact .inl (hHonest.reader turn hReader)
      · exact .inr (hHonest.requests (.inr hRequests))
  · intro c hStop
    exact hFailed (hHonest.main c (hMain ▸ hStop))
  · intro hLeft
    have hBefore := hHonest.left (hMain ▸ hLeft)
    rw [hNext]
    exact hMoves.stopped hBefore
  · rw [hNext]
    rintro (hRequests | hRequests)
    · exact hHonest.requests (.inl hRequests)
    · exact
        hHonest.control.signalled (hMoves.signalled hRequests)

end Bridge

------------------------------------------------------------
-- The Status
------------------------------------------------------------

/- In `kernel_to_chip`, or behind it. -/
def MainPc.Served (pc : MainPc) : Prop :=
  ¬ pc.Setup ∧ pc.outcome ≠ some true

theorem served_of_outcome
    {pc : MainPc}
    (hOutcome : pc.outcome = some false) :
    pc.Served := by
  refine ⟨?_, ?_⟩
  · intro hSetup
    cases pc
    case consume next => cases next <;> cases hOutcome
    case request next => cases next <;> cases hOutcome
    all_goals
      first
      | exact hSetup.elim
      | cases hOutcome
  · rw [hOutcome]
    simp

/- A look for signals is where it goes on. -/
theorem served_look (next : MainLook) :
    ((MainPc.request next).Served ↔ next.pc.Served) ∧
      ((MainPc.consume next).Served ↔ next.pc.Served) := by
  cases next <;>
    simp [MainPc.Served, MainPc.Setup, MainPc.outcome,
      MainLook.pc]

/- A command that fails is no service. -/
theorem served_refuse
    {bridge : Bridge}
    (hNone : .createReader ∉ bridge.ops)
    (tried : Tried)
    (seen : Bool) :
    .createReader ∈ ((bridge.tries tried).refuse seen).ops ↔
      ((bridge.tries tried).refuse seen).main.Served := by
  cases seen with
  | true =>
      exact
        ⟨fun hMem => absurd hMem hNone,
          fun hServed => absurd rfl hServed.2⟩
  | false =>
      exact
        ⟨fun hMem => absurd hMem hNone,
          fun hServed => absurd rfl hServed.2⟩

/- A step that is no end leaves it as it is, but for one. -/
theorem served_mainStep
    {bridge : Bridge}
    {answer : MainAnswer}
    (hOn :
      ∀ status, (mainStep bridge answer).main ≠ .exited status)
    (hBefore :
      .createReader ∈ bridge.ops ↔ bridge.main.Served) :
    .createReader ∈ (mainStep bridge answer).ops ↔
      (mainStep bridge answer).main.Served := by
  revert hOn
  unfold mainStep
  cases hMain : bridge.main
  case exited status =>
    intro hOn
    exact absurd hMain (hOn status)
  case consume next =>
    intro _
    rw [hMain] at hBefore
    have hLook := served_look next
    simp only [Bridge.look]
    split_ifs
    · exact hBefore.trans (hLook.2.trans hLook.1.symm)
    · exact hBefore.trans hLook.2
  case request next =>
    intro _
    rw [hMain] at hBefore
    exact hBefore.trans (served_look next).1
  case address =>
    intro _
    have hNone : .createReader ∉ bridge.ops := by
      rw [hBefore, hMain]
      exact fun h => h.1 trivial
    simp only
    repeat' split
    · exact
        ⟨fun hMem => absurd hMem hNone,
          fun hServed => absurd rfl hServed.2⟩
    · exact
        ⟨fun hMem => absurd hMem hNone,
          fun hServed => absurd trivial hServed.1⟩
    · exact served_refuse hNone _ _
  case bufferSizes =>
    intro _
    have hNone : .createReader ∉ bridge.ops := by
      rw [hBefore, hMain]
      exact fun h => h.1 trivial
    simp only
    repeat' split
    · refine
        ⟨fun hMem => ?_,
          fun hServed => absurd trivial hServed.1⟩
      rcases List.mem_append.mp hMem with hMem | hMem
      · exact absurd hMem hNone
      · cases List.mem_singleton.mp hMem
    · exact served_refuse hNone _ _
    · exact served_refuse hNone _ _
  case read hangup =>
    rw [hMain] at hBefore
    have hServed : .createReader ∈ bridge.ops :=
      hBefore.mpr ⟨id, ne_of_beq_false rfl⟩
    simp only
    split
    · exact
        fun _ =>
          ⟨fun _ => ⟨id, ne_of_beq_false rfl⟩, fun _ => hServed⟩
    · exact
        fun _ =>
          ⟨fun _ => ⟨id, ne_of_beq_false rfl⟩, fun _ => hServed⟩
    · split_ifs
      · exact
          fun _ =>
            ⟨fun _ => ⟨id, ne_of_beq_false rfl⟩, fun _ => hServed⟩
      · rename_i piece _ _
        rcases packetStep_cases bridge hangup
            (piece.take skwH4KernelMaxFrame) with
          ⟨_, pc, rfl | rfl, hStep⟩ |
            ⟨_, hStep | ⟨_, _, _, _, hStep⟩⟩
        all_goals
          rw [hStep]
          exact
            fun _ =>
              ⟨fun _ => ⟨id, ne_of_beq_false rfl⟩, fun _ => hServed⟩
  all_goals
    rw [hMain] at hBefore
    simp only
    repeat' split
    all_goals
      intro hOn
      simp_all [Bridge.perform, Bridge.goto, Bridge.setControl,
        Bridge.mainWrite, MainPc.Served, MainPc.Setup,
        MainPc.outcome]

/- How the main thread comes to its end. -/
theorem exits_mainStep
    {bridge : Bridge}
    {answer : MainAnswer}
    {status : Nat}
    (hExits : (mainStep bridge answer).main = .exited status) :
    bridge.main = .exited status ∧
        mainStep bridge answer = bridge ∨
      bridge.main = .signals ∧ status = 1 ∧
        (mainStep bridge answer).ops = bridge.ops ∨
      ∃ failed,
        bridge.main = .closeSignals failed ∧
          status =
            (if failed || bridge.control.runtimeFailed then 1
            else 0) ∧
          (mainStep bridge answer).ops =
            bridge.ops ++ [.closeSignals] ∧
          (mainStep bridge answer).control = bridge.control ∧
          (mainStep bridge answer).reader = bridge.reader := by
  revert hExits
  unfold mainStep
  cases hMain : bridge.main
  case exited other =>
    intro hExits
    exact .inl ⟨hMain.symm.trans hExits, rfl⟩
  case consume next =>
    simp only [Bridge.look]
    cases next <;> split_ifs <;>
      exact fun h => absurd h (MainPc.ne_exited rfl status)
  case request next =>
    cases next <;>
      exact fun h => absurd h (MainPc.ne_exited rfl status)
  case address =>
    simp only
    repeat' split
    · exact fun h => absurd h (MainPc.ne_exited rfl status)
    · exact fun h => absurd h (MainPc.ne_exited rfl status)
    · cases answer.seen <;>
        exact fun h => absurd h (MainPc.ne_exited rfl status)
  case bufferSizes =>
    simp only
    repeat' split
    · exact fun h => absurd h (MainPc.ne_exited rfl status)
    · exact fun h => absurd h (MainPc.ne_exited rfl status)
    · cases answer.seen <;>
        exact fun h => absurd h (MainPc.ne_exited rfl status)
  case signals =>
    simp only
    split_ifs
    · exact fun h => absurd h (MainPc.ne_exited rfl status)
    · intro hExits
      injection hExits with hStatus
      exact .inr (.inl ⟨trivial, hStatus.symm, rfl⟩)
  case closeSignals failed =>
    intro hExits
    injection hExits with hStatus
    exact .inr (.inr ⟨failed, rfl, hStatus.symm, rfl, rfl, rfl⟩)
  case read hangup =>
    simp only
    split
    · exact fun h => absurd h (MainPc.ne_exited rfl status)
    · exact fun h => absurd h (MainPc.ne_exited rfl status)
    · split_ifs
      · exact fun h => absurd h (MainPc.ne_exited rfl status)
      · rename_i piece _ _
        rcases packetStep_cases bridge hangup
            (piece.take skwH4KernelMaxFrame) with
          ⟨_, pc, rfl | rfl, hStep⟩ |
            ⟨_, hStep | ⟨_, _, _, _, hStep⟩⟩
        all_goals
          rw [hStep]
          exact fun h => absurd h (MainPc.ne_exited rfl status)
  case join =>
    simp only
    split_ifs
    · exact fun h => absurd h (MainPc.ne_exited rfl status)
    · exact fun h => absurd h (MainPc.ne_exited rfl status)
    · intro hExits
      rw [hMain] at hExits
      cases hExits
  case stop continues =>
    cases continues <;>
      exact fun h => absurd h (MainPc.ne_exited rfl status)
  all_goals
    simp only
    repeat' split
    all_goals
      exact fun h => absurd h (MainPc.ne_exited rfl status)

/- The bridge has served, and nobody has met an error. -/
structure Bridge.EndsWell (bridge : Bridge) : Prop where
  served : .createReader ∈ bridge.ops
  control : bridge.control.runtimeFailed = false
  reader : bridge.reader = .exited
  signals : 0 < bridge.signals

/- What holds of the status in every run. -/
structure Bridge.Ends (bridge : Bridge) : Prop where
  honest : bridge.Honest
  served :
    (∀ status, bridge.main ≠ .exited status) →
      (.createReader ∈ bridge.ops ↔ bridge.main.Served)
  joined :
    bridge.main.outcome = some false →
      bridge.control.runtimeFailed = true ∨
        bridge.reader = .exited
  ends :
    ∀ status, bridge.main = .exited status →
      status = 0 ∧ bridge.EndsWell ∨
        status = 1 ∧
          (.createReader ∉ bridge.ops ∨
            bridge.control.runtimeFailed = true)

namespace Bridge

variable {bridge : Bridge}

/- The main thread gets to the cleanup through the join. -/
theorem joined_mainStep
    {answer : MainAnswer}
    (hOutcome :
      (mainStep bridge answer).main.outcome = some false) :
    bridge.main.outcome = some false ∨
      (mainStep bridge answer).control.runtimeFailed = true ∨
      (mainStep bridge answer).reader = .exited := by
  revert hOutcome
  unfold Process.mainStep
  cases hMain : bridge.main
  case consume next =>
    simp only [look]
    cases next <;> split_ifs <;>
      exact fun h => absurd h (ne_of_beq_false rfl)
  case request next =>
    cases next <;>
      exact fun h => absurd h (ne_of_beq_false rfl)
  case address =>
    simp only
    repeat' split
    · exact fun h => absurd h (ne_of_beq_false rfl)
    · exact fun h => absurd h (ne_of_beq_false rfl)
    · cases answer.seen <;>
        exact fun h => absurd h (ne_of_beq_false rfl)
  case bufferSizes =>
    simp only
    repeat' split
    · exact fun h => absurd h (ne_of_beq_false rfl)
    · exact fun h => absurd h (ne_of_beq_false rfl)
    · cases answer.seen <;>
        exact fun h => absurd h (ne_of_beq_false rfl)
  case join =>
    simp only
    split_ifs with hOk hReader
    · exact fun _ => .inr (.inl rfl)
    · exact fun _ => .inr (.inr hReader)
    · intro hOutcome
      rw [hMain] at hOutcome
      cases hOutcome
  case exited status =>
    intro hOutcome
    rw [hMain] at hOutcome
    cases hOutcome
  case closeVhci failed => exact .inl
  case closeChannels failed =>
    simp only
    split_ifs
    · exact .inl
    · exact .inl
  case epilog failed =>
    simp only
    split_ifs
    · exact .inl
    · exact .inl
  case dlclose failed =>
    simp only
    split_ifs
    · exact .inl
    · exact .inl
  case read hangup =>
    simp only
    split
    · exact fun h => absurd h (ne_of_beq_false rfl)
    · exact fun h => absurd h (ne_of_beq_false rfl)
    · split_ifs
      · exact fun h => absurd h (ne_of_beq_false rfl)
      · rename_i piece _ _
        rcases packetStep_cases bridge hangup
            (piece.take skwH4KernelMaxFrame) with
          ⟨_, pc, rfl | rfl, hStep⟩ |
            ⟨_, hStep | ⟨_, _, _, _, hStep⟩⟩
        all_goals
          rw [hStep]
          exact fun h => absurd h (ne_of_beq_false rfl)
  case stop continues =>
    cases continues <;>
      exact fun h => absurd h (ne_of_beq_false rfl)
  all_goals
    simp only
    repeat' split
    all_goals exact fun h => absurd h (ne_of_beq_false rfl)

theorem Ends.mainStep
    (hEnds : bridge.Ends)
    (answer : MainAnswer) :
    (mainStep bridge answer).Ends := by
  have hMove := mainMoves_mainStep bridge answer
  rcases hEnds.honest.mainStep answer with ⟨hHonest, hFailed⟩
  have hOn :
      ∀ pc, bridge.main = pc → pc.ends = false →
        ∀ status, bridge.main ≠ .exited status := by
    intro pc hMain hPc status hExited
    rw [← hMain, hExited] at hPc
    cases hPc
  refine
    ⟨hHonest, fun hStays => served_mainStep hStays (hEnds.served ?_),
      fun hOutcome => ?_, fun status hExits => ?_⟩
  · intro status hMain
    refine hStays status ?_
    rw [Process.mainStep, hMain]
    exact hMain
  · rcases joined_mainStep hOutcome with hBefore | hNow
    · refine (hEnds.joined hBefore).imp hFailed fun hReader => ?_
      refine (hMove.reader.resolve_right ?_).trans hReader
      intro hNew
      rw [hNew.1] at hBefore
      cases hBefore
    · exact hNow
  · rcases exits_mainStep hExits with
      ⟨hMain, hSame⟩ | ⟨hMain, rfl, hOps⟩ |
        ⟨failed, hMain, hStatus, hOps, hControl, hReader⟩
    · rw [hSame]
      exact hEnds.ends status hMain
    · refine .inr ⟨rfl, .inl ?_⟩
      rw [hOps, hEnds.served (hOn _ hMain rfl), hMain]
      exact fun h => h.1 trivial
    · have hServed :=
        hEnds.served (hOn _ hMain rfl)
      have hMem :
          .createReader ∈ (Process.mainStep bridge answer).ops ↔
            .createReader ∈ bridge.ops := by
        rw [hOps]
        simp
      rw [hMain] at hServed
      cases failed with
      | true =>
          refine .inr ⟨hStatus, .inl fun h => ?_⟩
          exact (hServed.mp (hMem.mp h)).2 rfl
      | false =>
          cases hWell : bridge.control.runtimeFailed with
          | true =>
              rw [hWell] at hStatus
              refine .inr ⟨hStatus, .inr ?_⟩
              rw [hControl]
              exact hWell
          | false =>
              rw [hWell] at hStatus
              have hOutcome : bridge.main.outcome = some false := by
                rw [hMain]
                rfl
              have hStopped :=
                hEnds.honest.left
                  (MainPc.isLeft_of_outcome hOutcome)
              refine
                .inl
                  ⟨hStatus,
                    hMem.mpr (hServed.mpr (served_of_outcome rfl)),
                    ?_, ?_, ?_⟩
              · rw [hControl]
                exact hWell
              · rw [hReader]
                refine (hEnds.joined hOutcome).resolve_left ?_
                rw [hWell]
                exact Bool.false_ne_true
              · rw [hMove.signals]
                refine
                  (hEnds.honest.control.stopped hStopped).resolve_left
                    ?_
                rw [hWell]
                exact Bool.false_ne_true

theorem Ends.readerStep
    (hEnds : bridge.Ends)
    (answer : ReaderAnswer) :
    (readerStep bridge answer).Ends := by
  rcases hEnds.honest.readerStep answer with ⟨hHonest, hFailed⟩
  have hStays :
      bridge.reader = .exited →
        Process.readerStep bridge answer = bridge := by
    intro hReader
    rw [Process.readerStep, hReader]
  have hSame :
      (Process.readerStep bridge answer).main = bridge.main ∧
        (Process.readerStep bridge answer).ops = bridge.ops := by
    rcases readerMoves_readerStep bridge answer with
      ⟨_, _, _, _, _, _, _, hNext⟩
    rw [hNext]
    exact ⟨rfl, rfl⟩
  refine ⟨hHonest, ?_, ?_, ?_⟩
  · rw [hSame.1, hSame.2]
    exact hEnds.served
  · intro hOutcome
    rw [hSame.1] at hOutcome
    refine (hEnds.joined hOutcome).imp hFailed fun hReader => ?_
    rw [hStays hReader]
    exact hReader
  · intro status hExits
    rw [hSame.1] at hExits
    rcases hEnds.ends status hExits with
      ⟨hStatus, hWell⟩ | ⟨hStatus, hBad⟩
    · refine .inl ⟨hStatus, ?_⟩
      rw [hStays hWell.reader]
      exact hWell
    · refine .inr ⟨hStatus, ?_⟩
      rw [hSame.2]
      exact hBad.imp_right hFailed

theorem Ends.bridgeStep
    (hEnds : bridge.Ends)
    (action : BridgeAction) :
    (bridgeStep bridge action).Ends := by
  cases action with
  | main answer => exact hEnds.mainStep answer
  | reader answer => exact hEnds.readerStep answer
  | signal =>
      have hHonest := hEnds.honest
      unfold Process.bridgeStep
      simp only
      split_ifs
      · refine
          ⟨⟨hHonest.control.signal, hHonest.main,
            hHonest.reader, hHonest.left,
            fun _ => Nat.succ_pos _⟩,
            hEnds.served, hEnds.joined, ?_⟩
        intro status hExits
        refine (hEnds.ends status hExits).imp_left fun hGood => ?_
        have hWell := hGood.2
        exact
          ⟨hGood.1, hWell.served, hWell.control, hWell.reader,
            Nat.succ_pos _⟩
      · exact hEnds

theorem ends_run
    (accepts : List Bool)
    (coming : Channel)
    (schedule : List BridgeAction) :
    (Schedule.run Process.bridgeStep (start accepts coming)
      schedule).Ends := by
  refine
    Schedule.Along.invariant
      (fun _ action hEnds _ => hEnds.bridgeStep action)
      (Schedule.along_true _ schedule) ?_
  refine
    ⟨⟨⟨nofun, nofun⟩, nofun, nofun, ?_,
        fun h => (h.elim id id).elim⟩,
      fun _ => ⟨nofun, ?_⟩, nofun, nofun⟩
  · exact fun h => absurd h Bool.false_ne_true
  · exact fun h => (h.1 trivial).elim

end Bridge

/- A process that has returned for its arguments does nothing. -/
theorem exited_run
    (accepts : List Bool)
    (coming : Channel)
    (schedule : List BridgeAction)
    (status : Nat) :
    let bridge :=
      Schedule.run bridgeStep
        { Bridge.start accepts coming with
          main := .exited status }
        schedule
    bridge.main = .exited status ∧ bridge.ops = [] := by
  refine
    Schedule.Along.invariant
      (I := fun bridge : Bridge =>
        bridge.main = .exited status ∧ bridge.ops = [])
      (fun bridge action hNow _ => ?_)
      (Schedule.along_true _ schedule) ⟨rfl, rfl⟩
  rcases hNow with ⟨hMain, hOps⟩
  cases action with
  | main answer =>
      have hStays : mainStep bridge answer = bridge := by
        rw [mainStep, hMain]
      rw [bridgeStep, hStays]
      exact ⟨hMain, hOps⟩
  | reader answer =>
      rcases readerMoves_readerStep bridge answer with
        ⟨_, _, _, _, _, _, _, hNext⟩
      rw [bridgeStep, hNext]
      exact ⟨hMain, hOps⟩
  | signal =>
      unfold bridgeStep
      simp only
      split_ifs
      · exact ⟨hMain, hOps⟩
      · exact ⟨hMain, hOps⟩

/-
  The process that is called without an argument ends with
  status zero exactly when the bridge has served and neither
  thread has met an error; then a signal has asked for it, and
  the reader thread has ended before. Any other call does
  nothing: it asks for the version, or is wrong.
-/
theorem exit_status
    (argv : List Bytes)
    (accepts : List Bool)
    (coming : Channel)
    (schedule : List BridgeAction)
    {status : Nat}
    (hExits :
      (Schedule.run bridgeStep (.called argv accepts coming)
        schedule).main = .exited status) :
    let bridge :=
      Schedule.run bridgeStep (.called argv accepts coming)
        schedule
    (∃ name, argv = [name]) ∧
        (status = 0 ∧ bridge.EndsWell ∨
          status = 1 ∧
            (.createReader ∉ bridge.ops ∨
              bridge.control.runtimeFailed = true)) ∨
      (∃ name, argv = [name, ascii "--version"]) ∧
          status = 0 ∧ bridge.ops = [] ∨
      (∀ name,
          argv ≠ [name] ∧ argv ≠ [name, ascii "--version"]) ∧
        status = 2 ∧ bridge.ops = [] := by
  have hReturns :
      ∀ code, mainArguments argv = some code →
        status = code ∧
          (Schedule.run bridgeStep (.called argv accepts coming)
            schedule).ops = [] := by
    intro code hCode
    have hRun := exited_run accepts coming schedule code
    simp only [Bridge.called, hCode] at hExits hRun ⊢
    rw [hRun.1] at hExits
    cases hExits
    exact ⟨rfl, hRun.2⟩
  rcases argv with _ | ⟨name, _ | ⟨argument, _ | ⟨other, rest⟩⟩⟩
  · exact .inr (.inr ⟨fun name => ⟨nofun, nofun⟩, hReturns 2 rfl⟩)
  · exact
      .inl
        ⟨⟨name, rfl⟩,
          (Bridge.ends_run accepts coming schedule).ends status
            hExits⟩
  · by_cases hVersion : argument = ascii "--version"
    · refine
        .inr (.inl ⟨⟨name, by rw [hVersion]⟩, hReturns 0 ?_⟩)
      exact if_pos hVersion
    · refine .inr (.inr ⟨fun other => ⟨nofun, ?_⟩, hReturns 2 ?_⟩)
      · intro hSame
        exact hVersion (List.cons.inj (List.cons.inj hSame).2).1
      · exact if_neg hVersion
  · exact .inr (.inr ⟨fun name => ⟨nofun, nofun⟩, hReturns 2 rfl⟩)

theorem exit_status_stopSchedule :
    let bridge :=
      Schedule.run bridgeStep
        (.called [ascii "skw_vhci_bridge"]
          [true, true, true, true] plainChannel)
        stopSchedule
    (∃ name, [ascii "skw_vhci_bridge"] = [name]) ∧
        (0 = 0 ∧ bridge.EndsWell ∨
          0 = 1 ∧
            (.createReader ∉ bridge.ops ∨
              bridge.control.runtimeFailed = true)) ∨
      (∃ name,
          [ascii "skw_vhci_bridge"] =
            [name, ascii "--version"]) ∧
          0 = 0 ∧ bridge.ops = [] ∨
      (∀ name,
          [ascii "skw_vhci_bridge"] ≠ [name] ∧
            [ascii "skw_vhci_bridge"] ≠
              [name, ascii "--version"]) ∧
        0 = 2 ∧ bridge.ops = [] :=
  exit_status [ascii "skw_vhci_bridge"]
    [true, true, true, true] plainChannel stopSchedule rfl

end Process

end Bluetooth

end MicaBoards
