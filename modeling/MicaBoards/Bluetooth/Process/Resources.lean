import MicaBoards.Bluetooth.Process.Shutdown

/-
  What the bridge takes it gives back, in the order that the
  vendor library and the kernel ask for, on every way out; and
  a thread uses what is held.

  Key definitions include:
    * `Ledger`, `Ledger.after`
    * `MainPc.Holds`
  Main declarations:
    * `bridge_accounts`
    * `exits_zero`
-/

------------------------------------------------------------
-- The Ledger
------------------------------------------------------------

namespace MicaBoards

namespace Bluetooth

namespace Process

/- What the process holds. -/
structure Ledger where
  signals : Bool
  library : Bool
  vendor : Bool
  channels : Bool
  /- an open of the channels has failed, and is not closed -/
  owed : Bool
  /- how many times they have been opened -/
  opens : Nat
  configured : Bool
  vhci : Bool
  reader : Bool
deriving DecidableEq

namespace Ledger

def empty : Ledger :=
  ⟨false, false, false, false, false, 0, false, false, false⟩

/-
  The rules. What was taken later is given back first; the
  channels are closed after each open that has failed; and
  /dev/vhci, whose open registers the adapter, waits for a
  controller that has its address.
-/
def after (held : Ledger) : ResourceOp → Option Ledger
| .openSignals =>
    if held = empty then some { held with signals := true }
    else none
| .closeSignals =>
    if held.signals && !held.library then
      some { held with signals := false }
    else none
| .dlopen =>
    if held.signals && !held.library then
      some { held with library := true }
    else none
| .dlclose =>
    if held.library && !held.vendor then
      some { held with library := false }
    else none
| .vendorInit =>
    if held.library && !held.vendor then
      some { held with vendor := true }
    else none
| .vendorCleanup =>
    if held.vendor && !held.channels && !held.owed then
      some { held with vendor := false }
    else none
| .userialOpen ok =>
    if held.vendor && !held.channels && !held.owed &&
        decide (held.opens < vendorOpenAttempts) then
      some
        { held with
          channels := ok
          owed := !ok
          opens := held.opens + 1 }
    else none
| .userialClose =>
    if (held.channels || held.owed) && !held.vhci then
      some
        { held with
          channels := false
          owed := false
          configured := false }
    else none
| .configured =>
    if held.channels then some { held with configured := true }
    else none
| .openVhci =>
    if held.configured && !held.vhci then
      some { held with vhci := true }
    else none
| .closeVhci =>
    if held.vhci && !held.reader then
      some { held with vhci := false }
    else none
| .createReader =>
    if held.vhci && !held.reader then
      some { held with reader := true }
    else none
| .joinReader =>
    if held.reader then some { held with reader := false }
    else none

/- What is held after so many operations that keep the rules. -/
def replay (ops : List ResourceOp) : Option Ledger :=
  ops.foldlM after empty

/- Nothing is held. -/
def Settled (held : Ledger) : Prop :=
  { held with opens := 0 } = empty

/- All that a running bridge uses is held. -/
structure Serves (held : Ledger) : Prop where
  signals : held.signals = true
  library : held.library = true
  vendor : held.vendor = true
  channels : held.channels = true
  configured : held.configured = true
  vhci : held.vhci = true

theorem replay_snoc
    {ops : List ResourceOp}
    {held : Ledger}
    (hReplay : replay ops = some held)
    (op : ResourceOp) :
    replay (ops ++ [op]) = held.after op := by
  unfold replay at hReplay ⊢
  rw [List.foldlM_append, hReplay]
  simp

/- The vendor library is ready. -/
def ready (opens : Nat) : Ledger :=
  { empty with
    signals := true
    library := true
    vendor := true
    opens := opens }

/- So are the channels. -/
def opened (opens : Nat) : Ledger :=
  { ready opens with channels := true }

/- So is the adapter. -/
def registered (opens : Nat) : Ledger :=
  { opened opens with
    configured := true
    vhci := true }

/- The reader thread is there. -/
def bridging (opens : Nat) : Ledger :=
  { registered opens with reader := true }

/- `cleanup_vendor_library` and `cleanup_signal_handling`. -/
structure Closing (held : Ledger) : Prop where
  signals : held.signals = true
  library : held.vendor = true → held.library = true
  vendor : held.channels = true → held.vendor = true
  configured : held.configured = true → held.channels = true
  owed : held.owed = false
  vhci : held.vhci = false
  reader : held.reader = false

/- Then what is left are the signals. -/
theorem Closing.settled
    {held : Ledger}
    (hClosing : held.Closing)
    (hLibrary : held.library = false) :
    { held with signals := false }.Settled := by
  have hVendor : held.vendor = false := by
    rw [← Bool.not_eq_true]
    exact fun h =>
      Bool.false_ne_true (hLibrary.symm.trans (hClosing.library h))
  have hChannels : held.channels = false := by
    rw [← Bool.not_eq_true]
    exact fun h =>
      Bool.false_ne_true (hVendor.symm.trans (hClosing.vendor h))
  have hConfigured : held.configured = false := by
    rw [← Bool.not_eq_true]
    exact fun h =>
      Bool.false_ne_true
        (hChannels.symm.trans (hClosing.configured h))
  simp [Settled, empty, hLibrary, hVendor, hChannels, hConfigured,
    hClosing.owed, hClosing.vhci, hClosing.reader]

theorem closing_signals :
    { empty with signals := true }.Closing :=
  ⟨rfl, nofun, nofun, nofun, rfl, rfl, rfl⟩

theorem closing_library :
    { empty with signals := true, library := true }.Closing :=
  ⟨rfl, nofun, nofun, nofun, rfl, rfl, rfl⟩

theorem closing_ready (opens : Nat) :
    (ready opens).Closing :=
  ⟨rfl, fun _ => rfl, nofun, nofun, rfl, rfl, rfl⟩

theorem closing_opened (opens : Nat) :
    (opened opens).Closing :=
  ⟨rfl, fun _ => rfl, fun _ => rfl, nofun, rfl, rfl, rfl⟩

theorem closing_configured (opens : Nat) :
    { opened opens with configured := true }.Closing :=
  ⟨rfl, fun _ => rfl, fun _ => rfl, fun _ => rfl, rfl, rfl, rfl⟩

/- Each part of the cleanup leaves the rest in order. -/
theorem Closing.closeChannels
    {held : Ledger}
    (hClosing : held.Closing) :
    { held with
      channels := false
      owed := false
      configured := false }.Closing :=
  ⟨hClosing.signals, hClosing.library, nofun, nofun, rfl,
    hClosing.vhci, hClosing.reader⟩

theorem Closing.cleanVendor
    {held : Ledger}
    (hClosing : held.Closing)
    (hChannels : held.channels = false) :
    { held with vendor := false }.Closing :=
  ⟨hClosing.signals, nofun,
    fun h => absurd (hChannels.symm.trans h) Bool.false_ne_true,
    hClosing.configured, hClosing.owed, hClosing.vhci,
    hClosing.reader⟩

theorem Closing.unload
    {held : Ledger}
    (hClosing : held.Closing)
    (hVendor : held.vendor = false) :
    { held with library := false }.Closing :=
  ⟨hClosing.signals,
    fun h => absurd (hVendor.symm.trans h) Bool.false_ne_true,
    hClosing.vendor, hClosing.configured, hClosing.owed,
    hClosing.vhci, hClosing.reader⟩

theorem serves_bridging (opens : Nat) :
    (bridging opens).Serves :=
  ⟨rfl, rfl, rfl, rfl, rfl, rfl⟩

end Ledger

------------------------------------------------------------
-- What Is Held Where
------------------------------------------------------------

/- What is held where the main thread is. -/
def MainPc.Holds (held : Ledger) : MainPc → Prop
| .signals => held = .empty
| .bdaddr => held = { Ledger.empty with signals := true }
| .dlopen => held = { Ledger.empty with signals := true }
| .dlsym =>
    held = { Ledger.empty with signals := true, library := true }
| .vendorInit =>
    held = { Ledger.empty with signals := true, library := true }
| .powerCtrl => held = .ready 0
| .userialOpen attempt =>
    ∃ opens,
      held = .ready opens ∧
        opens < vendorOpenAttempts ∧ attempt = opens + 1
| .userialClose attempt =>
    held = { Ledger.ready attempt with owed := true }
| .retry attempt => held = .ready attempt
| .delay attempt => held = .ready attempt
| .consume (.delayCheck attempt _) => held = .ready attempt
| .request (.delayCheck attempt _) => held = .ready attempt
| .delayCheck attempt _ => held = .ready attempt
| .channels => ∃ opens, held = .opened opens
| .address => ∃ opens, held = .opened opens
| .bufferSizes => ∃ opens, held = .opened opens
| .openVhci =>
    ∃ opens, held = { Ledger.opened opens with configured := true }
| .createReader => ∃ opens, held = .registered opens
| .closeVhci _ => ∃ opens, held = .registered opens
| .consume .cleanup => held.Closing
| .request .cleanup => held.Closing
| .closeChannels _ => held.Closing
| .epilog _ => held.Closing ∧ held.channels = false
| .dlclose _ => held.Closing ∧ held.vendor = false
| .closeSignals _ => held.Closing ∧ held.library = false
| .exited _ => held.Settled
| _ => ∃ opens, held = .bridging opens

/- The static variables say what is held. -/
structure Bridge.Marks (bridge : Bridge) (held : Ledger) : Prop where
  library : bridge.libHandle = held.library
  vendor : bridge.vendorInitialized = held.vendor
  channels : bridge.vendorChannelsOpen = held.channels
  interface :
    held.vendor = true ∨ bridge.main = .vendorInit →
      bridge.vendorInterface = true

/-
  The operations have kept the rules, and what is held by them
  is what the main thread has reached.
-/
structure Bridge.Owns (bridge : Bridge) (held : Ledger) : Prop where
  replay : Ledger.replay bridge.ops = some held
  place : bridge.main.Holds held
  marks : bridge.Marks held

namespace Bridge

variable {bridge : Bridge}
variable {held : Ledger}

/- Without the vendor library its interface is not needed. -/
theorem interface_unneeded
    {held : Ledger}
    {next : Bridge}
    (hVendor : held.vendor = false)
    (hNext : (next.main == .vendorInit) = false)
    (hNeeds : held.vendor = true ∨ next.main = .vendorInit) :
    next.vendorInterface = true := by
  rcases hNeeds with hHeld | hMain
  · exact absurd (hVendor.symm.trans hHeld) Bool.false_ne_true
  · exact absurd hMain (ne_of_beq_false hNext)

/- The main thread goes on with what it holds. -/
theorem Owns.goes
    (hOwns : bridge.Owns held)
    {next : Bridge}
    (hSame :
      (next.ops, next.libHandle, next.vendorInitialized,
          next.vendorChannelsOpen, next.vendorInterface) =
        (bridge.ops, bridge.libHandle, bridge.vendorInitialized,
          bridge.vendorChannelsOpen, bridge.vendorInterface))
    (hNext : (next.main == .vendorInit) = false)
    (hPlace : next.main.Holds held) :
    ∃ held, next.Owns held := by
  simp only [Prod.mk.injEq] at hSame
  rcases hSame with
    ⟨hOps, hLibrary, hVendor, hChannels, hInterface⟩
  have hMarks := hOwns.marks
  refine
    ⟨held, hOps ▸ hOwns.replay, hPlace,
      hLibrary.trans hMarks.library, hVendor.trans hMarks.vendor,
      hChannels.trans hMarks.channels, fun hNeeds => ?_⟩
  rw [hInterface]
  exact
    hMarks.interface
      (.inl (hNeeds.resolve_right (ne_of_beq_false hNext)))

/- It takes something, or gives it back. -/
theorem Owns.performs
    (hOwns : bridge.Owns held)
    {next : Bridge}
    {op : ResourceOp}
    {taken : Ledger}
    (hOps : next.ops = bridge.ops ++ [op])
    (hAfter : held.after op = some taken)
    (hPlace : next.main.Holds taken)
    (hMarks : next.Marks taken) :
    ∃ held, next.Owns held :=
  ⟨taken, hOps ▸ (Ledger.replay_snoc hOwns.replay op).trans hAfter,
    hPlace, hMarks⟩

/- An operation that leaves the vendor library as it is. -/
theorem Owns.operates
    (hOwns : bridge.Owns held)
    {next : Bridge}
    {op : ResourceOp}
    {taken : Ledger}
    (hVendor : held.vendor = true)
    (hSame :
      (next.libHandle, next.vendorInitialized,
          next.vendorChannelsOpen, next.vendorInterface) =
        (bridge.libHandle, bridge.vendorInitialized,
          bridge.vendorChannelsOpen, bridge.vendorInterface))
    (hOps : next.ops = bridge.ops ++ [op])
    (hAfter : held.after op = some taken)
    (hKept :
      (taken.library, taken.vendor, taken.channels) =
        (held.library, held.vendor, held.channels))
    (hPlace : next.main.Holds taken) :
    ∃ held, next.Owns held := by
  simp only [Prod.mk.injEq] at hSame hKept
  rcases hSame with
    ⟨hLibHandle, hInitialized, hOpen, hInterface⟩
  rcases hKept with ⟨hLibrary, hVendor', hChannels⟩
  have hMarks := hOwns.marks
  refine
    hOwns.performs hOps hAfter hPlace
      ⟨hLibHandle.trans (hMarks.library.trans hLibrary.symm),
        hInitialized.trans (hMarks.vendor.trans hVendor'.symm),
        hOpen.trans (hMarks.channels.trans hChannels.symm), ?_⟩
  rw [hInterface]
  exact fun _ => hMarks.interface (.inl hVendor)

/- A packet is no operation. -/
theorem owns_packetStep
    {opens : Nat}
    (hOwns : bridge.Owns (.bridging opens))
    (hangup : Bool)
    (packet : List UInt8) :
    ∃ held, (packetStep bridge hangup packet).Owns held := by
  rcases packetStep_cases bridge hangup packet with
    ⟨_, pc, rfl | rfl, hStep⟩ |
      ⟨_, hStep | ⟨_, _, _, _, hStep⟩⟩
  all_goals
    rw [hStep]
    exact hOwns.goes rfl rfl ⟨opens, rfl⟩

/- Nor is a command that fails. -/
theorem Owns.refuse
    (hOwns : bridge.Owns held)
    (hClosing : held.Closing)
    (tried : Tried)
    (seen : Bool) :
    ∃ held, ((bridge.tries tried).refuse seen).Owns held := by
  cases seen with
  | true => exact hOwns.goes rfl rfl hClosing
  | false => exact hOwns.goes rfl rfl hClosing

/- What is held does not depend on signals. -/
theorem holds_look
    {next : MainLook}
    (hHolds : (MainPc.consume next).Holds held) :
    (MainPc.request next).Holds held ∧ next.pc.Holds held ∧
      (next.pc == .vendorInit) = false := by
  cases next <;> exact ⟨hHolds, hHolds, rfl⟩

/- A step of the main thread keeps the rules. -/
theorem Owns.mainStep
    (hOwns : bridge.Owns held)
    (hBounded : bridge.main.Bounded)
    {answer : MainAnswer}
    (hJoins : bridge.main = .join → answer.ok = true) :
    ∃ held, (mainStep bridge answer).Owns held := by
  have hPlace := hOwns.place
  have hMarks := hOwns.marks
  unfold Process.mainStep
  cases hMain : bridge.main
  all_goals rw [hMain] at hPlace hBounded
  case signals =>
    subst hPlace
    simp only
    split_ifs
    · exact
        hOwns.performs rfl rfl rfl
          ⟨hMarks.library, hMarks.vendor, hMarks.channels,
            interface_unneeded rfl rfl⟩
    · exact hOwns.goes rfl rfl rfl
  case bdaddr =>
    subst hPlace
    simp only
    split
    · exact hOwns.goes rfl rfl Ledger.closing_signals
    · exact hOwns.goes rfl rfl rfl
  case dlopen =>
    subst hPlace
    simp only
    split_ifs
    · exact
        hOwns.performs rfl rfl rfl
          ⟨rfl, hMarks.vendor, hMarks.channels,
            interface_unneeded rfl rfl⟩
    · exact hOwns.goes rfl rfl Ledger.closing_signals
  case dlsym =>
    subst hPlace
    simp only
    split_ifs
    · exact
        ⟨_, hOwns.replay, rfl, hMarks.library, hMarks.vendor,
          hMarks.channels, fun _ => rfl⟩
    · exact hOwns.goes rfl rfl Ledger.closing_library
  case vendorInit =>
    subst hPlace
    simp only
    split_ifs
    · exact
        hOwns.performs rfl rfl rfl
          ⟨hMarks.library, rfl, hMarks.channels,
            fun _ => hMarks.interface (.inr hMain)⟩
    · exact hOwns.goes rfl rfl Ledger.closing_library
  case powerCtrl =>
    subst hPlace
    exact
      hOwns.goes rfl rfl ⟨0, rfl, by decide, rfl⟩
  case userialOpen attempt =>
    rcases hPlace with ⟨opens, rfl, hLast, rfl⟩
    have hAfter :
        ∀ ok,
          (Ledger.ready opens).after (.userialOpen ok) =
            some
              { Ledger.ready (opens + 1) with
                channels := ok
                owed := !ok } := by
      intro ok
      simp [Ledger.after, Ledger.ready, Ledger.empty, hLast]
    simp only
    split_ifs
    · exact
        hOwns.performs rfl (hAfter true) ⟨opens + 1, rfl⟩
          ⟨hMarks.library, hMarks.vendor, rfl,
            fun _ => hMarks.interface (.inl rfl)⟩
    · exact hOwns.operates rfl rfl rfl (hAfter false) rfl rfl
  case userialClose attempt =>
    subst hPlace
    exact hOwns.operates rfl rfl rfl rfl rfl rfl
  case retry attempt =>
    subst hPlace
    simp only
    split_ifs
    · exact hOwns.goes rfl rfl (Ledger.closing_ready attempt)
    · exact hOwns.goes rfl rfl rfl
  case delay attempt =>
    subst hPlace
    simp only
    split
    · exact hOwns.goes rfl rfl rfl
    · exact hOwns.goes rfl rfl rfl
    · split_ifs
      · exact hOwns.goes rfl rfl rfl
      · exact hOwns.goes rfl rfl rfl
  case consume next =>
    have hLook := holds_look hPlace
    simp only [look]
    split_ifs
    · exact hOwns.goes rfl rfl hLook.1
    · exact hOwns.goes rfl hLook.2.2 hLook.2.1
  case request next =>
    have hHere : (MainPc.consume next).Holds held := by
      cases next <;> exact hPlace
    have hLook := holds_look hHere
    exact hOwns.goes rfl hLook.2.2 hLook.2.1
  case delayCheck attempt failed =>
    subst hPlace
    simp only
    split_ifs
    · exact hOwns.goes rfl rfl (Ledger.closing_ready attempt)
    · exact hOwns.goes rfl rfl ⟨attempt, rfl, hBounded, rfl⟩
  case channels =>
    rcases hPlace with ⟨opens, rfl⟩
    simp only
    split_ifs
    · exact hOwns.goes rfl rfl ⟨opens, rfl⟩
    · exact hOwns.goes rfl rfl (Ledger.closing_opened opens)
  case address =>
    rcases hPlace with ⟨opens, rfl⟩
    simp only
    split
    · exact hOwns.goes rfl rfl (Ledger.closing_opened opens)
    · split
      · exact hOwns.goes rfl rfl ⟨opens, rfl⟩
      · exact hOwns.refuse (Ledger.closing_opened opens) _ _
  case bufferSizes =>
    rcases hPlace with ⟨opens, rfl⟩
    simp only
    split
    · split
      · exact hOwns.operates rfl rfl rfl rfl rfl ⟨opens, rfl⟩
      · exact hOwns.refuse (Ledger.closing_opened opens) _ _
    · exact hOwns.refuse (Ledger.closing_opened opens) _ _
  case openVhci =>
    rcases hPlace with ⟨opens, rfl⟩
    simp only
    split_ifs
    · exact hOwns.operates rfl rfl rfl rfl rfl ⟨opens, rfl⟩
    · exact hOwns.goes rfl rfl (Ledger.closing_configured opens)
  case createReader =>
    rcases hPlace with ⟨opens, rfl⟩
    simp only
    split_ifs
    · exact hOwns.operates rfl rfl rfl rfl rfl ⟨opens, rfl⟩
    · exact hOwns.goes rfl rfl ⟨opens, rfl⟩
  case join =>
    rcases hPlace with ⟨opens, rfl⟩
    simp only
    split_ifs with hFailed
    · rw [hJoins hMain] at hFailed
      cases hFailed
    · exact hOwns.operates rfl rfl rfl rfl rfl ⟨opens, rfl⟩
    · exact ⟨_, hOwns⟩
  case closeVhci failed =>
    rcases hPlace with ⟨opens, rfl⟩
    exact
      hOwns.operates rfl rfl rfl rfl rfl
        (Ledger.closing_configured opens)
  case closeChannels failed =>
    simp only
    split_ifs with hOpen
    · have hHeld : held.channels = true :=
        hMarks.channels.symm.trans hOpen.2
      have hVendor := hPlace.vendor hHeld
      have hAfter :
          held.after .userialClose =
            some
              { held with
                channels := false
                owed := false
                configured := false } := by
        simp [Ledger.after, hHeld, hPlace.vhci]
      exact
        hOwns.performs rfl hAfter
          ⟨Ledger.Closing.closeChannels hPlace, rfl⟩
          ⟨hMarks.library, hMarks.vendor, rfl, fun _ => hOpen.1⟩
    · refine hOwns.goes rfl rfl ⟨hPlace, ?_⟩
      rw [← Bool.not_eq_true]
      intro hHeld
      exact
        hOpen
          ⟨hMarks.interface (.inl (hPlace.vendor hHeld)),
            hMarks.channels.trans hHeld⟩
  case epilog failed =>
    rcases hPlace with ⟨hClosing, hChannels⟩
    simp only
    split_ifs with hReady
    · have hHeld : held.vendor = true :=
        hMarks.vendor.symm.trans hReady.2
      have hAfter :
          held.after .vendorCleanup =
            some { held with vendor := false } := by
        simp [Ledger.after, hHeld, hChannels, hClosing.owed]
      exact
        hOwns.performs rfl hAfter
          ⟨hClosing.cleanVendor hChannels, rfl⟩
          ⟨hMarks.library, rfl, hMarks.channels,
            interface_unneeded rfl rfl⟩
    · have hHeld : held.vendor = false := by
        rw [← Bool.not_eq_true]
        intro hHeld
        exact
          hReady
            ⟨hMarks.interface (.inl hHeld),
              hMarks.vendor.trans hHeld⟩
      refine
        ⟨held, hOwns.replay, ⟨hClosing, hHeld⟩, hMarks.library,
          hMarks.vendor, hMarks.channels,
          interface_unneeded hHeld rfl⟩
  case dlclose failed =>
    rcases hPlace with ⟨hClosing, hVendor⟩
    simp only
    split_ifs with hLibrary
    · have hHeld : held.library = true :=
        hMarks.library.symm.trans hLibrary
      have hAfter :
          held.after .dlclose =
            some { held with library := false } := by
        simp [Ledger.after, hHeld, hVendor]
      exact
        hOwns.performs rfl hAfter
          ⟨hClosing.unload hVendor, rfl⟩
          ⟨rfl, hMarks.vendor, hMarks.channels,
            interface_unneeded hVendor rfl⟩
    · rw [Bool.not_eq_true] at hLibrary
      exact
        hOwns.goes rfl rfl
          ⟨hClosing, hMarks.library.symm.trans hLibrary⟩
  case closeSignals failed =>
    rcases hPlace with ⟨hClosing, hLibrary⟩
    have hAfter :
        held.after .closeSignals =
          some { held with signals := false } := by
      simp [Ledger.after, hClosing.signals, hLibrary]
    exact
      hOwns.performs rfl hAfter (hClosing.settled hLibrary)
        ⟨hMarks.library, hMarks.vendor, hMarks.channels,
          fun hNeeds =>
            hMarks.interface
              (.inl (hNeeds.resolve_right (ne_of_beq_false rfl)))⟩
  case exited status => exact ⟨_, hOwns⟩
  case read hangup =>
    rcases hPlace with ⟨opens, rfl⟩
    simp only
    split
    · exact hOwns.goes rfl rfl ⟨opens, rfl⟩
    · exact hOwns.goes rfl rfl ⟨opens, rfl⟩
    · split_ifs
      · exact hOwns.goes rfl rfl ⟨opens, rfl⟩
      · exact owns_packetStep hOwns _ _
  case poll =>
    rcases hPlace with ⟨opens, rfl⟩
    simp only
    split
    · exact hOwns.goes rfl rfl ⟨opens, rfl⟩
    · exact hOwns.goes rfl rfl ⟨opens, rfl⟩
    · split_ifs
      · exact hOwns.goes rfl rfl ⟨opens, rfl⟩
      · exact hOwns.goes rfl rfl ⟨opens, rfl⟩
  case write hangup packet call =>
    rcases hPlace with ⟨opens, rfl⟩
    simp only
    split
    · split_ifs
      · exact hOwns.goes rfl rfl ⟨opens, rfl⟩
      · exact hOwns.goes rfl rfl ⟨opens, rfl⟩
    · exact hOwns.goes rfl rfl ⟨opens, rfl⟩
    · exact hOwns.goes rfl rfl ⟨opens, rfl⟩
  case stop continues =>
    rcases hPlace with ⟨opens, rfl⟩
    cases continues with
    | true => exact hOwns.goes rfl rfl ⟨opens, rfl⟩
    | false => exact hOwns.goes rfl rfl ⟨opens, rfl⟩
  all_goals
    rcases hPlace with ⟨opens, rfl⟩
    simp only
    (try split_ifs) <;>
      exact hOwns.goes rfl rfl ⟨opens, rfl⟩

end Bridge

------------------------------------------------------------
-- Runs
------------------------------------------------------------

/- `pthread_join` does not fail on a thread that was created. -/
def JoinSucceeds (bridge : Bridge) : BridgeAction → Prop
| .main answer => bridge.main = .join → answer.ok = true
| _ => True

namespace Bridge

variable {bridge : Bridge}

/- The reader thread runs. -/
def Reads (bridge : Bridge) : Prop :=
  bridge.reader ≠ .idle ∧ bridge.reader ≠ .exited

/- Until it has ended, the main thread stays at the join. -/
theorem bridging_of_mainStep
    {answer : MainAnswer}
    (hBridging : bridge.main.Bridging)
    (hJoins : bridge.main = .join → answer.ok = true)
    (hReader : bridge.reader ≠ .exited) :
    (mainStep bridge answer).main.Bridging := by
  unfold Process.mainStep
  cases hMain : bridge.main
  all_goals rw [hMain] at hBridging
  case consume next =>
    simp only [look]
    cases next <;> split_ifs <;> trivial
  case request next =>
    cases next <;> trivial
  case join =>
    have hOk := hJoins hMain
    simp only [hOk, Bool.true_eq_false, if_false, hReader]
    rw [hMain]
    trivial
  case read hangup =>
    simp only
    split
    · trivial
    · trivial
    · split_ifs
      · trivial
      · rename_i piece _ _
        rcases packetStep_cases bridge hangup
            (piece.take skwH4KernelMaxFrame) with
          ⟨_, pc, rfl | rfl, hStep⟩ |
            ⟨_, hStep | ⟨_, _, _, _, hStep⟩⟩
        all_goals
          rw [hStep]
          trivial
  all_goals
    first
    | exact hBridging.elim
    | simp only
      repeat' split
      all_goals trivial

/- What holds of the resources in every run. -/
structure Accounted (bridge : Bridge) : Prop where
  sound : bridge.Sound
  owns : ∃ held, bridge.Owns held
  reads : bridge.Reads → bridge.main.Bridging

theorem Accounted.bridgeStep
    (hAccounted : bridge.Accounted)
    {action : BridgeAction}
    (hJoins : JoinSucceeds bridge action) :
    (Process.bridgeStep bridge action).Accounted := by
  have hSound := hAccounted.sound.bridgeStep action
  rcases hAccounted.owns with ⟨held, hOwns⟩
  refine ⟨hSound, ?_, ?_⟩
  · cases action with
    | main answer =>
        exact
          hOwns.mainStep hAccounted.sound.bounded.main hJoins
    | reader answer =>
        rcases readerMoves_readerStep bridge answer with
          ⟨_, _, _, _, _, _, _, hNext⟩
        rw [Process.bridgeStep, hNext]
        have hMarks := hOwns.marks
        exact
          ⟨held, hOwns.replay, hOwns.place, hMarks.library,
            hMarks.vendor, hMarks.channels, hMarks.interface⟩
    | signal =>
        unfold Process.bridgeStep
        simp only
        split_ifs
        · have hMarks := hOwns.marks
          exact
            ⟨held, hOwns.replay, hOwns.place, hMarks.library,
              hMarks.vendor, hMarks.channels, hMarks.interface⟩
        · exact ⟨held, hOwns⟩
  · intro hReads
    cases action with
    | main answer =>
        have hMove := mainMoves_mainStep bridge answer
        rcases hMove.reader with hSame | ⟨hMain, hStart⟩
        · have hBefore : bridge.Reads := by
            unfold Reads at hReads ⊢
            rw [← hSame]
            exact hReads
          exact
            bridging_of_mainStep (hAccounted.reads hBefore) hJoins
              hBefore.2
        · -- it has just been created
          rw [Process.bridgeStep] at hReads ⊢
          unfold Process.mainStep at hReads hStart ⊢
          rw [hMain] at hReads hStart ⊢
          simp only at hReads hStart ⊢
          split_ifs at hReads hStart ⊢
          · trivial
          · have hOver := hAccounted.reads hReads
            rw [hMain] at hOver
            exact hOver.elim
    | reader answer =>
        rcases readerMoves_readerStep bridge answer with
          ⟨_, reader, _, _, _, _, hIdle, hNext⟩
        have hBefore : bridge.Reads := by
          refine ⟨fun h => hReads.1 ?_, fun h => hReads.2 ?_⟩
          · rw [Process.bridgeStep, readerStep, h]
            exact h
          · rw [Process.bridgeStep, readerStep, h]
            exact h
        rw [Process.bridgeStep, hNext]
        exact hAccounted.reads hBefore
    | signal =>
        unfold Process.bridgeStep at hReads ⊢
        simp only at hReads ⊢
        split_ifs at hReads ⊢
        · exact hAccounted.reads hReads
        · exact hAccounted.reads hReads

end Bridge

/- A thread in its loop uses the channels and /dev/vhci. -/
structure Accounting (bridge : Bridge) (held : Ledger) : Prop where
  replay : Ledger.replay bridge.ops = some held
  main : bridge.main.Bridging → held.Serves
  reader : bridge.Reads → held.Serves
  settled : ∀ status, bridge.main = .exited status → held.Settled

theorem holds_bridging
    {held : Ledger}
    {pc : MainPc}
    (hHolds : pc.Holds held)
    (hBridging : pc.Bridging) :
    held.Serves := by
  cases pc
  case consume next =>
    cases next
    all_goals
      first
      | exact hBridging.elim
      | rcases hHolds with ⟨opens, rfl⟩
        exact Ledger.serves_bridging opens
  case request next =>
    cases next
    all_goals
      first
      | exact hBridging.elim
      | rcases hHolds with ⟨opens, rfl⟩
        exact Ledger.serves_bridging opens
  all_goals
    first
    | exact hBridging.elim
    | rcases hHolds with ⟨opens, rfl⟩
      exact Ledger.serves_bridging opens

/-
  In every run the operations of the process keep the rules,
  neither thread uses what is not held, and when the process
  ends all of it has been given back.
-/
theorem bridge_accounts
    (accepts : List Bool)
    (coming : Channel)
    (schedule : List BridgeAction)
    (hJoins :
      Schedule.Along bridgeStep JoinSucceeds
        (.start accepts coming) schedule) :
    ∃ held,
      Accounting
        (Schedule.run bridgeStep (.start accepts coming) schedule)
        held := by
  have hStart : (Bridge.start accepts coming).Accounted :=
    ⟨Bridge.sound_run accepts coming [],
      ⟨.empty, rfl, rfl, rfl, rfl, rfl, by rintro (h | h) <;> cases h⟩,
      fun hReads => absurd rfl hReads.1⟩
  have hAccounted :=
    hJoins.invariant
      (fun _ _ hNow hJoin => hNow.bridgeStep hJoin) hStart
  rcases hAccounted.owns with ⟨held, hOwns⟩
  have hPlace := hOwns.place
  refine
    ⟨held, hOwns.replay, holds_bridging hPlace,
      fun hReads =>
        holds_bridging hPlace (hAccounted.reads hReads),
      fun status hExited => ?_⟩
  rw [hExited] at hPlace
  exact hPlace

/- A thread without bytes to read. -/
def quietAnswer : ReaderAnswer where
  poll := .events []
  send := .again
  wait := .events false false

/- A bridge that starts, and then is stopped by a signal. -/
def stopSchedule : List BridgeAction :=
  List.replicate 12 (.main plainAnswer) ++
    .signal ::
      (List.replicate 6 (.main plainAnswer) ++
        (List.replicate 4 (.reader quietAnswer) ++
          List.replicate 6 (.main plainAnswer)))

theorem joins_stopSchedule
    (bridge : Bridge) :
    Schedule.Along bridgeStep JoinSucceeds bridge
      stopSchedule := by
  refine Schedule.along_of_mem (fun action hMem bridge => ?_) _
  cases action with
  | main answer =>
      have hSame : answer = plainAnswer := by
        simpa [stopSchedule, List.mem_replicate] using hMem
      subst hSame
      exact fun _ => rfl
  | reader answer => trivial
  | signal => trivial

theorem bridge_accounts_stopSchedule :
    ∃ held,
      Accounting
        (Schedule.run bridgeStep
          (.start [true, true, true, true] plainChannel)
          stopSchedule)
        held :=
  bridge_accounts [true, true, true, true] plainChannel
    stopSchedule (joins_stopSchedule _)

end Process

end Bluetooth

end MicaBoards
