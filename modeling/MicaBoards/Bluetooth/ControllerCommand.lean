import MicaBoards.Bluetooth.H4
import MicaBoards.Foundations.Arrivals

/-
  The synchronous commands of the bridge
  (`boards/s905x5m/userland/skw_bridge/skw_vhci_bridge.c`).

  The controller's channel is what happens while it is read.
  A deadline that passes, a stop request, a failure of the
  clock and the end of the stream are all events of it.

  Key definitions include:
    * `readH4Event`
    * `controllerCommand`
    * `commandComplete`
  Main declarations:
    * `readH4Event_eq_some_iff`
    * `controllerCommand_eq_some_iff`
-/

------------------------------------------------------------
-- Commands
------------------------------------------------------------

namespace MicaBoards

namespace Bluetooth

open Arrival (arrived readExact readExact_eq_some_iff)

/- HCI_EVENT_COMMAND_COMPLETE -/
def hciEventCommandComplete : UInt8 := 0x0e

/- HCI_MAX_EVENT_SIZE -/
def hciMaxEventSize : Nat := 258

abbrev Channel := List (Arrival UInt8)

/- `read_h4_event`: the event, and the channel after it. -/
def readH4Event
    (capacity : Nat)
    (coming : Channel) : Option (List UInt8 × Channel) :=
  if capacity < 3 then
    none
  else do
    let (type, coming) ← readExact 1 coming
    if byteAt type 0 ≠ skwH4EventPkt.toNat then
      none
    else
      let (header, coming) ← readExact 2 coming
      let total := byteAt (type ++ header) 2 + 3
      if capacity < total then
        none
      else
        let (parameters, coming) ← readExact (total - 3) coming
        some (type ++ header ++ parameters, coming)

/-
  The bridge's two ends: what `write_all` returns for each
  command to come, the commands it has written, and the
  channel that is read.
-/
structure ControllerLink where
  accepts : List Bool
  written : List (List UInt8)
  coming : Channel
deriving DecidableEq, Repr

/- The low and the high byte of an opcode. -/
def lowByte (opcode : UInt16) : UInt8 :=
  UInt8.ofNat (opcode.toNat % 256)

def highByte (opcode : UInt16) : UInt8 :=
  UInt8.ofNat (opcode.toNat / 256)

/- `command`, as it is written -/
def commandPacket
    (opcode : UInt16)
    (params : List UInt8) : List UInt8 :=
  skwH4CommandPkt :: lowByte opcode :: highByte opcode ::
    UInt8.ofNat params.length :: params

/-
  What `controller_command` does with an event: the return
  parameters, if it succeeds.
-/
def commandResult
    (event : List UInt8)
    (opcode : UInt16)
    (capacity : Nat) : Option (List UInt8) :=
  if event.length < 7 ∨
      byteAt event 1 ≠ hciEventCommandComplete.toNat ∨
      byteAt event 2 < 4 then
    none
  else if byteAt event 4 + 256 * byteAt event 5 ≠
      opcode.toNat then
    none
  else if byteAt event 6 ≠ 0 then
    none
  else
    let resultLen := byteAt event 2 - 4
    if capacity < resultLen then none
    else some ((event.drop 7).take resultLen)

/-
  `controller_command`. Where the caller takes no return
  parameters its capacity is 0.
-/
def controllerCommand
    (link : ControllerLink)
    (opcode : UInt16)
    (params : List UInt8)
    (capacity : Nat) : Option (List UInt8 × ControllerLink) :=
  if 255 < params.length then
    none
  else
    match link.accepts with
    | true :: accepts => do
        let (event, coming) ←
          readH4Event hciMaxEventSize link.coming
        let result ← commandResult event opcode capacity
        some (result,
          { accepts := accepts
            written :=
              link.written ++ [commandPacket opcode params]
            coming := coming })
    | _ => none

------------------------------------------------------------
-- Events
------------------------------------------------------------

/- An event packet. -/
def h4Event
    (code : UInt8)
    (parameters : List UInt8) : List UInt8 :=
  skwH4EventPkt :: code :: UInt8.ofNat parameters.length ::
    parameters

/- A Command Complete event with status 0. -/
def commandComplete
    (packets : UInt8)
    (opcode : UInt16)
    (result : List UInt8) : List UInt8 :=
  h4Event hciEventCommandComplete
    (packets :: lowByte opcode :: highByte opcode :: 0 :: result)

theorem toNat_ofNat_length
    {parameters : List UInt8}
    (hLength : parameters.length ≤ 255) :
    (UInt8.ofNat parameters.length).toNat =
      parameters.length := by
  rw [UInt8.toNat_ofNat', Nat.mod_eq_of_lt (by omega)]

/- An event is read if and only if it is the next one. -/
theorem readH4Event_eq_some_iff
    (capacity : Nat)
    (coming : Channel)
    (event rest : List UInt8) :
    (∃ left, readH4Event capacity coming = some (event, left) ∧
      arrived left = rest) ↔
      ∃ code parameters,
        parameters.length ≤ 255 ∧
          event = h4Event code parameters ∧
          event.length ≤ capacity ∧
          arrived coming = event ++ rest := by
  constructor
  · rintro ⟨left, hRead, rfl⟩
    unfold readH4Event at hRead
    split_ifs at hRead with hCapacity
    rcases Option.bind_eq_some_iff.mp hRead with
      ⟨⟨type, second⟩, hType, hRead⟩
    simp only at hRead
    split_ifs at hRead with hEvent
    rcases Option.bind_eq_some_iff.mp hRead with
      ⟨⟨header, third⟩, hHeader, hRead⟩
    simp only at hRead
    split_ifs at hRead with hTotal
    rcases Option.bind_eq_some_iff.mp hRead with
      ⟨⟨parameters, last⟩, hParameters, hDone⟩
    cases hDone
    have hFirst :=
      (readExact_eq_some_iff _ _ _ _).mp ⟨_, hType, rfl⟩
    have hSecond :=
      (readExact_eq_some_iff _ _ _ _).mp ⟨_, hHeader, rfl⟩
    have hThird :=
      (readExact_eq_some_iff _ _ _ _).mp ⟨_, hParameters, rfl⟩
    rcases List.length_eq_one_iff.mp hFirst.1 with ⟨first, rfl⟩
    rcases List.length_eq_two.mp hSecond.1 with
      ⟨code, len, rfl⟩
    have hKind : first = skwH4EventPkt :=
      UInt8.toNat_inj.mp (not_not.mp hEvent)
    have hLen : len.toNat = parameters.length :=
      hThird.1.symm
    subst hKind
    refine ⟨code, parameters, ?_, ?_, ?_, ?_⟩
    · rw [← hLen]
      exact Nat.le_of_lt_succ (UInt8.toNat_lt len)
    · simp [h4Event, ← hLen]
    · change ¬ capacity < len.toNat + 3 at hTotal
      simp
      omega
    · rw [hFirst.2, hSecond.2, hThird.2]
      simp
  · rintro ⟨code, parameters, hLength, rfl, hCapacity, hArrived⟩
    have hLen := toNat_ofNat_length hLength
    rcases (readExact_eq_some_iff 1 coming [skwH4EventPkt] _).mpr
      ⟨rfl, hArrived⟩ with ⟨second, hType, hSecond⟩
    rcases (readExact_eq_some_iff 2 second
      [code, UInt8.ofNat parameters.length]
      (parameters ++ rest)).mpr ⟨rfl, hSecond⟩ with
      ⟨third, hHeader, hThird⟩
    rcases (readExact_eq_some_iff parameters.length third
      parameters rest).mpr ⟨rfl, hThird⟩ with
      ⟨left, hParameters, hLeft⟩
    refine ⟨left, ?_, hLeft⟩
    have hTotal :
        (h4Event code parameters).length =
          parameters.length + 3 :=
      rfl
    have hSize :
        byteAt ([skwH4EventPkt] ++
          [code, UInt8.ofNat parameters.length]) 2 =
          parameters.length :=
      hLen
    have hEvent :
        byteAt [skwH4EventPkt] 0 = skwH4EventPkt.toNat :=
      rfl
    simp only [readH4Event, hType, hHeader, hSize, hEvent,
      Option.bind_eq_bind, Option.bind_some,
      Nat.add_sub_cancel, hParameters]
    rw [if_neg (by omega), if_neg (by simp), if_neg (by omega)]
    rfl

theorem lowByte_highByte (opcode : UInt16) :
    (lowByte opcode).toNat + 256 * (highByte opcode).toNat =
      opcode.toNat := by
  have hSize := opcode.toNat_lt
  unfold lowByte highByte
  rw [UInt8.toNat_ofNat', UInt8.toNat_ofNat']
  omega

/- The bytes of an opcode are those of no other. -/
theorem opcode_eq_iff
    (low high : UInt8)
    (opcode : UInt16) :
    low.toNat + 256 * high.toNat = opcode.toNat ↔
      low = lowByte opcode ∧ high = highByte opcode := by
  have hSplit := lowByte_highByte opcode
  have hLow := low.toNat_lt
  have hOther := (lowByte opcode).toNat_lt
  rw [← UInt8.toNat_inj, ← UInt8.toNat_inj, ← hSplit]
  omega

/- Too few return parameters are no result. -/
theorem commandResult_short
    {code : UInt8}
    {parameters : List UInt8}
    (hShort : parameters.length < 4)
    (opcode : UInt16)
    (capacity : Nat) :
    commandResult (h4Event code parameters) opcode capacity =
      none := by
  have hSize :
      (h4Event code parameters).length =
        parameters.length + 3 :=
    rfl
  unfold commandResult
  rw [if_pos (Or.inl (by omega))]

/- The checks of an event that is long enough. -/
theorem commandResult_eq
    {code packets low high status : UInt8}
    {result : List UInt8}
    (hLength : result.length + 4 ≤ 255)
    (opcode : UInt16)
    (capacity : Nat) :
    commandResult
        (h4Event code (packets :: low :: high :: status :: result))
        opcode capacity =
      if code = hciEventCommandComplete ∧ low = lowByte opcode ∧
          high = highByte opcode ∧ status = 0 ∧
          result.length ≤ capacity then
        some result
      else
        none := by
  have hLen :
      byteAt (h4Event code
        (packets :: low :: high :: status :: result)) 2 =
        result.length + 4 :=
    toNat_ofNat_length hLength
  have hSize :
      (h4Event code
        (packets :: low :: high :: status :: result)).length =
        result.length + 7 :=
    rfl
  have hCode :
      byteAt (h4Event code
        (packets :: low :: high :: status :: result)) 1 =
        code.toNat :=
    rfl
  have hOpcode :
      byteAt (h4Event code
        (packets :: low :: high :: status :: result)) 4 +
        256 * byteAt (h4Event code
          (packets :: low :: high :: status :: result)) 5 =
        low.toNat + 256 * high.toNat :=
    rfl
  have hStatus :
      byteAt (h4Event code
        (packets :: low :: high :: status :: result)) 6 =
        status.toNat :=
    rfl
  have hResult :
      (h4Event code
        (packets :: low :: high :: status :: result)).drop 7 =
        result :=
    rfl
  have hZero : status.toNat = 0 ↔ status = 0 := by
    rw [← UInt8.toNat_inj]
    rfl
  unfold commandResult
  simp only [hLen, hSize, hCode, hOpcode, hStatus, hResult,
    Nat.add_sub_cancel, List.take_length, ne_eq, opcode_eq_iff,
    UInt8.toNat_inj, hZero]
  have hSeven : ¬ result.length + 7 < 7 := by omega
  have hFour : ¬ result.length + 4 < 4 := by omega
  simp only [hSeven, hFour, false_or, or_false]
  split_ifs
  all_goals grind

/- A result is that of a Command Complete event. -/
theorem commandResult_eq_some_iff
    {code : UInt8}
    {parameters : List UInt8}
    (hLength : parameters.length ≤ 255)
    (opcode : UInt16)
    (capacity : Nat)
    (result : List UInt8) :
    commandResult (h4Event code parameters) opcode capacity =
        some result ↔
      result.length ≤ capacity ∧
        ∃ packets,
          h4Event code parameters =
            commandComplete packets opcode result := by
  by_cases hShort : parameters.length < 4
  · rw [commandResult_short hShort]
    constructor
    · intro hNone
      cases hNone
    · rintro ⟨_, packets, hEvent⟩
      have hSame := congrArg List.length hEvent
      simp [commandComplete, h4Event] at hSame
      omega
  · rcases parameters with
      _ | ⟨packets, _ | ⟨low, _ | ⟨high, _ | ⟨status, rest⟩⟩⟩⟩
    · exact absurd (by simp) hShort
    · exact absurd (by simp) hShort
    · exact absurd (by simp) hShort
    · exact absurd (by simp) hShort
    rw [commandResult_eq hLength]
    constructor
    · intro hResult
      split_ifs at hResult with hChecks
      rcases hChecks with ⟨rfl, rfl, rfl, rfl, hCapacity⟩
      cases hResult
      exact ⟨hCapacity, packets, rfl⟩
    · rintro ⟨hCapacity, others, hEvent⟩
      simp only [commandComplete, h4Event, List.cons.injEq]
        at hEvent
      rcases hEvent with
        ⟨_, rfl, _, _, rfl, rfl, rfl, rfl⟩
      exact if_pos ⟨rfl, rfl, rfl, rfl, hCapacity⟩

/-
  A command succeeds if and only if it could be written and
  the next event completes it with status 0 and a result that
  fits. It returns that result, and leaves what is behind the
  event.
-/
theorem controllerCommand_eq_some_iff
    (link : ControllerLink)
    (opcode : UInt16)
    (params : List UInt8)
    (capacity : Nat)
    (result rest : List UInt8)
    (accepts : List Bool)
    (written : List (List UInt8)) :
    (∃ coming,
      controllerCommand link opcode params capacity =
        some (result, ⟨accepts, written, coming⟩) ∧
      arrived coming = rest) ↔
      params.length ≤ 255 ∧ link.accepts = true :: accepts ∧
        written =
          link.written ++ [commandPacket opcode params] ∧
        result.length ≤ capacity ∧ result.length + 4 ≤ 255 ∧
        ∃ packets,
          arrived link.coming =
            commandComplete packets opcode result ++ rest := by
  rcases link with ⟨replies, sent, channel⟩
  constructor
  · rintro ⟨coming, hCommand, hRest⟩
    unfold controllerCommand at hCommand
    split_ifs at hCommand with hParams
    rcases replies with _ | ⟨_ | _, replies⟩
    · cases hCommand
    · cases hCommand
    rcases Option.bind_eq_some_iff.mp hCommand with
      ⟨⟨event, left⟩, hRead, hCommand⟩
    rcases Option.bind_eq_some_iff.mp hCommand with
      ⟨value, hResult, hDone⟩
    cases hDone
    rcases (readH4Event_eq_some_iff _ _ _ _).mp
      ⟨_, hRead, hRest⟩ with
      ⟨code, parameters, hLength, rfl, hSize, hArrived⟩
    rcases (commandResult_eq_some_iff hLength _ _ _).mp hResult
      with ⟨hCapacity, packets, hEvent⟩
    rw [hEvent] at hArrived
    refine ⟨Nat.le_of_not_lt hParams, rfl, rfl, hCapacity, ?_,
      packets, hArrived⟩
    have hSame := congrArg List.length hEvent
    simp [commandComplete, h4Event] at hSame
    omega
  · rintro ⟨hParams, hAccepts, rfl, hCapacity, hLength, packets,
      hArrived⟩
    have hWide :
        (packets :: lowByte opcode :: highByte opcode :: 0 ::
          result).length ≤ 255 :=
      hLength
    have hEvent :=
      (readH4Event_eq_some_iff hciMaxEventSize channel
        (commandComplete packets opcode result) rest).mpr
        ⟨_, _, hWide, rfl, ?_, hArrived⟩
    · rcases hEvent with ⟨coming, hRead, hRest⟩
      refine ⟨coming, ?_, hRest⟩
      have hResult :
          commandResult (commandComplete packets opcode result)
            opcode capacity = some result := by
        apply (commandResult_eq_some_iff hWide _ _ _).mpr
        exact ⟨hCapacity, packets, rfl⟩
      change replies = _ at hAccepts
      subst hAccepts
      unfold controllerCommand
      rw [if_neg (Nat.not_lt.mpr hParams)]
      simp only [hRead, hResult, Option.bind_eq_bind,
        Option.bind_some]
    · change result.length + 7 ≤ 258
      omega

end Bluetooth

end MicaBoards
