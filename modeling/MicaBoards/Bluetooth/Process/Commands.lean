import MicaBoards.Bluetooth.ControllerAddress

/-
  The first commands of the bridge, with what they leave behind
  when one of them fails: what they have put on the vendor
  channel, and what they have read off it.

  Key definitions include:
    * `Tried`
    * `commandTried`, `commandsTried`
    * `addressCommands`, `bufferCommands`
  Main declarations:
    * `succeeded_addressCommands`, `succeeded_bufferCommands`
    * `writes_commandsTried`
-/

------------------------------------------------------------
-- What a Command Leaves
------------------------------------------------------------

namespace MicaBoards

namespace Bluetooth

namespace Process

open Arrival (readExact readExactPart readExactPart_of_readExact)

/-
  What `read_h4_event` has read when it returns, whether it
  succeeds or not, and the channel after it
-/
def readH4EventPart
    (capacity : Nat)
    (coming : Channel) : List UInt8 × Channel :=
  if capacity < 3 then
    ([], coming)
  else
    match readExact 1 coming with
    | none => readExactPart 1 coming
    | some (type, second) =>
        if byteAt type 0 ≠ skwH4EventPkt.toNat then
          (type, second)
        else
          match readExact 2 second with
          | none =>
              let (part, left) := readExactPart 2 second
              (type ++ part, left)
          | some (header, third) =>
              let total := byteAt (type ++ header) 2 + 3
              if capacity < total then
                (type ++ header, third)
              else
                let (part, left) := readExactPart (total - 3) third
                (type ++ header ++ part, left)

/-
  What some commands have left: the link, the part of a command
  at which `write_all` has failed, and what was read.
-/
structure Tried where
  link : ControllerLink
  cut : List UInt8
  answers : List UInt8
deriving DecidableEq

/-
  `controller_command`, whether it succeeds or not. When
  `write_all` fails, so many bytes of the command are written,
  but not all.
-/
def commandTried
    (link : ControllerLink)
    (opcode : UInt16)
    (params : List UInt8)
    (count : Nat) : Tried :=
  let packet := commandPacket opcode params
  if 255 < params.length then
    ⟨link, [], []⟩
  else
    match link.accepts with
    | true :: accepts =>
        let (read, coming) :=
          readH4EventPart hciMaxEventSize link.coming
        ⟨⟨accepts, link.written ++ [packet], coming⟩, [], read⟩
    | accepts =>
        ⟨{ link with accepts := accepts.tail },
          packet.take (min count (packet.length - 1)), []⟩

/- A command: its opcode, parameters and capacity -/
abbrev SetupCommand := UInt16 × List UInt8 × Nat

/- Some commands, one after the other until one fails -/
def commandsTried
    (link : ControllerLink) :
    List SetupCommand → (count : Nat) → Tried
  | [], _ => ⟨link, [], []⟩
  | (opcode, params, capacity) :: rest, count =>
      let first := commandTried link opcode params count
      match controllerCommand link opcode params capacity with
      | none => first
      | some (_, next) =>
          let later := commandsTried next rest count
          { later with answers := first.answers ++ later.answers }

/- `configure_controller_address_with_timeout` -/
def addressCommands (addr : BdAddr) : List SetupCommand :=
  [(hciWriteBdAddr, addr.bytes, 0), (hciReset, [], 0),
    (hciReadBdAddr, [], bdAddrLen)]

/- HCI_READ_BUFFER_SIZE -/
def hciReadBufferSize : UInt16 := 0x1005

/- `read_controller_buffer_sizes_with_timeout` -/
def bufferCommands : List SetupCommand :=
  [(hciReadBufferSize, [], 7)]

------------------------------------------------------------
-- Commands That Succeed
------------------------------------------------------------

/- An event that is read is all that was taken. -/
theorem readH4EventPart_of_readH4Event
    {capacity : Nat}
    {coming left : Channel}
    {event : List UInt8}
    (hRead : readH4Event capacity coming = some (event, left)) :
    readH4EventPart capacity coming = (event, left) := by
  unfold readH4Event at hRead
  unfold readH4EventPart
  split_ifs at hRead ⊢ with hCapacity
  rcases Option.bind_eq_some_iff.mp hRead with
    ⟨⟨type, second⟩, hType, hRead⟩
  simp only [hType] at hRead ⊢
  split_ifs at hRead ⊢ with hEvent
  rcases Option.bind_eq_some_iff.mp hRead with
    ⟨⟨header, third⟩, hHeader, hRead⟩
  simp only [hHeader] at hRead ⊢
  split_ifs at hRead ⊢ with hTotal
  rcases Option.bind_eq_some_iff.mp hRead with
    ⟨⟨parameters, last⟩, hParameters, hDone⟩
  cases hDone
  rw [readExactPart_of_readExact hParameters]

/-
  A command that succeeds leaves its link, was written whole,
  and has read one event.
-/
theorem commandTried_of_controllerCommand
    {link next : ControllerLink}
    {opcode : UInt16}
    {params result : List UInt8}
    {capacity : Nat}
    (hCommand :
      controllerCommand link opcode params capacity =
        some (result, next))
    (count : Nat) :
    ∃ code parameters,
      parameters.length ≤ 255 ∧
        commandTried link opcode params count =
          ⟨next, [], h4Event code parameters⟩ := by
  unfold controllerCommand at hCommand
  split_ifs at hCommand with hParams
  cases hAccepts : link.accepts with
  | nil =>
      rw [hAccepts] at hCommand
      cases hCommand
  | cons accepted accepts =>
      rw [hAccepts] at hCommand
      cases accepted with
      | false => cases hCommand
      | true =>
          rcases Option.bind_eq_some_iff.mp hCommand with
            ⟨⟨event, left⟩, hRead, hCommand⟩
          rcases Option.bind_eq_some_iff.mp hCommand with
            ⟨value, _, hDone⟩
          cases hDone
          rcases (readH4Event_eq_some_iff _ _ _ _).mp
            ⟨_, hRead, rfl⟩ with
            ⟨code, parameters, hLength, rfl, _⟩
          refine ⟨code, parameters, hLength, ?_⟩
          unfold commandTried
          rw [if_neg hParams, hAccepts]
          simp only [readH4EventPart_of_readH4Event hRead]

/- Whole events, one behind the other -/
def Events (bytes : List UInt8) : Prop :=
  ∃ events : List (List UInt8),
    bytes = events.flatten ∧
      ∀ event ∈ events, ∃ code parameters,
        parameters.length ≤ 255 ∧ event = h4Event code parameters

theorem events_nil : Events [] :=
  ⟨[], rfl, List.forall_mem_nil _⟩

theorem Events.append
    {front back : List UInt8}
    (hFront : Events front)
    (hBack : Events back) :
    Events (front ++ back) := by
  rcases hFront with ⟨first, rfl, hFirst⟩
  rcases hBack with ⟨second, rfl, hSecond⟩
  refine ⟨first ++ second, List.flatten_append.symm, ?_⟩
  intro event hEvent
  rcases List.mem_append.mp hEvent with hEvent | hEvent
  · exact hFirst event hEvent
  · exact hSecond event hEvent

/- Commands that have all succeeded -/
structure Succeeded (tried : Tried) (link : ControllerLink) :
    Prop where
  link : tried.link = link
  cut : tried.cut = []
  answers : Events tried.answers

/- One that succeeds, before others -/
theorem succeeded_cons
    {link next last : ControllerLink}
    {opcode : UInt16}
    {params result : List UInt8}
    {capacity : Nat}
    {rest : List SetupCommand}
    {count : Nat}
    (hCommand :
      controllerCommand link opcode params capacity =
        some (result, next))
    (hRest : Succeeded (commandsTried next rest count) last) :
    Succeeded
      (commandsTried link ((opcode, params, capacity) :: rest)
        count) last := by
  rcases commandTried_of_controllerCommand hCommand count with
    ⟨code, parameters, hLength, hTried⟩
  have hEvent : Events (h4Event code parameters) := by
    refine ⟨[h4Event code parameters], by simp, ?_⟩
    intro event hMem
    exact
      ⟨code, parameters, hLength, List.mem_singleton.mp hMem⟩
  rw [commandsTried, hCommand, hTried]
  exact ⟨hRest.link, hRest.cut, hEvent.append hRest.answers⟩

/- The address was written and read back. -/
theorem succeeded_addressCommands
    {link next : ControllerLink}
    {addr : BdAddr}
    (hConfigured :
      configureControllerAddressWithTimeout link addr =
        some next)
    (count : Nat) :
    Succeeded (commandsTried link (addressCommands addr) count)
      next := by
  unfold configureControllerAddressWithTimeout at hConfigured
  rcases Option.bind_eq_some_iff.mp hConfigured with
    ⟨⟨_, _⟩, hWrite, hConfigured⟩
  rcases Option.bind_eq_some_iff.mp hConfigured with
    ⟨⟨_, _⟩, hReset, hConfigured⟩
  rcases Option.bind_eq_some_iff.mp hConfigured with
    ⟨⟨_, _⟩, hRead, hConfigured⟩
  simp only at hConfigured
  split_ifs at hConfigured
  cases hConfigured
  exact
    succeeded_cons hWrite
      (succeeded_cons hReset
        (succeeded_cons hRead ⟨rfl, rfl, events_nil⟩))

/- The sizes were read. -/
theorem succeeded_bufferCommands
    {link next : ControllerLink}
    {sizes : List UInt8}
    (hCommand :
      controllerCommand link hciReadBufferSize [] 7 =
        some (sizes, next))
    (count : Nat) :
    Succeeded (commandsTried link bufferCommands count) next :=
  succeeded_cons hCommand ⟨rfl, rfl, events_nil⟩

------------------------------------------------------------
-- What Is Written
------------------------------------------------------------

/- A command whose parameters have room -/
def IsCommand (packet : List UInt8) : Prop :=
  ∃ opcode params,
    params.length ≤ 255 ∧ packet = commandPacket opcode params

/- What commands add to the channel, whether they succeed -/
structure Writes (link : ControllerLink) (tried : Tried) :
    Prop where
  whole :
    ∃ packets, tried.link.written = link.written ++ packets ∧
      ∀ packet ∈ packets, IsCommand packet
  cut :
    tried.cut = [] ∨
      ∃ packet, IsCommand packet ∧ tried.cut <+: packet ∧
        tried.cut.length < packet.length

theorem writes_commandTried
    (link : ControllerLink)
    (opcode : UInt16)
    (params : List UInt8)
    (count : Nat) :
    Writes link (commandTried link opcode params count) := by
  have hNone :
      ∃ packets, link.written = link.written ++ packets ∧
        ∀ packet ∈ packets, IsCommand packet :=
    ⟨[], (List.append_nil _).symm, List.forall_mem_nil _⟩
  unfold commandTried
  dsimp only
  split_ifs with hParams
  · exact ⟨hNone, .inl rfl⟩
  have hPacket : IsCommand (commandPacket opcode params) :=
    ⟨opcode, params, Nat.le_of_not_lt hParams, rfl⟩
  have hLength : 0 < (commandPacket opcode params).length :=
    Nat.succ_pos _
  split
  · refine ⟨⟨[commandPacket opcode params], rfl, ?_⟩, .inl rfl⟩
    intro packet hMem
    rw [List.mem_singleton.mp hMem]
    exact hPacket
  · refine ⟨hNone, .inr ⟨_, hPacket, List.take_prefix _ _, ?_⟩⟩
    dsimp only
    rw [List.length_take]
    omega

/- Some commands add whole ones, and at most a part of one. -/
theorem writes_commandsTried
    (link : ControllerLink)
    (commands : List SetupCommand)
    (count : Nat) :
    Writes link (commandsTried link commands count) := by
  induction commands generalizing link with
  | nil =>
      exact
        ⟨⟨[], (List.append_nil _).symm, List.forall_mem_nil _⟩,
          .inl rfl⟩
  | cons command rest ih =>
      rcases command with ⟨opcode, params, capacity⟩
      have hFirst := writes_commandTried link opcode params count
      unfold commandsTried
      cases hCommand :
          controllerCommand link opcode params capacity with
      | none => exact hFirst
      | some success =>
          rcases success with ⟨result, next⟩
          rcases commandTried_of_controllerCommand hCommand count
            with ⟨_, _, _, hTried⟩
          rw [hTried] at hFirst
          rcases hFirst.whole with ⟨packets, hWritten, hPackets⟩
          rcases ih next with ⟨⟨more, hMore, hCommands⟩, hCut⟩
          refine ⟨⟨packets ++ more, ?_, ?_⟩, hCut⟩
          · rw [hMore, hWritten, List.append_assoc]
          · intro packet hMem
            rcases List.mem_append.mp hMem with hMem | hMem
            · exact hPackets packet hMem
            · exact hCommands packet hMem

end Process

end Bluetooth

end MicaBoards
