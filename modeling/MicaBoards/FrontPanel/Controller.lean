import MicaBoards.Foundations.ThreeWire
import Mathlib.Logic.Function.Basic

/-
  The HT1628-compatible display controller of the front
  panel, as it decodes its three wires.

  The first byte behind a start is a command, by its two high
  bits; the bytes behind an address command are display data.
  The address has as many values as the driver clears bytes.
  Key scans and the test mode are left out.

  Main declarations:
    * `Registers.command`, `Registers.store`
    * `Controller.run`
    * `run_frames`
-/

------------------------------------------------------------
-- Registers
------------------------------------------------------------

namespace MicaBoards

namespace FrontPanel

open ThreeWire

/- The bytes of the display RAM are numbered. -/
instance neZero_sixteen : @NeZero Nat Zero.ofOfNat0 16 :=
  ⟨Nat.succ_ne_zero 15⟩

structure Registers where
  mode : UInt8
  reading : Bool
  fixed : Bool
  address : Fin 16
  ram : Fin 16 → UInt8
  on : Bool
  brightness : UInt8

namespace Registers

/- Display data follow an address only. -/
def isAddress (byte : UInt8) : Bool :=
  byte &&& 0xc0 = 0xc0

/- Display mode, data command, display control, or address. -/
def command (registers : Registers) (byte : UInt8) : Registers :=
  if byte &&& 0xc0 = 0x00 then
    { registers with mode := byte &&& 0x03 }
  else if byte &&& 0xc0 = 0x40 then
    { registers with
      reading := byte &&& 0x02 ≠ 0
      fixed := byte &&& 0x04 ≠ 0 }
  else if byte &&& 0xc0 = 0x80 then
    { registers with
      on := byte &&& 0x08 ≠ 0
      brightness := byte &&& 0x07 }
  else
    { registers with
      address := Fin.ofNat 16 (byte &&& 0x0f).toNat }

/- A byte of display data, and the next address if not fixed. -/
def store (registers : Registers) (byte : UInt8) : Registers :=
  if registers.reading then
    registers
  else
    { registers with
      ram :=
        Function.update registers.ram registers.address byte
      address :=
        if registers.fixed then
          registers.address
        else
          registers.address + 1 }

/- A command, and the bytes sent with it. -/
def transact
    (registers : Registers)
    (command : UInt8)
    (data : List UInt8) : Registers :=
  if isAddress command then
    data.foldl store (registers.command command)
  else
    registers.command command

end Registers

------------------------------------------------------------
-- The Controller
------------------------------------------------------------

/- What the next byte is. -/
inductive Expecting
| command
| displayData
| nothing
deriving DecidableEq, Repr

/- The controller behind its wires. -/
structure Core where
  expecting : Expecting
  registers : Registers

def Core.take (core : Core) (frame : Frame) : Core :=
  match frame with
  | .start => { core with expecting := .command }
  | .stop => { core with expecting := .nothing }
  | .byte value =>
      match core.expecting with
      | .command =>
          { core with
            expecting :=
              if Registers.isAddress value then
                .displayData
              else
                .nothing
            registers := core.registers.command value }
      | .displayData =>
          { core with registers := core.registers.store value }
      | .nothing => core

structure Controller where
  receiver : Receiver
  core : Core

namespace Controller

/- A wire changes, and the core takes what is decoded. -/
def sense
    (controller : Controller)
    (event : LineEvent) : Controller where
  receiver := (controller.receiver.receive event).1
  core :=
    (controller.receiver.receive event).2.foldl Core.take
      controller.core

def run
    (controller : Controller)
    (events : List LineEvent) : Controller :=
  events.foldl sense controller

@[simp] theorem run_nil (controller : Controller) :
    controller.run [] = controller := rfl

theorem run_append
    (controller : Controller)
    (front behind : List LineEvent) :
    controller.run (front ++ behind) =
      (controller.run front).run behind :=
  List.foldl_append

/- The core takes all that the receiver decodes. -/
theorem run_frames
    (controller : Controller)
    (events : List LineEvent) :
    controller.run events =
      ⟨(controller.receiver.receiveAll events).1,
        (controller.receiver.receiveAll events).2.foldl
          Core.take controller.core⟩ := by
  induction events generalizing controller with
  | nil => rfl
  | cons event events ih =>
      rw [run, List.foldl_cons, ← run, ih, Receiver.receiveAll]
      simp only [sense, List.foldl_append]

end Controller

/- The bytes of a transaction behind its command. -/
theorem foldl_take_data
    (data : List UInt8)
    (core : Core)
    (hData : core.expecting = .displayData) :
    (data.map Frame.byte).foldl Core.take core =
      ⟨.displayData, data.foldl Registers.store core.registers⟩ := by
  induction data generalizing core with
  | nil =>
      rw [← hData]
      rfl
  | cons byte data ih =>
      have hTake :
          core.take (.byte byte) =
            ⟨.displayData, core.registers.store byte⟩ := by
        simp only [Core.take, hData]
      rw [List.map_cons, List.foldl_cons, List.foldl_cons,
        hTake, ih _ rfl]

theorem foldl_take_ignored
    (data : List UInt8)
    (core : Core)
    (hNothing : core.expecting = .nothing) :
    (data.map Frame.byte).foldl Core.take core = core := by
  induction data with
  | nil => rfl
  | cons byte data ih =>
      have hTake : core.take (.byte byte) = core := by
        simp only [Core.take, hNothing]
      rw [List.map_cons, List.foldl_cons, hTake, ih]

/- A whole transaction is a command with its data. -/
theorem foldl_take_transaction
    (core : Core)
    (command : UInt8)
    (data : List UInt8) :
    ([Frame.start, .byte command] ++ data.map Frame.byte ++
        [Frame.stop]).foldl Core.take core =
      ⟨.nothing, core.registers.transact command data⟩ := by
  rw [List.foldl_append, List.foldl_append]
  unfold Registers.transact
  by_cases hAddress : Registers.isAddress command = true
  · have hStart :
        [Frame.start, .byte command].foldl Core.take core =
          ⟨.displayData, core.registers.command command⟩ := by
      simp [Core.take, hAddress]
    rw [hStart, foldl_take_data _ _ rfl, if_pos hAddress]
    rfl
  · have hStart :
        [Frame.start, .byte command].foldl Core.take core =
          ⟨.nothing, core.registers.command command⟩ := by
      simp [Core.take, hAddress]
    rw [hStart, foldl_take_ignored _ _ rfl, if_neg hAddress]
    rfl

end FrontPanel

end MicaBoards
