import MicaBoards.FrontPanel.Controller
import Mathlib.Data.Fin.VecNotation
import Mathlib.Data.List.FinRange

/-
  The front panel driver (`skykirin_ht1628.c`): its cached
  fields, and the wire events of its transactions.

  The kernel's 7-segment table and its number parsers are
  parameters. What an operation returns is the value the
  kernel hands to its caller, an error if negative.

  Main declarations:
    * `Ht1628Panel`
    * `ht1628Transaction`, `ht1628Restore`
    * `textStore`, `symbolsStore`, `brightnessStore`,
      `enabledStore`
    * `ht1628Probe`, `ht1628Suspend`, `ht1628Resume`
-/

------------------------------------------------------------
-- Transactions
------------------------------------------------------------

namespace MicaBoards

namespace FrontPanel

open ThreeWire

/- `HT1628_NUM_DIGITS` -/
abbrev numDigits : Nat := 4

/- `HT1628_RAM_BYTES` -/
abbrev ramBytes : Nat := 16

/- `ht1628_digit_addr` -/
def digitAddr : Fin numDigits → UInt8 :=
  ![0xc0, 0xc2, 0xc4, 0xc6]

/- The cached fields of `struct ht1628_panel`. -/
structure Ht1628Panel where
  text : Fin numDigits → UInt8
  digits : Fin numDigits → UInt8
  symbols : UInt8
  brightness : UInt8
  enabled : Bool

/- The loop of `ht1628_send_byte`, `bit` more times. -/
def sendBits : Nat → UInt8 → List LineEvent
| 0, _ => []
| bit + 1, value =>
    [⟨.clock, false⟩, ⟨.data, value &&& 1 ≠ 0⟩,
      ⟨.clock, true⟩] ++ sendBits bit (value >>> 1)

/- `ht1628_send_byte` -/
def ht1628SendByte (value : UInt8) : List LineEvent :=
  sendBits 8 value

/- `ht1628_transaction` -/
def ht1628Transaction
    (command : UInt8)
    (data : List UInt8) : List LineEvent :=
  [⟨.strobe, true⟩, ⟨.strobe, false⟩] ++
    ht1628SendByte command ++
    data.flatMap ht1628SendByte ++
    [⟨.strobe, true⟩]

/- `ht1628_write_control` -/
def ht1628WriteControl
    (panel : Ht1628Panel)
    (enabled : Bool) : List LineEvent :=
  let command := 0x80 ||| panel.brightness
  ht1628Transaction
    (if enabled then command ||| 0x08 else command) []

/- `ht1628_write_digits` -/
def ht1628WriteDigits (panel : Ht1628Panel) : List LineEvent :=
  (List.finRange numDigits).flatMap fun i =>
    ht1628Transaction (digitAddr i) [panel.digits i]

/- `ht1628_write_symbols` -/
def ht1628WriteSymbols (panel : Ht1628Panel) : List LineEvent :=
  ht1628Transaction 0xc8 [panel.symbols]

/- `ht1628_restore` -/
def ht1628Restore (panel : Ht1628Panel) : List LineEvent :=
  ht1628Transaction 0x03 [] ++
    ht1628Transaction 0x40 [] ++
    ht1628Transaction (digitAddr 0)
      (List.replicate ramBytes 0) ++
    ht1628Transaction 0x44 [] ++
    ht1628WriteDigits panel ++
    ht1628WriteSymbols panel ++
    ht1628WriteControl panel panel.enabled

------------------------------------------------------------
-- Attributes
------------------------------------------------------------

/- What the driver uses of the kernel. -/
structure Kernel where
  mapToSeg7 : UInt8 → Int
  kstrtou8 : List UInt8 → Except Int UInt8
  kstrtobool : List UInt8 → Except Int Bool

/- The error numbers of the driver. -/
def eTooBig : Int := 7

def eInvalid : Int := 22

def eRange : Int := 34

/- What a store returns, and what it does. -/
structure Stored where
  result : Int
  panel : Ht1628Panel
  events : List LineEvent

/- An error, and nothing done. -/
def Ht1628Panel.reject
    (panel : Ht1628Panel)
    (error : Int) : Stored :=
  ⟨error, panel, []⟩

/- The text of a write, without a newline at its end. -/
def stripNewline (buf : List UInt8) : List UInt8 :=
  if buf.getLast? = some 0x0a then buf.dropLast else buf

/- The segments of each character, or the first error. -/
def mapText
    (kernel : Kernel) :
    List UInt8 → Except Int (List UInt8)
| [] => .ok []
| c :: text =>
    if c < 0x20 ∨ 0x7e < c then
      .error (-eInvalid)
    else
      let mapped := kernel.mapToSeg7 c
      if mapped < 0 then
        .error mapped
      else
        match mapText kernel text with
        | .error error => .error error
        | .ok digits => .ok (UInt8.ofInt mapped :: digits)

/- `text_show` -/
def textShow (panel : Ht1628Panel) : List UInt8 :=
  [panel.text 0, panel.text 1, panel.text 2, panel.text 3,
    0x0a]

/- `text_store` -/
def textStore
    (kernel : Kernel)
    (panel : Ht1628Panel)
    (buf : List UInt8) : Stored :=
  let text := stripNewline buf
  if numDigits < text.length then
    panel.reject (-eTooBig)
  else
    match mapText kernel text with
    | .error error => panel.reject error
    | .ok digits =>
        let panel :=
          { panel with
            text := fun i => text.getD i 0x20
            digits := fun i => digits.getD i 0 }
        ⟨buf.length, panel, ht1628WriteDigits panel⟩

/- `symbols_store` -/
def symbolsStore
    (kernel : Kernel)
    (panel : Ht1628Panel)
    (buf : List UInt8) : Stored :=
  match kernel.kstrtou8 buf with
  | .error ret => panel.reject ret
  | .ok symbols =>
      let panel := { panel with symbols := symbols }
      ⟨buf.length, panel, ht1628WriteSymbols panel⟩

/- `brightness_store` -/
def brightnessStore
    (kernel : Kernel)
    (panel : Ht1628Panel)
    (buf : List UInt8) : Stored :=
  match kernel.kstrtou8 buf with
  | .error ret => panel.reject ret
  | .ok brightness =>
      if 7 < brightness then
        panel.reject (-eRange)
      else
        let panel := { panel with brightness := brightness }
        ⟨buf.length, panel,
          ht1628WriteControl panel panel.enabled⟩

/- `enabled_store` -/
def enabledStore
    (kernel : Kernel)
    (panel : Ht1628Panel)
    (buf : List UInt8) : Stored :=
  match kernel.kstrtobool buf with
  | .error ret => panel.reject ret
  | .ok enabled =>
      let panel := { panel with enabled := enabled }
      ⟨buf.length, panel, ht1628WriteControl panel enabled⟩

------------------------------------------------------------
-- Probe, Suspend and Resume
------------------------------------------------------------

/- The fields that `ht1628_probe` sets, the others zero. -/
def probedPanel : Ht1628Panel where
  text := fun _ => 0x20
  digits := fun _ => 0
  symbols := 0
  brightness := 7
  enabled := true

/-
  `ht1628_probe`, once the wires are acquired, each high, and
  with what adding the attributes returned.
-/
def ht1628Probe (ret : Int) : Stored where
  result := ret
  panel := probedPanel
  events :=
    [⟨.strobe, true⟩, ⟨.clock, true⟩, ⟨.data, true⟩] ++
      ht1628Restore probedPanel ++
      if ret ≠ 0 then
        ht1628WriteControl probedPanel false
      else
        []

/- `ht1628_suspend`, and `ht1628_remove` -/
def ht1628Suspend (panel : Ht1628Panel) : List LineEvent :=
  ht1628WriteControl panel false

/- `ht1628_resume` -/
def ht1628Resume (panel : Ht1628Panel) : List LineEvent :=
  ht1628Restore panel

------------------------------------------------------------
-- The Panel and Its Controller
------------------------------------------------------------

/- The files that a user writes to. -/
inductive DeviceAttr
| text
| symbols
| brightness
| enabled
deriving DecidableEq, Repr

/- The store function of an attribute. -/
def DeviceAttr.store
    (attr : DeviceAttr)
    (kernel : Kernel)
    (panel : Ht1628Panel)
    (buf : List UInt8) : Stored :=
  match attr with
  | .text => textStore kernel panel buf
  | .symbols => symbolsStore kernel panel buf
  | .brightness => brightnessStore kernel panel buf
  | .enabled => enabledStore kernel panel buf

structure World where
  panel : Ht1628Panel
  controller : Controller
  suspended : Bool

/- The controller senses what the driver sends. -/
def World.perform (world : World) (stored : Stored) : World :=
  { world with
    panel := stored.panel
    controller := world.controller.run stored.events }

/- What happened, with what a store returned. -/
inductive Operation
| store
    (attr : DeviceAttr) (buf : List UInt8) (result : Int)
| suspend
| resume

/-
  The runs that begin with a probe, the last operation first.
  Before a resume the controller may have any state.
-/
inductive Run (kernel : Kernel) : List Operation → World → Prop
| probe (controller : Controller) :
    Run kernel []
      ⟨(ht1628Probe 0).panel,
        controller.run (ht1628Probe 0).events, false⟩
| store
    {history : List Operation}
    {world : World}
    (attr : DeviceAttr)
    (buf : List UInt8) :
    Run kernel history world → world.suspended = false →
      Run kernel
        (.store attr buf
          (attr.store kernel world.panel buf).result ::
          history)
        (world.perform (attr.store kernel world.panel buf))
| suspend
    {history : List Operation}
    {world : World} :
    Run kernel history world → world.suspended = false →
      Run kernel (.suspend :: history)
        ⟨world.panel,
          world.controller.run (ht1628Suspend world.panel), true⟩
| resume
    {history : List Operation}
    {world : World}
    (left : Controller) :
    Run kernel history world → world.suspended = true →
      Run kernel (.resume :: history)
        ⟨world.panel, left.run (ht1628Resume world.panel), false⟩

end FrontPanel

end MicaBoards
