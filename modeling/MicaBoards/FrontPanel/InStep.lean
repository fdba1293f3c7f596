import MicaBoards.FrontPanel.Driver

/-
  The cached fields of the driver and the registers of the
  controller agree after every operation.

  Main declarations:
    * `run_transaction`
    * `InStep`
    * `panel_inStep`
-/

------------------------------------------------------------
-- Decoding
------------------------------------------------------------

namespace MicaBoards

namespace FrontPanel

open ThreeWire

/- The byte's bits are put out lowest first. -/
theorem sendBits_eq
    (count : Nat)
    (value : UInt8) :
    sendBits count value =
      (bitsOf count value.toNat).flatMap clockBit := by
  induction count generalizing value with
  | zero => rfl
  | succ count ih =>
      have hBit :
          decide (value &&& 1 ≠ 0) =
            decide (value.toNat % 2 = 1) := by
        rw [Bool.eq_iff_iff, decide_eq_true_eq,
          decide_eq_true_eq, ne_eq, ← UInt8.toNat_inj,
          UInt8.toNat_and]
        have hOne : value.toNat &&& 1 = value.toNat % 2 :=
          Nat.and_one_is_mod _
        have hNat : (1 : UInt8).toNat = 1 := rfl
        have hZero : (0 : UInt8).toNat = 0 := rfl
        rw [hNat, hZero, hOne]
        omega
      have hShift : (value >>> 1).toNat = value.toNat / 2 := by
        rw [UInt8.toNat_shiftRight]
        exact Nat.shiftRight_eq_div_pow _ 1
      rw [sendBits, bitsOf, List.flatMap_cons, ih, hShift,
        hBit]
      rfl

theorem receiveAll_sendByte
    {receiver : Receiver}
    (hStrobe : receiver.strobe = false)
    (hBits : receiver.bits = [])
    (value : UInt8) :
    (receiver.receiveAll (ht1628SendByte value)).2 =
        [.byte value] ∧
      (receiver.receiveAll (ht1628SendByte value)).1.strobe =
        false ∧
      (receiver.receiveAll (ht1628SendByte value)).1.bits =
        [] := by
  rw [ht1628SendByte, sendBits_eq]
  exact receiveAll_byte hStrobe hBits value

theorem receiveAll_sendBytes
    {receiver : Receiver}
    (hStrobe : receiver.strobe = false)
    (hBits : receiver.bits = [])
    (data : List UInt8) :
    (receiver.receiveAll (data.flatMap ht1628SendByte)).2 =
        data.map Frame.byte ∧
      (receiver.receiveAll
        (data.flatMap ht1628SendByte)).1.strobe = false := by
  induction data generalizing receiver with
  | nil => exact ⟨rfl, hStrobe⟩
  | cons value data ih =>
      rcases receiveAll_sendByte hStrobe hBits value with
        ⟨hFrames, hStrobe', hBits'⟩
      rcases ih hStrobe' hBits' with ⟨hRest, hLast⟩
      rw [List.flatMap_cons, Receiver.receiveAll_append,
        hFrames, hRest]
      exact ⟨rfl, hLast⟩

/-
  From any state of its wires, the controller decodes a
  transaction as its command with its data.
-/
theorem run_transaction
    (controller : Controller)
    (command : UInt8)
    (data : List UInt8) :
    (controller.run
        (ht1628Transaction command data)).core.registers =
      controller.core.registers.transact command data := by
  let begun : Receiver :=
    { controller.receiver with strobe := false, bits := [] }
  have hStart :
      (controller.receiver.receiveAll
          [⟨.strobe, true⟩, ⟨.strobe, false⟩]).1 = begun ∧
        ∃ stopped : List Frame,
          (stopped = [] ∨ stopped = [.stop]) ∧
            (controller.receiver.receiveAll
                [⟨.strobe, true⟩, ⟨.strobe, false⟩]).2 =
              stopped ++ [.start] := by
    cases hStrobe : controller.receiver.strobe with
    | true =>
        refine ⟨?_, [], Or.inl rfl, ?_⟩
        · simp [Receiver.receiveAll, Receiver.receive, hStrobe,
            begun]
        · simp [Receiver.receiveAll, Receiver.receive, hStrobe]
    | false =>
        refine ⟨?_, [.stop], Or.inr rfl, ?_⟩
        · simp [Receiver.receiveAll, Receiver.receive, hStrobe,
            begun]
        · simp [Receiver.receiveAll, Receiver.receive, hStrobe]
  rcases hStart with ⟨hBegun, stopped, hStopped, hFrames⟩
  have hCommand :=
    @receiveAll_sendByte begun rfl rfl command
  have hData :=
    receiveAll_sendBytes hCommand.2.1 hCommand.2.2 data
  have hAll :
      (controller.receiver.receiveAll
          (ht1628Transaction command data)).2 =
        stopped ++
          ([.start, .byte command] ++ data.map Frame.byte ++
            [.stop]) := by
    rw [ht1628Transaction, Receiver.receiveAll_append,
      Receiver.receiveAll_append, Receiver.receiveAll_append,
      hFrames, hBegun, hCommand.1, hData.1]
    simp [Receiver.receiveAll, Receiver.receive, hData.2]
  have hBefore :
      (stopped.foldl Core.take controller.core).registers =
        controller.core.registers := by
    rcases hStopped with rfl | rfl
    · rfl
    · rfl
  rw [Controller.run_frames, hAll, List.foldl_append,
    foldl_take_transaction, hBefore]

/- Transactions one after the other. -/
theorem run_transactions
    {α : Type}
    (command : α → UInt8)
    (data : α → List UInt8)
    (items : List α)
    (controller : Controller) :
    (controller.run
        (items.flatMap fun item =>
          ht1628Transaction (command item)
            (data item))).core.registers =
      items.foldl
        (fun registers item =>
          registers.transact (command item) (data item))
        controller.core.registers := by
  induction items generalizing controller with
  | nil => rfl
  | cons item items ih =>
      rw [List.flatMap_cons, Controller.run_append, ih,
        run_transaction, List.foldl_cons]

------------------------------------------------------------
-- Registers
------------------------------------------------------------

/- The display RAM of a digit. -/
def digitRam : Fin numDigits → Fin ramBytes :=
  ![0, 2, 4, 6]

/- The display RAM of the symbols. -/
def symbolsRam : Fin ramBytes := 8

namespace Registers

/- Bytes to one of the addresses. -/
theorem transact_digitAddr
    (registers : Registers)
    (i : Fin numDigits)
    (data : List UInt8) :
    registers.transact (digitAddr i) data =
      data.foldl store
        { registers with address := digitRam i } := by
  match i with
  | 0 => rfl
  | 1 => rfl
  | 2 => rfl
  | 3 => rfl

theorem transact_symbols
    (registers : Registers)
    (data : List UInt8) :
    registers.transact 0xc8 data =
      data.foldl store
        { registers with address := symbolsRam } := rfl

/- One byte to a fixed address. -/
theorem store_fixed
    {registers : Registers}
    (hWriting : registers.reading = false)
    (hFixed : registers.fixed = true)
    (byte : UInt8) :
    registers.store byte =
      { registers with
        ram :=
          Function.update registers.ram registers.address
            byte } := by
  rw [store, hWriting, hFixed]
  rfl

/- A byte to the address that follows by itself. -/
theorem store_auto
    {registers : Registers}
    (hWriting : registers.reading = false)
    (hAuto : registers.fixed = false)
    (byte : UInt8) :
    registers.store byte =
      { registers with
        ram :=
          Function.update registers.ram registers.address byte
        address := registers.address + 1 } := by
  rw [store, hWriting, hAuto]
  rfl

/- Zeros to address after address change nothing else. -/
theorem foldl_store_zeros
    (count : Nat)
    {registers : Registers}
    (hWriting : registers.reading = false)
    (hAuto : registers.fixed = false) :
    ∃ (ram : Fin 16 → UInt8) (address : Fin 16),
      (List.replicate count 0).foldl store registers =
          { registers with ram := ram, address := address } ∧
        (∀ a, registers.ram a = 0 → ram a = 0) ∧
        ∀ step < count,
          ram (registers.address + Fin.ofNat 16 step) = 0 := by
  induction count generalizing registers with
  | zero =>
      exact ⟨registers.ram, registers.address, rfl,
        fun _ hZero => hZero, fun step hStep => by omega⟩
  | succ count ih =>
      rw [List.replicate_succ, List.foldl_cons,
        store_auto hWriting hAuto]
      rcases @ih
          { registers with
            ram :=
              Function.update registers.ram registers.address 0
            address := registers.address + 1 }
          hWriting hAuto with
        ⟨ram, address, hRun, hKeep, hZero⟩
      refine ⟨ram, address, hRun, ?_, ?_⟩
      · intro a hZeroA
        apply hKeep
        by_cases hAddress : a = registers.address
        · rw [hAddress]
          exact Function.update_self _ _ _
        · change Function.update registers.ram
            registers.address 0 a = 0
          rw [Function.update_of_ne hAddress]
          exact hZeroA
      · intro step hStep
        cases step with
        | zero =>
            apply hKeep
            have hHere :
                registers.address + Fin.ofNat 16 0 =
                  registers.address := by
              apply Fin.ext
              simp
            rw [hHere]
            exact Function.update_self _ _ _
        | succ step =>
            have hNext :
                registers.address + Fin.ofNat 16 (step + 1) =
                  registers.address + 1 + Fin.ofNat 16 step := by
              apply Fin.ext
              simp [Fin.val_add]
              omega
            rw [hNext]
            exact hZero step (by omega)

end Registers

------------------------------------------------------------
-- In Step
------------------------------------------------------------

/-
  The registers hold what the cached fields say, and nothing
  else is displayed.
-/
structure InStep
    (panel : Ht1628Panel)
    (on : Bool)
    (registers : Registers) : Prop where
  mode : registers.mode = 0x03
  writing : registers.reading = false
  fixed : registers.fixed = true
  digits : ∀ i, registers.ram (digitRam i) = panel.digits i
  symbols : registers.ram symbolsRam = panel.symbols
  blank : ∀ a, (∀ i, a ≠ digitRam i) → a ≠ symbolsRam →
    registers.ram a = 0
  brightness : registers.brightness = panel.brightness
  on : registers.on = on

theorem digitRam_injective :
    Function.Injective digitRam := by
  have hAll :
      ∀ i j : Fin numDigits, digitRam i = digitRam j → i = j := by
    decide
  exact fun i j => hAll i j

theorem digitRam_ne_symbolsRam (i : Fin numDigits) :
    digitRam i ≠ symbolsRam := by
  revert i
  decide

/- The digits, one after the other. -/
theorem foldl_transact_digits
    (panel : Ht1628Panel)
    (items : List (Fin numDigits))
    {registers : Registers}
    (hNodup : items.Nodup)
    (hWriting : registers.reading = false)
    (hFixed : registers.fixed = true) :
    ∃ (ram : Fin 16 → UInt8) (address : Fin 16),
      items.foldl
          (fun registers i =>
            registers.transact (digitAddr i) [panel.digits i])
          registers =
          { registers with ram := ram, address := address } ∧
        (∀ i ∈ items, ram (digitRam i) = panel.digits i) ∧
        ∀ a, (∀ i ∈ items, a ≠ digitRam i) →
          ram a = registers.ram a := by
  induction items generalizing registers with
  | nil =>
      exact ⟨registers.ram, registers.address, rfl, by simp,
        fun _ _ => rfl⟩
  | cons item items ih =>
      rw [List.nodup_cons] at hNodup
      have hFirst :=
        @Registers.store_fixed
          { registers with address := digitRam item }
          hWriting hFixed (panel.digits item)
      rw [List.foldl_cons, Registers.transact_digitAddr,
        List.foldl_cons, List.foldl_nil, hFirst]
      rcases @ih
          { registers with
            ram :=
              Function.update registers.ram (digitRam item)
                (panel.digits item)
            address := digitRam item }
          hNodup.2 hWriting hFixed with
        ⟨ram, address, hRun, hDigits, hRest⟩
      refine ⟨ram, address, hRun, ?_, ?_⟩
      · intro i hi
        rcases List.mem_cons.mp hi with hEq | hMem
        · rw [hEq, hRest]
          · exact Function.update_self _ _ _
          · intro j hj hSame
            rw [digitRam_injective hSame] at hNodup
            exact hNodup.1 hj
        · exact hDigits i hMem
      · intro a ha
        rw [hRest a fun i hi => ha i (by simp [hi])]
        exact Function.update_of_ne (ha item (by simp)) _ _

/- What `ht1628_write_digits` does to the registers. -/
theorem run_writeDigits
    {controller : Controller}
    (hWriting : controller.core.registers.reading = false)
    (hFixed : controller.core.registers.fixed = true)
    (panel : Ht1628Panel) :
    ∃ (ram : Fin 16 → UInt8) (address : Fin 16),
      (controller.run
          (ht1628WriteDigits panel)).core.registers =
          { controller.core.registers with
            ram := ram, address := address } ∧
        (∀ i, ram (digitRam i) = panel.digits i) ∧
        ∀ a, (∀ i, a ≠ digitRam i) →
          ram a = controller.core.registers.ram a := by
  rcases foldl_transact_digits panel (List.finRange numDigits)
      (List.nodup_finRange _) hWriting hFixed with
    ⟨ram, address, hRun, hDigits, hRest⟩
  refine ⟨ram, address, ?_, ?_, ?_⟩
  · rw [ht1628WriteDigits, run_transactions, hRun]
  · exact fun i => hDigits i (List.mem_finRange i)
  · exact fun a ha => hRest a fun i _ => ha i

/- What `ht1628_write_symbols` does to the registers. -/
theorem run_writeSymbols
    {controller : Controller}
    (hWriting : controller.core.registers.reading = false)
    (hFixed : controller.core.registers.fixed = true)
    (panel : Ht1628Panel) :
    (controller.run
        (ht1628WriteSymbols panel)).core.registers =
      { controller.core.registers with
        ram :=
          Function.update controller.core.registers.ram
            symbolsRam panel.symbols
        address := symbolsRam } := by
  rw [ht1628WriteSymbols, run_transaction,
    Registers.transact_symbols, List.foldl_cons,
    List.foldl_nil]
  exact
    @Registers.store_fixed
      { controller.core.registers with address := symbolsRam }
      hWriting hFixed _

/- The bits of the display control byte. -/
theorem control_bits
    {brightness : UInt8}
    (hBrightness : brightness ≤ 7)
    (enabled : Bool) :
    let byte :=
      if enabled then
        0x80 ||| brightness ||| 0x08
      else
        0x80 ||| brightness
    byte &&& 0xc0 = 0x80 ∧ byte &&& 0x07 = brightness ∧
      decide (byte &&& 0x08 ≠ 0) = enabled := by
  have hAll :
      ∀ n < 8, ∀ enabled : Bool,
        let byte : UInt8 :=
          if enabled then
            0x80 ||| UInt8.ofNat n ||| 0x08
          else
            0x80 ||| UInt8.ofNat n
        byte &&& 0xc0 = 0x80 ∧
          byte &&& 0x07 = UInt8.ofNat n ∧
          decide (byte &&& 0x08 ≠ 0) = enabled := by
    decide
  have hNat : brightness.toNat < 8 := by
    have hLe := UInt8.le_iff_toNat_le.mp hBrightness
    have hSeven : (7 : UInt8).toNat = 7 := rfl
    omega
  have hCase := hAll brightness.toNat hNat enabled
  rwa [UInt8.ofNat_toNat] at hCase

/- What `ht1628_write_control` does to the registers. -/
theorem run_writeControl
    {panel : Ht1628Panel}
    (hBrightness : panel.brightness ≤ 7)
    (enabled : Bool)
    (controller : Controller) :
    (controller.run
        (ht1628WriteControl panel enabled)).core.registers =
      { controller.core.registers with
        on := enabled
        brightness := panel.brightness } := by
  rw [ht1628WriteControl, run_transaction]
  rcases control_bits hBrightness enabled with
    ⟨hKind, hLow, hOn⟩
  simp only at hKind hLow hOn ⊢
  generalize hByte :
    (if enabled = true then
      (0x80 : UInt8) ||| panel.brightness ||| 0x08
    else 0x80 ||| panel.brightness) = byte at hKind hLow hOn ⊢
  have hNotAddress : ¬ Registers.isAddress byte = true := by
    rw [Registers.isAddress, hKind]
    decide
  have hNotMode : ¬ (0x80 : UInt8) = 0x00 := by decide
  have hNotData : ¬ (0x80 : UInt8) = 0x40 := by decide
  rw [Registers.transact, if_neg hNotAddress,
    Registers.command, hKind, if_neg hNotMode,
    if_neg hNotData, if_pos rfl, hLow, hOn]

------------------------------------------------------------
-- Operations
------------------------------------------------------------

/- From any registers, `ht1628_restore` puts them in step. -/
theorem inStep_restore
    {panel : Ht1628Panel}
    (hBrightness : panel.brightness ≤ 7)
    (controller : Controller) :
    InStep panel panel.enabled
      (controller.run (ht1628Restore panel)).core.registers := by
  unfold ht1628Restore
  simp only [Controller.run_append]
  generalize hMode :
    controller.run (ht1628Transaction 0x03 []) = afterMode
  generalize hAuto :
    afterMode.run (ht1628Transaction 0x40 []) = afterAuto
  generalize hClear :
    afterAuto.run
      (ht1628Transaction (digitAddr 0)
        (List.replicate ramBytes 0)) = afterClear
  generalize hFixed :
    afterClear.run (ht1628Transaction 0x44 []) = afterFixed
  generalize hDigits :
    afterFixed.run (ht1628WriteDigits panel) = afterDigits
  generalize hSymbols :
    afterDigits.run (ht1628WriteSymbols panel) = afterSymbols
  have rMode : afterMode.core.registers =
      { controller.core.registers with mode := 0x03 } := by
    rw [← hMode, run_transaction]
    rfl
  have rAuto : afterAuto.core.registers =
      { afterMode.core.registers with
        reading := false, fixed := false } := by
    rw [← hAuto, run_transaction]
    rfl
  have rClear := run_transaction afterAuto (digitAddr 0)
    (List.replicate ramBytes 0)
  rw [hClear, Registers.transact_digitAddr] at rClear
  rcases @Registers.foldl_store_zeros ramBytes
      { afterAuto.core.registers with address := digitRam 0 }
      (by rw [rAuto]) (by rw [rAuto]) with
    ⟨ram, address, hRun, _, hZero⟩
  rw [hRun] at rClear
  have hBlank : ∀ a, ram a = 0 := by
    intro a
    have hStep := hZero a.val a.isLt
    have hHere : digitRam 0 + Fin.ofNat 16 a.val = a := by
      apply Fin.ext
      simp [digitRam]
    rwa [hHere] at hStep
  have rFixed : afterFixed.core.registers =
      { afterClear.core.registers with
        reading := false, fixed := true } := by
    rw [← hFixed, run_transaction]
    rfl
  rcases @run_writeDigits afterFixed (by rw [rFixed])
      (by rw [rFixed]) panel with
    ⟨ramDigits, addressDigits, rDigits, hSame, hRest⟩
  rw [hDigits] at rDigits
  have rSymbols :=
    @run_writeSymbols afterDigits (by rw [rDigits, rFixed])
      (by rw [rDigits, rFixed]) panel
  rw [hSymbols] at rSymbols
  rw [run_writeControl hBrightness, rSymbols, rDigits, rFixed,
    rClear, rAuto, rMode]
  refine ⟨rfl, rfl, rfl, ?_, ?_, ?_, rfl, rfl⟩
  · intro i
    simp only
    rw [Function.update_of_ne (digitRam_ne_symbolsRam i)]
    exact hSame i
  · simp only [Function.update_self]
  · intro a hDigit hSymbol
    simp only
    rw [Function.update_of_ne hSymbol, hRest a hDigit, rFixed,
      rClear]
    exact hBlank a

/- A text store leaves what is not a digit. -/
theorem InStep.writeDigits
    {before after : Ht1628Panel}
    {on : Bool}
    {controller : Controller}
    (hStep : InStep before on controller.core.registers)
    (hSymbols : after.symbols = before.symbols)
    (hBrightness : after.brightness = before.brightness) :
    InStep after on
      (controller.run
        (ht1628WriteDigits after)).core.registers := by
  rcases run_writeDigits hStep.writing hStep.fixed after with
    ⟨ram, address, hRun, hDigits, hRest⟩
  rw [hRun]
  refine ⟨hStep.mode, hStep.writing, hStep.fixed, hDigits,
    ?_, ?_, ?_, hStep.on⟩
  · have hSymbol := hRest symbolsRam fun i =>
      (digitRam_ne_symbolsRam i).symm
    rw [hSymbols, ← hStep.symbols]
    exact hSymbol
  · intro a hDigit hNotSymbol
    exact (hRest a hDigit).trans
      (hStep.blank a hDigit hNotSymbol)
  · rw [hBrightness]
    exact hStep.brightness

/- A symbols store leaves what is not the symbols. -/
theorem InStep.writeSymbols
    {before after : Ht1628Panel}
    {on : Bool}
    {controller : Controller}
    (hStep : InStep before on controller.core.registers)
    (hDigits : after.digits = before.digits)
    (hBrightness : after.brightness = before.brightness) :
    InStep after on
      (controller.run
        (ht1628WriteSymbols after)).core.registers := by
  rw [run_writeSymbols hStep.writing hStep.fixed]
  refine ⟨hStep.mode, hStep.writing, hStep.fixed, ?_, ?_, ?_,
    ?_, hStep.on⟩
  · intro i
    simp only
    rw [Function.update_of_ne (digitRam_ne_symbolsRam i),
      hDigits]
    exact hStep.digits i
  · simp only [Function.update_self]
  · intro a hDigit hNotSymbol
    simp only
    rw [Function.update_of_ne hNotSymbol]
    exact hStep.blank a hDigit hNotSymbol
  · rw [hBrightness]
    exact hStep.brightness

/- The display control leaves the display RAM. -/
theorem InStep.writeControl
    {before after : Ht1628Panel}
    {on : Bool}
    {controller : Controller}
    (hStep : InStep before on controller.core.registers)
    (hDigits : after.digits = before.digits)
    (hSymbols : after.symbols = before.symbols)
    (hBrightness : after.brightness ≤ 7)
    (enabled : Bool) :
    InStep after enabled
      (controller.run
        (ht1628WriteControl after enabled)).core.registers := by
  rw [run_writeControl hBrightness]
  refine ⟨hStep.mode, hStep.writing, hStep.fixed, ?_, ?_,
    hStep.blank, rfl, rfl⟩
  · rw [hDigits]
    exact hStep.digits
  · rw [hSymbols]
    exact hStep.symbols

------------------------------------------------------------
-- Texts
------------------------------------------------------------

/- The text of the last store that succeeded. -/
def lastText : List Operation → List UInt8
| [] => []
| .store .text buf result :: history =>
    if 0 ≤ result then
      stripNewline buf
    else
      lastText history
| _ :: history => lastText history

/- The segments of an accepted text. -/
theorem mapText_ok
    {kernel : Kernel}
    {text digits : List UInt8}
    (hMap : mapText kernel text = .ok digits) :
    digits =
      text.map fun c => UInt8.ofInt (kernel.mapToSeg7 c) := by
  induction text generalizing digits with
  | nil =>
      rw [mapText, Except.ok.injEq] at hMap
      rw [← hMap, List.map_nil]
  | cons c text ih =>
      rw [mapText] at hMap
      simp only at hMap
      split_ifs at hMap with hChar hMapped
      cases hRest : mapText kernel text with
      | error error => simp [hRest] at hMap
      | ok rest =>
          simp only [hRest, Except.ok.injEq] at hMap
          rw [← hMap, List.map_cons, ih hRest]

/- A text that is not accepted is an error. -/
theorem mapText_error
    {kernel : Kernel}
    {text : List UInt8}
    {error : Int}
    (hMap : mapText kernel text = .error error) :
    error < 0 := by
  induction text with
  | nil => simp [mapText] at hMap
  | cons c text ih =>
      rw [mapText] at hMap
      simp only at hMap
      split_ifs at hMap with hChar hMapped
      · rw [Except.error.injEq] at hMap
        rw [← hMap]
        decide
      · rw [Except.error.injEq] at hMap
        rw [← hMap]
        exact hMapped
      · cases hRest : mapText kernel text with
        | error error' =>
            simp only [hRest, Except.error.injEq] at hMap
            rw [hMap] at hRest
            exact ih hRest
        | ok rest => simp [hRest] at hMap

/- A text store is an error, or sets text and digits. -/
theorem textStore_cases
    (kernel : Kernel)
    (panel : Ht1628Panel)
    (buf : List UInt8) :
    (∃ error < 0, textStore kernel panel buf =
        panel.reject error) ∨
      ((stripNewline buf).length ≤ numDigits ∧
        textStore kernel panel buf =
          let after : Ht1628Panel :=
            { panel with
              text := fun i => (stripNewline buf).getD i 0x20
              digits := fun i =>
                ((stripNewline buf).map fun c =>
                  UInt8.ofInt (kernel.mapToSeg7 c)).getD i 0 }
          ⟨buf.length, after, ht1628WriteDigits after⟩) := by
  unfold textStore
  by_cases hLong : numDigits < (stripNewline buf).length
  · left
    exact ⟨-eTooBig, by decide, by rw [if_pos hLong]⟩
  · simp only [if_neg hLong]
    cases hMap : mapText kernel (stripNewline buf) with
    | error error =>
        left
        exact ⟨error, mapText_error hMap, rfl⟩
    | ok digits =>
        right
        rw [mapText_ok hMap]
        exact ⟨by omega, rfl⟩

/- The other stores are errors, or set their own field. -/
theorem symbolsStore_cases
    (kernel : Kernel)
    (panel : Ht1628Panel)
    (buf : List UInt8) :
    (∃ error, symbolsStore kernel panel buf =
        panel.reject error) ∨
      ∃ symbols, symbolsStore kernel panel buf =
        ⟨buf.length, { panel with symbols := symbols },
          ht1628WriteSymbols
            { panel with symbols := symbols }⟩ := by
  unfold symbolsStore
  cases kernel.kstrtou8 buf with
  | error ret => exact Or.inl ⟨ret, rfl⟩
  | ok symbols => exact Or.inr ⟨symbols, rfl⟩

theorem brightnessStore_cases
    (kernel : Kernel)
    (panel : Ht1628Panel)
    (buf : List UInt8) :
    (∃ error, brightnessStore kernel panel buf =
        panel.reject error) ∨
      ∃ brightness ≤ 7, brightnessStore kernel panel buf =
        ⟨buf.length, { panel with brightness := brightness },
          ht1628WriteControl
            { panel with brightness := brightness }
            panel.enabled⟩ := by
  unfold brightnessStore
  cases kernel.kstrtou8 buf with
  | error ret => exact Or.inl ⟨ret, rfl⟩
  | ok brightness =>
      simp only
      by_cases hLarge : 7 < brightness
      · rw [if_pos hLarge]
        exact Or.inl ⟨-eRange, rfl⟩
      · rw [if_neg hLarge]
        exact Or.inr ⟨brightness, UInt8.not_lt.mp hLarge, rfl⟩

theorem enabledStore_cases
    (kernel : Kernel)
    (panel : Ht1628Panel)
    (buf : List UInt8) :
    (∃ error, enabledStore kernel panel buf =
        panel.reject error) ∨
      ∃ enabled, enabledStore kernel panel buf =
        ⟨buf.length, { panel with enabled := enabled },
          ht1628WriteControl { panel with enabled := enabled }
            enabled⟩ := by
  unfold enabledStore
  cases kernel.kstrtobool buf with
  | error ret => exact Or.inl ⟨ret, rfl⟩
  | ok enabled => exact Or.inr ⟨enabled, rfl⟩

------------------------------------------------------------
-- Runs
------------------------------------------------------------

/- An error leaves the panel and its controller. -/
theorem World.perform_reject
    (world : World)
    (error : Int) :
    world.perform (world.panel.reject error) = world := rfl

/- A store that returns an error does nothing. -/
theorem perform_of_result_neg
    (kernel : Kernel)
    (world : World)
    (attr : DeviceAttr)
    (buf : List UInt8)
    (hError :
      (attr.store kernel world.panel buf).result < 0) :
    world.perform (attr.store kernel world.panel buf) =
      world := by
  cases attr with
  | text =>
      unfold DeviceAttr.store at hError ⊢
      rcases textStore_cases kernel world.panel buf with
        ⟨error, _, hStore⟩ | ⟨_, hStore⟩
      · rw [hStore, World.perform_reject]
      · rw [hStore] at hError
        exact absurd hError (by simp)
  | symbols =>
      unfold DeviceAttr.store at hError ⊢
      rcases symbolsStore_cases kernel world.panel buf with
        ⟨error, hStore⟩ | ⟨symbols, hStore⟩
      · rw [hStore, World.perform_reject]
      · rw [hStore] at hError
        exact absurd hError (by simp)
  | brightness =>
      unfold DeviceAttr.store at hError ⊢
      rcases brightnessStore_cases kernel world.panel buf with
        ⟨error, hStore⟩ | ⟨brightness, _, hStore⟩
      · rw [hStore, World.perform_reject]
      · rw [hStore] at hError
        exact absurd hError (by simp)
  | enabled =>
      unfold DeviceAttr.store at hError ⊢
      rcases enabledStore_cases kernel world.panel buf with
        ⟨error, hStore⟩ | ⟨enabled, hStore⟩
      · rw [hStore, World.perform_reject]
      · rw [hStore] at hError
        exact absurd hError (by simp)

/- What holds behind every operation of a run. -/
structure Settled
    (kernel : Kernel)
    (history : List Operation)
    (world : World) : Prop where
  inStep :
    InStep world.panel (world.panel.enabled && !world.suspended)
      world.controller.core.registers
  brightness : world.panel.brightness ≤ 7
  length : (lastText history).length ≤ numDigits
  text : ∀ i : Fin numDigits,
    world.panel.text i = (lastText history).getD i 0x20
  segments : kernel.mapToSeg7 0x20 = 0 →
    ∀ i, world.panel.digits i =
      UInt8.ofInt (kernel.mapToSeg7 (world.panel.text i))

/- The segments of a padded text, if a space has none. -/
theorem getD_map_segments
    {kernel : Kernel}
    (hSpace : kernel.mapToSeg7 0x20 = 0)
    (text : List UInt8)
    (i : Nat) :
    (text.map fun c =>
        UInt8.ofInt (kernel.mapToSeg7 c)).getD i 0 =
      UInt8.ofInt (kernel.mapToSeg7 (text.getD i 0x20)) := by
  rw [List.getD_eq_getElem?_getD, List.getD_eq_getElem?_getD,
    List.getElem?_map]
  cases text[i]? with
  | none =>
      rw [Option.map_none, Option.getD_none, Option.getD_none,
        hSpace]
      rfl
  | some c => rfl

/- An operation that leaves the world and the text settles. -/
theorem Settled.cons
    {kernel : Kernel}
    {history : List Operation}
    {world : World}
    (hSettled : Settled kernel history world)
    {operation : Operation}
    (hText :
      lastText (operation :: history) = lastText history) :
    Settled kernel (operation :: history) world where
  inStep := hSettled.inStep
  brightness := hSettled.brightness
  length := by
    rw [hText]
    exact hSettled.length
  text := by
    rw [hText]
    exact hSettled.text
  segments := hSettled.segments

/- One store. -/
theorem settled_store
    {kernel : Kernel}
    {history : List Operation}
    {world : World}
    (hSettled : Settled kernel history world)
    (hAwake : world.suspended = false)
    (attr : DeviceAttr)
    (buf : List UInt8) :
    Settled kernel
      (.store attr buf
        (attr.store kernel world.panel buf).result :: history)
      (world.perform (attr.store kernel world.panel buf)) := by
  have hStep := hSettled.inStep
  rw [hAwake, Bool.not_false, Bool.and_true] at hStep
  cases attr with
  | text =>
      unfold DeviceAttr.store
      rcases textStore_cases kernel world.panel buf with
        ⟨error, hNegative, hStore⟩ | ⟨hLength, hStore⟩
      · rw [hStore, World.perform_reject]
        exact hSettled.cons (if_neg (Int.not_le.mpr hNegative))
      · have hText :
            lastText (.store .text buf buf.length :: history) =
              stripNewline buf :=
          if_pos (by omega)
        rw [hStore]
        unfold World.perform
        refine ⟨?_, hSettled.brightness, ?_, ?_, ?_⟩
        · simp only [hAwake, Bool.not_false, Bool.and_true]
          exact hStep.writeDigits rfl rfl
        · rw [hText]
          exact hLength
        · rw [hText]
          exact fun i => rfl
        · intro hSpace i
          exact getD_map_segments hSpace _ _
  | symbols =>
      unfold DeviceAttr.store
      rcases symbolsStore_cases kernel world.panel buf with
        ⟨error, hStore⟩ | ⟨symbols, hStore⟩
      · rw [hStore, World.perform_reject]
        exact hSettled.cons rfl
      · rw [hStore]
        unfold World.perform
        refine ⟨?_, hSettled.brightness, hSettled.length,
          hSettled.text, hSettled.segments⟩
        simp only [hAwake, Bool.not_false, Bool.and_true]
        exact hStep.writeSymbols rfl rfl
  | brightness =>
      unfold DeviceAttr.store
      rcases brightnessStore_cases kernel world.panel buf with
        ⟨error, hStore⟩ | ⟨brightness, hSmall, hStore⟩
      · rw [hStore, World.perform_reject]
        exact hSettled.cons rfl
      · rw [hStore]
        unfold World.perform
        refine ⟨?_, hSmall, hSettled.length, hSettled.text,
          hSettled.segments⟩
        simp only [hAwake, Bool.not_false, Bool.and_true]
        exact
          @InStep.writeControl _
            { world.panel with brightness := brightness } _ _
            hStep rfl rfl hSmall _
  | enabled =>
      unfold DeviceAttr.store
      rcases enabledStore_cases kernel world.panel buf with
        ⟨error, hStore⟩ | ⟨enabled, hStore⟩
      · rw [hStore, World.perform_reject]
        exact hSettled.cons rfl
      · rw [hStore]
        unfold World.perform
        refine ⟨?_, hSettled.brightness, hSettled.length,
          hSettled.text, hSettled.segments⟩
        simp only [hAwake, Bool.not_false, Bool.and_true]
        exact
          @InStep.writeControl _
            { world.panel with enabled := enabled } _ _
            hStep rfl rfl hSettled.brightness enabled

/- Every operation of a run leaves the panel settled. -/
theorem settled_of_run
    {kernel : Kernel}
    {history : List Operation}
    {world : World}
    (hRun : Run kernel history world) :
    Settled kernel history world := by
  induction hRun with
  | probe controller =>
      have hBrightness : probedPanel.brightness ≤ 7 := by decide
      refine ⟨?_, hBrightness, Nat.zero_le _, fun i => rfl, ?_⟩
      · have hRestore :=
          inStep_restore hBrightness
            (controller.run
              [⟨.strobe, true⟩, ⟨.clock, true⟩, ⟨.data, true⟩])
        rw [← Controller.run_append] at hRestore
        unfold ht1628Probe
        simp only [ne_eq, not_true_eq_false, if_false,
          List.append_nil, Bool.not_false, Bool.and_true]
        exact hRestore
      · intro hSpace i
        change 0 = UInt8.ofInt (kernel.mapToSeg7 0x20)
        rw [hSpace]
        rfl
  | store attr buf _ hAwake ih =>
      exact settled_store ih hAwake attr buf
  | suspend _ hAwake ih =>
      refine ⟨?_, ih.brightness, ih.length, ih.text,
        ih.segments⟩
      simp only [Bool.not_true, Bool.and_false]
      exact
        ih.inStep.writeControl rfl rfl ih.brightness false
  | resume left _ _ ih =>
      refine ⟨?_, ih.brightness, ih.length, ih.text,
        ih.segments⟩
      simp only [ht1628Resume, Bool.not_false, Bool.and_true]
      exact inStep_restore ih.brightness left

/-
  Behind every operation of a run the registers hold what the
  cached fields say, on if enabled and not suspended; the
  fields hold the last text; and an error changes nothing.
-/
theorem panel_inStep
    {kernel : Kernel}
    {history : List Operation}
    {world : World}
    (hRun : Run kernel history world) :
    InStep world.panel
        (world.panel.enabled && !world.suspended)
        world.controller.core.registers ∧
      (kernel.mapToSeg7 0x20 = 0 →
        ∀ i, world.panel.digits i =
          UInt8.ofInt
            (kernel.mapToSeg7 (world.panel.text i))) ∧
      (lastText history).length ≤ numDigits ∧
      textShow world.panel =
        lastText history ++
          List.replicate
            (numDigits - (lastText history).length) 0x20 ++
          [0x0a] ∧
      ∀ (attr : DeviceAttr) (buf : List UInt8),
        (attr.store kernel world.panel buf).result < 0 →
          world.perform (attr.store kernel world.panel buf) =
            world := by
  have hSettled := settled_of_run hRun
  refine ⟨hSettled.inStep, hSettled.segments, hSettled.length,
    ?_, perform_of_result_neg kernel world⟩
  unfold textShow
  rw [hSettled.text, hSettled.text, hSettled.text,
    hSettled.text]
  have hLength := hSettled.length
  generalize lastText history = text at hLength
  match text with
  | [] => rfl
  | [_] => rfl
  | [_, _] => rfl
  | [_, _, _] => rfl
  | [_, _, _, _] => rfl
  | _ :: _ :: _ :: _ :: _ :: _ =>
      simp only [numDigits, List.length_cons] at hLength
      omega

/- An eight has all segments, and no number is parsed. -/
def eightKernel : Kernel where
  mapToSeg7 := fun c => if c = 0x38 then 0x7f else 0
  kstrtou8 := fun _ => .error (-eInvalid)
  kstrtobool := fun _ => .error (-eInvalid)

/- A controller that reads keys, with its strobe low. -/
def strayController : Controller where
  receiver := ⟨false, false, true, [true]⟩
  core :=
    ⟨.displayData, ⟨0, true, false, 3, fun _ => 0xff, true, 2⟩⟩

/- Probed, and an eight written. -/
def eightWorld : World :=
  World.perform
    ⟨(ht1628Probe 0).panel,
      strayController.run (ht1628Probe 0).events, false⟩
    (textStore eightKernel probedPanel [0x38, 0x0a])

theorem run_eightWorld :
    Run eightKernel [.store .text [0x38, 0x0a] 2]
      eightWorld :=
  .store .text [0x38, 0x0a] (.probe strayController) rfl

theorem panel_inStep_eight :
    textShow eightWorld.panel =
      [0x38, 0x20, 0x20, 0x20, 0x0a] :=
  (panel_inStep run_eightWorld).2.2.2.1

end FrontPanel

end MicaBoards
